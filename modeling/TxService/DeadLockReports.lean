import TxService.DeadLockSearch

/-!
# What the search reports

While the search goes down, its stack is a path and `set_dup` holds the edges of the path, so an edge
met again closes a cycle. Going up, it erases the edge below the one it pops and goes on behind that
edge; this does no harm where nothing waits behind it.
-/

namespace TxService

namespace WaitGraph

/-- Its waiting transaction has no edge behind it in the map. -/
def LastWait (g : WaitGraph) (e : TxEdge) : Prop :=
  ∀ f ∈ g.edges, f.txWait = e.txWait → ¬ EdgeLess e f

/-- A path of distinct edges that are all behind its first one in the map. -/
structure LeastPath (g : WaitGraph) (root : TxEdge) (rest : List TxEdge) : Prop where
  inside : ∀ e ∈ root :: rest, e ∈ g.edges
  walk : (root :: rest).IsChain fun a b => a.txLock = b.txWait
  nodup : (root :: rest).Nodup
  least : ∀ e ∈ rest, EdgeLess root e

/-- Between its first and its last edge, such a path takes the last edge of every transaction. -/
def ForksLast (g : WaitGraph) : Prop :=
  ∀ root before e f, g.LeastPath root (before ++ [e, f]) → g.LastWait e

end WaitGraph

namespace Detection

open Transition (Reachable)

variable {g : WaitGraph} {s s' : Detection} {t : Traverse} {e f root : TxEdge} {next : List TxEdge}

theorem suffix_sorted {l : List TxEdge} (h : l <:+ g.edges) : l.Pairwise EdgeLess :=
  g.sorted.sublist h.sublist

theorem Traversing.mem_edges (h : Traversing g t) (he : e ∈ t.stack) : e ∈ g.edges := by
  obtain ⟨i, hi, rfl⟩ := List.mem_map.mp he
  exact (h.vctIter i hi).subset List.mem_cons_self

/-- The edges before the round's root have been visited, and so has the stack down to the root. -/
structure Visits (g : WaitGraph) (s : Detection) : Prop where
  passed : ∀ e ∈ g.edges, e ∉ s.itEdge → 0 < s.second e
  stack : ∀ t, s.traverse = some t → ∀ e ∈ t.stack, 0 < s.second e
  root : ∀ t, s.traverse = some t → t.stack.getLast? = s.itEdge.head?

theorem initial_visits (g : WaitGraph) : Visits g (initial g) :=
  ⟨fun _ he past => absurd he past, nofun, nofun⟩

theorem Visits.moved (h : Visits g s) (ht : s.traverse = some t) (vctVEdge : List (List TxEdge))
    (iter : List TxEdge) :
    Visits g { s with vctVEdge := vctVEdge, traverse := some { t with iter := iter } } := by
  constructor
  · exact h.passed
  · rintro _ ⟨rfl⟩
    exact h.stack t ht
  · rintro _ ⟨rfl⟩
    exact h.root t ht

theorem visited_update {second : TxEdge → Int} {iround : Int} (positive : 0 < iround)
    (h : f = e ∨ 0 < second f) : 0 < Function.update second e iround f := by
  by_cases same : f = e
  · simpa [same] using positive
  · simpa [same] using h

theorem Turn.visits (turn : Turn g s s') (map : OnMap g s) (h : Visits g s) : Visits g s' := by
  cases turn with
  | @passed e next ht it visited =>
    constructor
    · intro f hf past
      by_cases same : f = e
      · exact same ▸ visited
      · exact h.passed f hf (by simpa [it, same] using past)
    · exact h.stack
    · intro t ht'
      cases ht.symm.trans ht'
  | start ht it =>
    constructor
    · intro f hf past
      exact visited_update map.iround (.inr (h.passed f hf past))
    · rintro _ ⟨rfl⟩ f hf
      exact visited_update map.iround (.inl (List.mem_singleton.mp hf))
    · rintro _ ⟨rfl⟩
      simp [Traverse.stack, startRound, it]
  | @up t q u b below ht empty stack =>
    have edges : t.stack = q.1 :: u.1 :: b.1 :: below.map Prod.fst := by
      simp [Traverse.stack, stack]
    have visited := h.stack t ht
    have root := h.root t ht
    rw [edges] at visited root
    refine ⟨h.passed, ?_, ?_⟩
    · rintro _ ⟨rfl⟩ f hf
      exact visited f (List.mem_cons_of_mem _ hf)
    · rintro _ ⟨rfl⟩
      simpa [Traverse.stack, List.getLast?_cons_cons] using root
  | @finish t ht =>
    refine ⟨?_, (by rintro _ ⟨⟩), by rintro _ ⟨⟩⟩
    intro e he past
    cases it : s.itEdge with
    | nil => exact h.passed e he (by simp [it])
    | cons first rest =>
      by_cases same : e = first
      · apply h.stack t ht
        exact List.mem_of_getLast? (by rw [h.root t ht, it, same]; rfl)
      · exact h.passed e he (by simpa [endRound, it, same] using past)
  | report ht => exact h.moved ht _ _
  | skip ht => exact h.moved ht _ _
  | @deep t e next ht found =>
    constructor
    · intro f hf past
      exact visited_update map.iround (.inr (h.passed f hf past))
    · rintro _ ⟨rfl⟩ f hf
      apply visited_update map.iround
      exact (List.mem_cons.mp hf).imp_right (h.stack t ht f)
    · rintro _ ⟨rfl⟩
      have pushed : t.stack ≠ [] := by
        simpa [Traverse.stack] using (map.traverse t ht).pushed
      exact (List.getLast?_cons_of_ne_nil pushed).trans (h.root t ht)

theorem Reached.visits (h : Reached g s) : Visits g s := by
  induction h with
  | start hi => exact hi ▸ initial_visits g
  | next h step ih => exact (step_turn step).visits (Reached.onMap h) ih

/-- What a round has not visited yet is behind its root. -/
theorem Visits.least (h : Visits g s) (map : OnMap g s) (ht : s.traverse = some t)
    (it : s.itEdge = root :: next) (he : e ∈ g.edges) (new : ¬ 0 < s.second e) :
    EdgeLess root e := by
  have ahead : e ∈ s.itEdge := by
    by_contra past
    exact new (h.passed e he past)
  have bottom : root ∈ t.stack := List.mem_of_getLast? (by rw [h.root t ht, it]; rfl)
  have sorted := suffix_sorted map.itEdge
  rw [it] at ahead sorted
  cases ahead with
  | head => exact absurd (h.stack t ht _ bottom) new
  | tail _ later => exact (List.pairwise_cons.mp sorted).1 e later

/-- The list reported for an edge is a cycle when the stack is a path down to it. -/
theorem reported_cycle {above below : List TxEdge} (map : Traversing g t) (he : e ∈ g.edges)
    (split : t.stack = above ++ e :: below) (off : e ∉ above)
    (walk : (above ++ [e]).IsChain fun a b => a.txWait = b.txLock)
    (top : ∀ u ∈ (above ++ [e]).head?, e.txWait = u.txLock) :
    g.IsCycle (e :: t.stack.takeWhile fun f => decide (f ≠ e)) := by
  have taken : (t.stack.takeWhile fun f => decide (f ≠ e)) = above := by
    rw [split, List.takeWhile_append_of_pos]
    · simp
    · exact fun f hf => decide_eq_true fun same => off (same ▸ hf)
  rw [taken]
  constructor
  · intro f hf
    cases hf with
    | head => exact he
    | tail _ hf => exact map.mem_edges (split ▸ List.mem_append_left _ hf)
  · exact .inr ⟨e, above, rfl, List.isChain_cons.mpr ⟨top, walk⟩⟩

/-- The stack of a round that has not gone up yet is a path of the edges in `set_dup`; once it has,
the round is at the end of every layer. -/
structure Descent (s : Detection) (t : Traverse) : Prop where
  walk : t.stack.IsChain fun a b => a.txWait = b.txLock
  nodup : t.stack.Nodup
  least : ∀ root ∈ s.itEdge.head?, ∀ e ∈ t.stack, e = root ∨ EdgeLess root e
  phase : ((∀ e, e ∈ t.setDup ↔ e ∈ t.stack) ∧ ∀ u ∈ t.stack.head?, t.txId = u.txLock) ∨
    t.here = none

theorem Descent.path (h : Descent s t) (map : Traversing g t) {q u : TxEdge} {below : List TxEdge}
    (it : s.itEdge = root :: next) (stack : t.stack = q :: u :: below ++ [root]) :
    g.LeastPath root (below.reverse ++ [u, q]) := by
  have reversed : root :: (below.reverse ++ [u, q]) = t.stack.reverse := by simp [stack]
  have nodup : (root :: (below.reverse ++ [u, q])).Nodup :=
    reversed ▸ List.nodup_reverse.mpr h.nodup
  constructor
  · intro e he
    rw [reversed, List.mem_reverse] at he
    exact map.mem_edges he
  · rw [reversed, List.isChain_reverse]
    exact h.walk.imp fun _ _ link => link.symm
  · exact nodup
  · intro e he
    have mem : e ∈ t.stack := by
      rw [← List.mem_reverse, ← reversed]
      exact List.mem_cons_of_mem _ he
    apply (h.least root (by simp [it]) e mem).resolve_left
    rintro rfl
    exact (List.nodup_cons.mp nodup).1 he

/-- Going up comes to the end of the layer below. -/
theorem here_none_of_lastWait {u : TxEdge} {vctIter : List (TxEdge × List TxEdge)}
    {setDup : Finset TxEdge} (last : g.LastWait u) (place : u :: next <:+ g.edges) :
    Traverse.here ⟨vctIter, setDup, u.txWait, next⟩ = none := by
  cases next with
  | nil => rfl
  | cons f rest =>
    have behind := (List.pairwise_cons.mp (suffix_sorted place)).1 f List.mem_cons_self
    have other : f.txWait ≠ u.txWait := fun same =>
      last f (place.subset (by simp)) same behind
    simp [Traverse.here, other]

theorem Turn.descent (forks : g.ForksLast) (turn : Turn g s s') (map : OnMap g s)
    (visits : Visits g s) (h : ∀ t, s.traverse = some t → Descent s t) :
    ∀ t, s'.traverse = some t → Descent s' t := by
  cases turn with
  | passed ht => exact fun t ht' => absurd (ht.symm.trans ht') nofun
  | finish => exact nofun
  | start ht it =>
    rintro _ ⟨rfl⟩
    refine ⟨List.isChain_singleton _, List.nodup_singleton _, ?_, .inl ⟨?_, ?_⟩⟩
    all_goals simp [Traverse.stack, startRound, it]
  | @up t q u b below ht empty stack =>
    have descent := h t ht
    have iters := map.traverse t ht
    have edges : t.stack = q.1 :: u.1 :: b.1 :: below.map Prod.fst := by
      simp [Traverse.stack, stack]
    obtain ⟨inner, root, bottom⟩ : ∃ inner root, b.1 :: below.map Prod.fst = inner ++ [root] :=
      ⟨_, _, (List.dropLast_append_getLast (List.cons_ne_nil _ _)).symm⟩
    have split : t.stack = q.1 :: u.1 :: inner ++ [root] := by rw [edges, bottom]; rfl
    obtain ⟨next, it⟩ : ∃ next, s.itEdge = root :: next := by
      have same := visits.root t ht
      rw [split, List.getLast?_concat] at same
      exact List.head?_eq_some_iff.mp same.symm
    have last := forks root _ _ _ (descent.path iters it split)
    have walk := descent.walk
    have nodup := descent.nodup
    have least := descent.least
    rw [edges] at walk nodup least
    rintro _ ⟨rfl⟩
    refine ⟨walk.tail, nodup.of_cons, ?_, .inr ?_⟩
    · exact fun r hr e he => least r hr e (List.mem_cons_of_mem _ he)
    · exact here_none_of_lastWait last (iters.vctIter u (by simp [stack]))
  | report ht found | skip ht found =>
    have descent := h _ ht
    rintro _ ⟨rfl⟩
    refine ⟨descent.walk, descent.nodup, descent.least, .inl ?_⟩
    exact descent.phase.resolve_right (by simp [found])
  | @deep t e next ht found new =>
    have descent := h t ht
    have here := (map.traverse t ht).here_suffix found
    obtain ⟨dup, top⟩ := descent.phase.resolve_right (by simp [found])
    rintro _ ⟨rfl⟩
    refine ⟨List.isChain_cons.mpr ⟨?_, descent.walk⟩, List.nodup_cons.mpr ⟨?_, descent.nodup⟩,
      ?_, .inl ⟨?_, ?_⟩⟩
    · intro u hu
      rw [(here_some found).2, top u hu]
    · exact fun seen => new (visits.stack t ht e seen)
    · intro root hr f hf
      cases hf with
      | tail _ hf => exact descent.least root hr f hf
      | head =>
        obtain ⟨_, it⟩ := List.head?_eq_some_iff.mp hr
        exact .inr (visits.least map ht it (here.subset List.mem_cons_self) new)
    · intro f
      simp [Traverse.stack, dup f]
    · intro u hu
      cases hu
      rfl

theorem Reached.descent (forks : g.ForksLast) (h : Reached g s) :
    ∀ t, s.traverse = some t → Descent s t := by
  induction h with
  | start hi =>
    subst hi
    exact nofun
  | next h step ih => exact (step_turn step).descent forks (Reached.onMap h) (Reached.visits h) ih

theorem Descent.reports (h : Descent s t) (map : Traversing g t) (found : t.here = some (e, next))
    (dup : e ∈ t.setDup) : g.IsCycle (e :: t.stack.takeWhile fun f => decide (f ≠ e)) := by
  obtain ⟨same, top⟩ := h.phase.resolve_right (by simp [found])
  obtain ⟨above, below, split⟩ := List.append_of_mem ((same e).mp dup)
  have walk := h.walk
  have nodup := h.nodup
  have regroup : t.stack = (above ++ [e]) ++ below := by simp [split]
  rw [regroup] at walk nodup
  apply reported_cycle map (map.mem_edges ((same e).mp dup)) split _ walk.left_of_append
  · intro u hu
    rw [(here_some found).2]
    apply top u
    rw [regroup]
    exact List.mem_head?_append_of_mem_head? hu
  · intro seen
    exact (List.nodup_append.mp nodup.of_append_left).2.2 e seen e List.mem_cons_self rfl

end Detection

end TxService
