import TxService.DeadLockCheck

/-!
# The search ends

Every turn of the loops uses up some of a budget: visiting an edge costs more than a walk through a
layer and a place on the stack.
-/

namespace TxService.Detection

open Transition (Reachable)

/-- What one turn does, by the branch it takes. -/
inductive Turn (g : WaitGraph) (s : Detection) : Detection → Prop
  | passed {e : TxEdge} {next : List TxEdge} : s.traverse = none → s.itEdge = e :: next →
      0 < s.second e → Turn g s { s with itEdge := next }
  | start {e : TxEdge} {next : List TxEdge} : s.traverse = none → s.itEdge = e :: next →
      ¬ 0 < s.second e → Turn g s (s.startRound g e next)
  | up {t : Traverse} {q u b : TxEdge × List TxEdge} {below : List (TxEdge × List TxEdge)} :
      s.traverse = some t → t.here = none → t.vctIter = q :: u :: b :: below →
      Turn g s { s with
        traverse := some ⟨u :: b :: below, t.setDup.erase u.1, u.1.txWait, u.2⟩ }
  | finish {t : Traverse} : s.traverse = some t → t.here = none → t.vctIter.length ≤ 2 →
      Turn g s s.endRound
  | report {t : Traverse} {e : TxEdge} {next : List TxEdge} : s.traverse = some t →
      t.here = some (e, next) → s.second e = s.iround → e ∈ t.setDup →
      Turn g s (s.report t e next)
  | skip {t : Traverse} {e : TxEdge} {next : List TxEdge} : s.traverse = some t →
      t.here = some (e, next) → (s.second e = s.iround ∨ 0 < s.second e) →
      (s.second e = s.iround → e ∉ t.setDup) → Turn g s (s.moveNext t next)
  | deep {t : Traverse} {e : TxEdge} {next : List TxEdge} : s.traverse = some t →
      t.here = some (e, next) → ¬ 0 < s.second e → Turn g s (s.goDeep g t e next)

theorem step_turn {g : WaitGraph} {s s' : Detection} (h : s.step g = some s') : Turn g s s' := by
  unfold step at h
  split at h
  · rename_i t ht
    cases h
    unfold stepTraverse
    split
    · rename_i empty
      unfold goUp
      split
      · rename_i u next b below eq
        cases hq : t.vctIter with
        | nil => simp [hq] at eq
        | cons q rest =>
          rw [hq, List.tail_cons] at eq
          exact .up ht empty (hq.trans (congrArg _ eq))
      · rename_i short
        apply Turn.finish ht empty
        match hq : t.vctIter with
        | [] => simp
        | [_] => simp
        | [_, _] => simp
        | q :: (u, next) :: b :: below => exact absurd (by rw [hq]; rfl) (short u next b below)
    · rename_i e next found
      split
      · rename_i visited
        split
        · rename_i dup
          exact .report ht found visited dup
        · rename_i dup
          exact .skip ht found (.inl visited) fun _ => dup
      · rename_i other
        split
        · rename_i visited
          exact .skip ht found (.inr visited) fun same => absurd same other
        · rename_i new
          exact .deep ht found new
  · rename_i ht
    split at h
    · cases h
    · rename_i e next eq
      cases h
      split
      · rename_i visited
        exact .passed ht eq visited
      · rename_i new
        exact .start ht eq new

variable {g : WaitGraph} {s s' : Detection} {t : Traverse} {e : TxEdge} {next : List TxEdge}

theorem here_some (h : t.here = some (e, next)) : t.iter = e :: next ∧ e.txWait = t.txId := by
  unfold Traverse.here at h
  split at h
  · cases h
  · rename_i iter
    split at h
    · rename_i wait
      cases h
      exact ⟨iter, wait⟩
    · cases h

/-- The iterators of a round are iterators of the map, and its stack is not empty. -/
structure Traversing (g : WaitGraph) (t : Traverse) : Prop where
  iter : t.iter <:+ g.edges
  vctIter : ∀ i ∈ t.vctIter, i.1 :: i.2 <:+ g.edges
  pushed : t.vctIter ≠ []

structure OnMap (g : WaitGraph) (s : Detection) : Prop where
  iround : 0 < s.iround
  itEdge : s.itEdge <:+ g.edges
  traverse : ∀ t, s.traverse = some t → Traversing g t

theorem initial_onMap (g : WaitGraph) : OnMap g (initial g) :=
  ⟨Int.zero_lt_one, List.suffix_refl _, nofun⟩

theorem suffix_next (h : e :: next <:+ g.edges) : next <:+ g.edges :=
  (List.suffix_cons e next).trans h

theorem lowerBound_suffix (txId : Nat) : g.lowerBound txId <:+ g.edges :=
  List.dropWhile_suffix _

theorem Traversing.here_suffix (h : Traversing g t) (found : t.here = some (e, next)) :
    e :: next <:+ g.edges :=
  (here_some found).1 ▸ h.iter

theorem Traversing.moved (h : Traversing g t) (found : t.here = some (e, next)) :
    Traversing g { t with iter := next } :=
  ⟨suffix_next (h.here_suffix found), h.vctIter, h.pushed⟩

theorem Turn.onMap (turn : Turn g s s') (h : OnMap g s) : OnMap g s' := by
  cases turn with
  | passed ht it =>
    have itEdge := h.itEdge
    rw [it] at itEdge
    exact ⟨h.iround, suffix_next itEdge, h.traverse⟩
  | start ht it =>
    have itEdge := h.itEdge
    rw [it] at itEdge
    refine ⟨h.iround, h.itEdge, ?_⟩
    rintro t ⟨rfl⟩
    exact ⟨lowerBound_suffix _, by simpa using itEdge, List.cons_ne_nil _ _⟩
  | up ht _ stack =>
    have iters := (h.traverse _ ht).vctIter
    rw [stack] at iters
    refine ⟨h.iround, h.itEdge, ?_⟩
    rintro t ⟨rfl⟩
    exact ⟨suffix_next (iters _ (by simp)), fun i hi => iters i (List.mem_cons_of_mem _ hi),
      List.cons_ne_nil _ _⟩
  | finish =>
    refine ⟨?_, (List.tail_suffix _).trans h.itEdge, nofun⟩
    have := h.iround
    simp only [endRound]
    omega
  | report ht found | skip ht found =>
    refine ⟨h.iround, h.itEdge, ?_⟩
    rintro t ⟨rfl⟩
    exact (h.traverse _ ht).moved found
  | deep ht found =>
    have iter := (h.traverse _ ht).here_suffix found
    refine ⟨h.iround, h.itEdge, ?_⟩
    rintro t ⟨rfl⟩
    refine ⟨lowerBound_suffix _, ?_, List.cons_ne_nil _ _⟩
    intro i hi
    cases hi with
    | head => exact iter
    | tail _ hi => exact (h.traverse _ ht).vctIter i hi

/-- What is left to do in a round. -/
def left (g : WaitGraph) (t : Traverse) : Nat :=
  t.vctIter.length * (g.edges.length + 1) + t.iter.length

def unvisited (g : WaitGraph) (second : TxEdge → Int) : Nat :=
  g.edges.countP fun e => decide (¬ 0 < second e)

def budget (g : WaitGraph) (s : Detection) : Nat :=
  unvisited g s.second * (2 * (g.edges.length + 1)) + s.traverse.elim 0 (left g) + s.itEdge.length

theorem unvisited_visit {second : TxEdge → Int} {iround : Int} (positive : 0 < iround)
    (new : ¬ 0 < second e) (he : e ∈ g.edges) :
    unvisited g (Function.update second e iround) + 1 ≤ unvisited g second := by
  have fewer (f : TxEdge) : decide (¬ 0 < Function.update second e iround f) = true →
      decide (¬ 0 < second f) = true := by
    by_cases same : f = e
    · subst same
      simp [positive]
    · simp [same]
  obtain ⟨before, after, split⟩ := List.append_of_mem he
  have front := List.countP_mono_left (l := before) fun f _ => fewer f
  have back := List.countP_mono_left (l := after) fun f _ => fewer f
  simp only [unvisited, split, List.countP_append, List.countP_cons, Function.update_self,
    positive, new, not_true_eq_false, not_false_eq_true, decide_true, decide_false, if_true,
    Bool.false_eq_true, if_false]
  omega

theorem Turn.spends (turn : Turn g s s') (h : OnMap g s) : s'.budget g < s.budget g := by
  have size (l : List TxEdge) (hl : l <:+ g.edges) : l.length ≤ g.edges.length := hl.length_le
  cases turn with
  | passed ht it =>
    simp only [budget, it, List.length_cons]
    omega
  | @start e next ht it new =>
    have here : e ∈ g.edges := h.itEdge.subset (it ▸ List.mem_cons_self)
    have visit := unvisited_visit h.iround new here
    have iter := size _ (lowerBound_suffix e.txLock)
    have := Nat.mul_le_mul_right (2 * (g.edges.length + 1)) visit
    simp only [budget, startRound, ht, Option.elim, left, List.length_singleton]
    rw [Nat.add_mul] at this
    omega
  | @up t q u b below ht empty stack =>
    have iter := size _ (suffix_next ((h.traverse _ ht).vctIter u (by simp [stack])))
    simp only [budget, ht, Option.elim, left, stack, List.length_cons, Nat.add_mul]
    omega
  | @finish t ht empty short =>
    have := List.length_pos_iff.mpr (h.traverse _ ht).pushed
    have := Nat.mul_le_mul_right (g.edges.length + 1) this
    simp only [budget, endRound, ht, Option.elim, left, List.length_tail]
    omega
  | report ht found | skip ht found =>
    simp only [budget, Detection.report, moveNext, ht, Option.elim, left, (here_some found).1,
      List.length_cons]
    omega
  | @deep t e next ht found new =>
    have here : e ∈ g.edges := ((h.traverse _ ht).here_suffix found).subset List.mem_cons_self
    have visit := unvisited_visit h.iround new here
    have iter := size _ (lowerBound_suffix e.txLock)
    have := Nat.mul_le_mul_right (2 * (g.edges.length + 1)) visit
    simp only [budget, goDeep, ht, Option.elim, left, List.length_cons, (here_some found).1]
    rw [Nat.add_mul] at this ⊢
    omega

def Reached (g : WaitGraph) : Detection → Prop :=
  Reachable (· = initial g) fun s (_ : Unit) s' => s.step g = some s'

theorem Reached.onMap (h : Reached g s) : OnMap g s :=
  Reachable.invariant h (by rintro _ rfl; exact initial_onMap g)
    fun _ _ _ step ih => (step_turn step).onMap ih

theorem run_returns {n : Nat} (h : OnMap g s) (enough : s.budget g < n) :
    (run g n s).step g = none := by
  induction n generalizing s with
  | zero => omega
  | succ n ih =>
    rw [run]
    split
    · assumption
    · rename_i s' step
      have spent := (step_turn step).spends h
      exact ih ((step_turn step).onMap h) (by omega)

theorem detect_returns (g : WaitGraph) : (run g g.turns (initial g)).step g = none := by
  apply run_returns (initial_onMap g)
  have all : unvisited g (initial g).second ≤ g.edges.length := List.countP_le_length
  have := Nat.mul_le_mul_right (2 * (g.edges.length + 1)) all
  simp only [budget, initial, Option.elim, WaitGraph.turns, Nat.add_mul] at *
  omega

theorem returned (h : s.step g = none) : s.traverse = none ∧ s.itEdge = [] := by
  unfold step at h
  split at h
  · cases h
  · rename_i ht
    split at h
    · rename_i it
      exact ⟨ht, it⟩
    · cases h

theorem run_reached {n : Nat} (h : Reached g s) : Reached g (run g n s) := by
  induction n generalizing s with
  | zero => exact h
  | succ n ih =>
    rw [run]
    split
    · exact h
    · rename_i s' step
      exact ih (h.next (a := ()) step)

theorem Turn.found_grows (turn : Turn g s s') : s.vctVEdge <+: s'.vctVEdge := by
  cases turn with
  | report => exact List.prefix_append _ _
  | passed | start | up | finish | skip | deep => exact List.prefix_refl _

end TxService.Detection
