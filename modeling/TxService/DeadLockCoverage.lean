import Mathlib.Data.List.TakeWhile
import TxService.DeadLockReports

/-!
# Deadlocks that are found

Once the search is on a cycle, it stays on it as long as it has visited whatever stands before the
next edge in a layer; then it comes back to the first edge and reports the cycle.
-/

namespace TxService

open Relation

namespace WaitGraph

/-- The transaction waits, through others, for one on the cycle. -/
def Reaches (g : WaitGraph) (cycle : List TxEdge) (tx : Nat) : Prop :=
  ∃ e ∈ cycle, ReflTransGen g.Waits tx e.txWait

/-- A cycle that is met by its first edge: where a transaction on it has an edge before that of the
cycle, no smaller transaction leads to the cycle, and the edge does not lead back to it. -/
structure MetFirst (g : WaitGraph) (cycle : List TxEdge) : Prop where
  inside : ∀ e ∈ cycle, e ∈ g.edges
  circuit : Circuit.IsCircuit TxEdge.txWait TxEdge.txLock cycle
  least : ∀ e ∈ cycle, ∀ f ∈ g.edges, f.txWait = e.txWait → EdgeLess f e →
    ∀ tx, g.Reaches cycle tx → e.txWait ≤ tx
  apart : ∀ e ∈ cycle, ∀ f ∈ g.edges, f.txWait = e.txWait → EdgeLess f e →
    ¬ g.Reaches cycle f.txLock

end WaitGraph

namespace Detection

variable {g : WaitGraph} {s s' : Detection} {t : Traverse} {e : TxEdge} {next cycle : List TxEdge}

theorem mem_lowerBound (he : e ∈ g.edges) {txId : Nat} (wait : e.txWait = txId) :
    e ∈ g.lowerBound txId := by
  rw [← List.takeWhile_append_dropWhile (p := fun e => decide (EdgeLess e ⟨txId, 0⟩))
    (l := g.edges), List.mem_append] at he
  cases he with
  | inl he =>
    have less := List.mem_takeWhile_imp he
    simp [EdgeLess, wait] at less
  | inr he => exact he

theorem lowerBound_ahead {txId : Nat} : ∀ f ∈ g.lowerBound txId, txId ≤ f.txWait := by
  intro f hf
  have sorted := suffix_sorted (lowerBound_suffix (g := g) txId)
  cases start : g.lowerBound txId with
  | nil => simp [start] at hf
  | cons first rest =>
    have at_least : ¬ EdgeLess first ⟨txId, 0⟩ := by
      have stop := List.head?_dropWhile_not (fun e => decide (EdgeLess e ⟨txId, 0⟩)) g.edges
      rw [WaitGraph.lowerBound] at start
      simpa [start] using stop
    have first_ahead : txId ≤ first.txWait := by
      unfold EdgeLess at at_least
      split at at_least
      · simp_all
      · simp only at at_least
        omega
    rw [start] at hf sorted
    cases hf with
    | head => exact first_ahead
    | tail _ hf => exact Nat.le_trans first_ahead ((List.pairwise_cons.mp sorted).1 f hf).wait_le

/-- The root of a round leads to its layer and, but for itself, to the edges on the stack. -/
structure Led (g : WaitGraph) (root : TxEdge) (t : Traverse) : Prop where
  layer : ReflTransGen g.Waits root.txLock t.txId
  stack : ∀ e ∈ t.stack.dropLast, ReflTransGen g.Waits root.txLock e.txWait

def Leads (g : WaitGraph) (s : Detection) : Prop :=
  ∀ t, s.traverse = some t → ∀ root ∈ s.itEdge.head?, Led g root t

theorem Turn.leads (turn : Turn g s s') (map : OnMap g s) (h : Leads g s) : Leads g s' := by
  cases turn with
  | passed ht =>
    intro t ht'
    cases ht.symm.trans ht'
  | finish =>
    intro t ht
    cases ht
  | start ht it =>
    rintro _ ⟨rfl⟩ root hr
    simp only [startRound, it, List.head?_cons, Option.mem_some] at hr
    subst hr
    exact ⟨.refl, fun _ he => absurd he List.not_mem_nil⟩
  | @up t q u b below ht empty stack =>
    have edges : t.stack = q.1 :: u.1 :: b.1 :: below.map Prod.fst := by
      simp [Traverse.stack, stack]
    rintro _ ⟨rfl⟩ root hr
    have led := (h t ht root hr).stack
    rw [edges] at led
    exact ⟨led u.1 (by simp), fun e he => led e (List.mem_cons_of_mem _ he)⟩
  | report ht | skip ht =>
    rintro _ ⟨rfl⟩ root hr
    have led := h _ ht root hr
    exact ⟨led.layer, led.stack⟩
  | @deep t e next ht found =>
    rintro _ ⟨rfl⟩ root hr
    have led := h t ht root hr
    have wait := (here_some found).2
    have here := ((map.traverse t ht).here_suffix found).subset List.mem_cons_self
    have pushed : t.stack ≠ [] := by simpa [Traverse.stack] using (map.traverse t ht).pushed
    constructor
    · exact led.layer.tail ⟨e, here, wait, rfl⟩
    · intro f hf
      have split : ((e, next) :: t.vctIter).map Prod.fst = e :: t.stack := rfl
      rw [Traverse.stack, split, List.dropLast_cons_of_ne_nil pushed] at hf
      cases hf with
      | head => exact wait ▸ led.layer
      | tail _ hf => exact led.stack f hf

theorem Reached.leads (h : Reached g s) : Leads g s := by
  induction h with
  | start hi =>
    subst hi
    exact nofun
  | next h step ih => exact (step_turn step).leads (Reached.onMap h) ih

/-- The search is on the cycle: the edges of it that have been visited are a path on top of the
stack, and the next one is still to come in the layer. -/
structure OnPath (cycle : List TxEdge) (s : Detection) (t : Traverse) (u : TxEdge)
    (path : List TxEdge) : Prop where
  top : u :: path <+: t.stack
  walk : (u :: path).IsChain fun a b => a.txWait = b.txLock
  nodup : (u :: path).Nodup
  inside : ∀ e ∈ u :: path, e ∈ cycle
  isOpen : ∀ e ∈ u :: path, e ∈ t.setDup ∧ s.second e = s.iround
  only : ∀ e ∈ cycle, 0 < s.second e → e ∈ u :: path
  layer : t.txId = u.txLock
  ahead : ∀ f ∈ t.iter, t.txId ≤ f.txWait
  next : ∀ e ∈ cycle, e.txWait = u.txLock → e ∈ t.iter

/-- No edge of the cycle has been visited, the search is on it, or some cycle has been reported. -/
inductive Follows (g : WaitGraph) (cycle : List TxEdge) (s : Detection) : Prop
  | untouched : (∀ e ∈ cycle, ¬ 0 < s.second e) → Follows g cycle s
  | onPath (t : Traverse) (u : TxEdge) (path : List TxEdge) : s.traverse = some t →
      OnPath cycle s t u path → Follows g cycle s
  | found (edges : List TxEdge) : edges ∈ s.vctVEdge → g.IsCycle edges → Follows g cycle s

variable {u : TxEdge} {path : List TxEdge}

/-- While the search is on the cycle, its layer is not done. -/
theorem OnPath.here (h : OnPath cycle s t u path) (met : g.MetFirst cycle) (map : Traversing g t) :
    ∃ e next, t.here = some (e, next) ∧
      ∃ n ∈ cycle, n.txWait = t.txId ∧ (n = e ∨ n ∈ next ∧ EdgeLess e n) := by
  obtain ⟨n, hn, link⟩ := met.circuit.successor (h.inside u List.mem_cons_self)
  have mem := h.next n hn link.symm
  have ahead := h.ahead
  have sorted := suffix_sorted map.iter
  have wait : n.txWait = t.txId := link.symm.trans h.layer.symm
  unfold Traverse.here
  cases iter : t.iter with
  | nil => simp [iter] at mem
  | cons e next =>
    rw [iter] at mem sorted ahead
    have place : n = e ∨ n ∈ next ∧ EdgeLess e n :=
      (List.mem_cons.mp mem).imp_right fun later => ⟨later, (List.pairwise_cons.mp sorted).1 n later⟩
    have first : e.txWait = t.txId := by
      apply Nat.le_antisymm _ (ahead e List.mem_cons_self)
      rcases place with rfl | ⟨_, less⟩
      · exact Nat.le_of_eq wait
      · exact wait ▸ less.wait_le
    exact ⟨e, next, by simp [first], n, hn, wait, place⟩

/-- What stands before the next edge of the cycle in its layer has been visited: an edge that has not
is behind the round's root, which leads to the cycle. -/
theorem visited_before (met : g.MetFirst cycle) (map : OnMap g s) (visits : Visits g s)
    (leads : Leads g s) (ht : s.traverse = some t) {n : TxEdge} (hn : n ∈ cycle)
    (wait : n.txWait = t.txId) (he : e ∈ g.edges) (same : e.txWait = n.txWait)
    (before : EdgeLess e n) : 0 < s.second e := by
  by_contra new
  obtain ⟨root, next, it⟩ : ∃ root next, s.itEdge = root :: next := by
    have ahead : e ∈ s.itEdge := by
      by_contra past
      exact new (visits.passed e he past)
    exact List.exists_cons_of_ne_nil (List.ne_nil_of_mem ahead)
  have inside : root ∈ g.edges := map.itEdge.subset (it ▸ List.mem_cons_self)
  have less := visits.least map ht it he new
  have way := (leads t ht root (by simp [it])).layer
  have reaches : g.Reaches cycle root.txLock := ⟨n, hn, wait ▸ way⟩
  have bound : n.txWait ≤ root.txWait :=
    met.least n hn e he same before _ ⟨n, hn, .head ⟨root, inside, rfl, rfl⟩ (wait ▸ way)⟩
  have layer : root.txWait = n.txWait :=
    Nat.le_antisymm (same ▸ less.wait_le) bound
  exact met.apart n hn root inside layer (less.trans before) reaches

/-- The search visits its first edge of the cycle. -/
theorem onPath_first {vctIter : List (TxEdge × List TxEdge)} {setDup : Finset TxEdge}
    (met : g.MetFirst cycle) (untouched : ∀ e ∈ cycle, ¬ 0 < s.second e) (he : e ∈ cycle)
    (dup : e ∈ setDup) (t' : Traverse)
    (eq : t' = ⟨(e, next) :: vctIter, setDup, e.txLock, g.lowerBound e.txLock⟩) :
    OnPath cycle { s with second := Function.update s.second e s.iround, traverse := some t' } t'
      e [] := by
  subst eq
  constructor
  · simp [Traverse.stack]
  · exact List.isChain_singleton _
  · exact List.nodup_singleton _
  · simpa using he
  · simpa using dup
  · intro f hf visited
    by_cases same : f = e
    · exact same ▸ List.mem_cons_self
    · exact absurd (by simpa [same] using visited) (untouched f hf)
  · rfl
  · exact lowerBound_ahead
  · exact fun f hf wait => mem_lowerBound (met.inside f hf) wait

theorem OnPath.deep (h : OnPath cycle s t u path) (met : g.MetFirst cycle) (positive : 0 < s.iround)
    (found : t.here = some (e, next)) (new : ¬ 0 < s.second e) (he : e ∈ cycle) :
    OnPath cycle (s.goDeep g t e next)
      ⟨(e, next) :: t.vctIter, insert e t.setDup, e.txLock, g.lowerBound e.txLock⟩ e (u :: path) := by
  have other {f : TxEdge} (hf : f ∈ u :: path) : f ≠ e := by
    rintro rfl
    have := (h.isOpen f hf).2
    omega
  constructor
  · exact List.cons_prefix_cons.mpr ⟨rfl, h.top⟩
  · exact List.isChain_cons_cons.mpr ⟨(here_some found).2.trans h.layer, h.walk⟩
  · exact List.nodup_cons.mpr ⟨fun seen => other seen rfl, h.nodup⟩
  · intro f hf
    cases hf with
    | head => exact he
    | tail _ hf => exact h.inside f hf
  · intro f hf
    cases hf with
    | head => simp [goDeep]
    | tail _ hf => simpa [goDeep, other hf] using h.isOpen f hf
  · intro f hf visited
    by_cases same : f = e
    · exact same ▸ List.mem_cons_self
    · exact List.mem_cons_of_mem _ (h.only f hf (by simpa [goDeep, same] using visited))
  · rfl
  · exact lowerBound_ahead
  · exact fun f hf wait => mem_lowerBound (met.inside f hf) wait

/-- The search moves past an edge that is not on the cycle, with or without a report. -/
theorem OnPath.moved (h : OnPath cycle s t u path) (found : t.here = some (e, next))
    (off : e ∉ cycle) (vctVEdge : List (List TxEdge)) :
    OnPath cycle { s with vctVEdge := vctVEdge, traverse := some { t with iter := next } }
      { t with iter := next } u path := by
  have iter := (here_some found).1
  refine { h with ahead := fun f hf => h.ahead f (by simp [iter, hf]), next := fun f hf wait => ?_ }
  have mem := h.next f hf wait
  rw [iter] at mem
  cases mem with
  | head => exact absurd hf off
  | tail _ mem => exact mem

/-- An edge of the cycle that is met again is on the path, so the path down to it is a cycle. -/
theorem OnPath.closes (h : OnPath cycle s t u path) (map : Traversing g t)
    (found : t.here = some (e, next)) (mem : e ∈ u :: path) :
    g.IsCycle (e :: t.stack.takeWhile fun f => decide (f ≠ e)) := by
  obtain ⟨above, below, split⟩ := List.append_of_mem mem
  obtain ⟨rest, top⟩ := h.top
  have walk := h.walk
  have nodup := h.nodup
  have regroup : u :: path = (above ++ [e]) ++ below := by simp [split]
  have stack : t.stack = above ++ e :: (below ++ rest) := by simp [← top, split]
  rw [regroup] at walk nodup
  apply reported_cycle map (map.mem_edges (by simp [stack])) stack _ walk.left_of_append
  · intro v hv
    have head : (u :: path).head? = some v := by
      rw [regroup]
      exact List.mem_head?_append_of_mem_head? hv
    cases head
    exact (here_some found).2.trans h.layer
  · intro seen
    exact (List.nodup_append.mp nodup.of_append_left).2.2 e seen e List.mem_cons_self rfl

theorem Turn.follows_untouched (turn : Turn g s s') (met : g.MetFirst cycle)
    (h : ∀ e ∈ cycle, ¬ 0 < s.second e) : Follows g cycle s' := by
  have visit {e : TxEdge} (he : e ∉ cycle) :
      ∀ f ∈ cycle, ¬ 0 < Function.update s.second e s.iround f := by
    intro f hf
    have other : f ≠ e := fun same => he (same ▸ hf)
    simpa [other] using h f hf
  cases turn with
  | passed | up | finish | report | skip => exact .untouched h
  | @start e =>
    by_cases he : e ∈ cycle
    · exact .onPath _ _ _ rfl (onPath_first met h he (Finset.mem_singleton_self e) _ rfl)
    · exact .untouched (visit he)
  | @deep t e =>
    by_cases he : e ∈ cycle
    · exact .onPath _ _ _ rfl (onPath_first met h he (Finset.mem_insert_self e _) _ rfl)
    · exact .untouched (visit he)

theorem Turn.follows_path (turn : Turn g s s') (met : g.MetFirst cycle) (map : OnMap g s)
    (visits : Visits g s) (leads : Leads g s) (ht : s.traverse = some t)
    (h : OnPath cycle s t u path) : Follows g cycle s' := by
  have iters := map.traverse t ht
  obtain ⟨e, next, found, n, hn, wait, place⟩ := h.here met iters
  have same : ∀ {t'}, s.traverse = some t' → t' = t := fun ht' => Option.some.inj (ht'.symm.trans ht)
  have positive := map.iround
  cases turn with
  | passed ht' | start ht' => cases ht.symm.trans ht'
  | up ht' empty | finish ht' empty =>
    obtain rfl := same ht'
    cases found.symm.trans empty
  | report ht' found' visited dup =>
    obtain rfl := same ht'
    obtain ⟨rfl, rfl⟩ := Prod.mk.inj (Option.some.inj (found.symm.trans found'))
    by_cases he : e ∈ cycle
    · have mem := h.only e he (by omega)
      exact .found _ (List.mem_append_right _ List.mem_cons_self) (h.closes iters found mem)
    · exact .onPath _ u path rfl (h.moved found he _)
  | skip ht' found' visited dup =>
    obtain rfl := same ht'
    obtain ⟨rfl, rfl⟩ := Prod.mk.inj (Option.some.inj (found.symm.trans found'))
    by_cases he : e ∈ cycle
    · have mem := h.isOpen e (h.only e he (by omega))
      exact absurd mem.1 (dup mem.2)
    · exact .onPath _ u path rfl (h.moved found he s.vctVEdge)
  | deep ht' found' new =>
    obtain rfl := same ht'
    obtain ⟨rfl, rfl⟩ := Prod.mk.inj (Option.some.inj (found.symm.trans found'))
    by_cases he : e ∈ cycle
    · exact .onPath _ e (u :: path) rfl (h.deep met positive found new he)
    · rcases place with rfl | ⟨-, before⟩
      · exact absurd hn he
      · have here := (iters.here_suffix found).subset List.mem_cons_self
        have layer := (here_some found).2.trans wait.symm
        exact absurd (visited_before met map visits leads ht hn wait here layer before) new

theorem Reached.follows (met : g.MetFirst cycle) (h : Reached g s) : Follows g cycle s := by
  induction h with
  | start hi =>
    subst hi
    exact .untouched fun e _ => by simp [initial]
  | @next s s' _ h step ih =>
    have reached : Reached g s := h
    have turn := step_turn step
    cases ih with
    | untouched h => exact turn.follows_untouched met h
    | onPath t u path ht h =>
      exact turn.follows_path met reached.onMap reached.visits reached.leads ht h
    | found edges he cyclic => exact .found edges (turn.found_grows.subset he) cyclic

/-- Whenever transactions wait for each other in a cycle, a cycle is reported. -/
def CompleteOn (g : WaitGraph) : Prop :=
  ∀ tx, g.Deadlocked tx → ∃ edges ∈ detectDeadLock g, g.IsCycle edges

/-- The detection is complete on a graph that has, if any, a cycle that is met by its first edge. -/
theorem detection_complete (g : WaitGraph)
    (met : ∀ tx, g.Deadlocked tx → ∃ cycle, g.MetFirst cycle) : CompleteOn g := by
  intro tx deadlocked
  obtain ⟨cycle, met⟩ := met tx deadlocked
  have result : Reached g (run g g.turns (initial g)) := run_reached (.start rfl)
  obtain ⟨atEnd, ended⟩ := returned (detect_returns g)
  cases result.follows met with
  | untouched never =>
    obtain ⟨e, rest, shape, -⟩ := met.circuit
    have he : e ∈ cycle := shape ▸ List.mem_cons_self
    exact absurd (result.visits.passed e (met.inside e he) (by simp [ended])) (never e he)
  | onPath t u path ht => cases atEnd.symm.trans ht
  | found edges he cyclic => exact ⟨edges, he, cyclic⟩

/-- The second transaction waits for the first and the third, which waits for the second. -/
def waitsBeside : LockDependancy Nat where
  txidWaitedEntryMap := [(2, [20]), (3, [30])]
  entryLockedTxidMap := fun ety =>
    if ety = 20 then some [1, 3] else if ety = 30 then some [2] else none

theorem waitsBeside_reported :
    waitsBeside.generateTxWaitGraph.Deadlocked 2 ∧
      ∃ edges ∈ detectDeadLock waitsBeside.generateTxWaitGraph,
        waitsBeside.generateTxWaitGraph.IsCycle edges := by
  have deadlocked : waitsBeside.generateTxWaitGraph.Deadlocked 2 :=
    .tail (.single ⟨⟨2, 3⟩, by decide, rfl, rfl⟩) ⟨⟨3, 2⟩, by decide, rfl, rfl⟩
  have waiting : ∀ e ∈ waitsBeside.generateTxWaitGraph.edges, 2 ≤ e.txWait := by decide
  have inside : ∀ e ∈ [⟨2, 3⟩, ⟨3, 2⟩], e ∈ waitsBeside.generateTxWaitGraph.edges := by decide
  have onward {tx : Nat} : waitsBeside.generateTxWaitGraph.Reaches [⟨2, 3⟩, ⟨3, 2⟩] tx →
      2 ≤ tx := by
    rintro ⟨e, he, way⟩
    rcases way.cases_head with rfl | ⟨_, ⟨f, hf, rfl, -⟩, -⟩
    · exact waiting e (inside e he)
    · exact waiting f hf
  have beside : ∀ e ∈ [⟨2, 3⟩, ⟨3, 2⟩], ∀ f ∈ waitsBeside.generateTxWaitGraph.edges,
      f.txWait = e.txWait → EdgeLess f e → e.txWait = 2 ∧ f.txLock = 1 := by decide
  refine ⟨deadlocked, detection_complete _ (fun _ _ => ⟨[⟨2, 3⟩, ⟨3, 2⟩], ?_⟩) 2 deadlocked⟩
  constructor
  · exact inside
  · exact ⟨⟨2, 3⟩, [⟨3, 2⟩], rfl, by decide⟩
  · intro e he f hf same before tx reaches
    exact (beside e he f hf same before).1 ▸ onward reaches
  · intro e he f hf same before reaches
    have := onward reaches
    have := (beside e he f hf same before).2
    omega

/-- The third transaction waits for an entry that the first and the second hold, and the
second waits for the third. -/
def sharedWait : LockDependancy Nat where
  txidWaitedEntryMap := [(2, [20]), (3, [30])]
  entryLockedTxidMap := fun ety =>
    if ety = 20 then some [3] else if ety = 30 then some [1, 2] else none

/-- The second and the third wait for each other, and nothing is reported: the search goes
up from the edge to the first transaction past the edge to the second. -/
theorem sharedWait_not_reported :
    sharedWait.generateTxWaitGraph.Deadlocked 2 ∧
      detectDeadLock sharedWait.generateTxWaitGraph = [] ∧
      ¬ CompleteOn sharedWait.generateTxWaitGraph := by
  have deadlocked : sharedWait.generateTxWaitGraph.Deadlocked 2 :=
    .tail (.single ⟨⟨2, 3⟩, by decide, rfl, rfl⟩) ⟨⟨3, 2⟩, by decide, rfl, rfl⟩
  have nothing : detectDeadLock sharedWait.generateTxWaitGraph = [] := by decide
  refine ⟨deadlocked, nothing, fun complete => ?_⟩
  obtain ⟨edges, he, _⟩ := complete 2 deadlocked
  rw [nothing] at he
  cases he

end Detection

end TxService
