import Mathlib.Data.List.Perm.Basic
import Mathlib.Order.Defs.LinearOrder
import Mathlib.Order.Lattice
import TxService.ReadSet

/-!
# The scanner of a hash partitioned table

A `TemplateCcScanner` merges a cache of tuples for each core. A used-up cache that was full blocks
the scan until it is filled again.
-/

namespace TxService

universe u v w

inductive ScanDirection
  | forward
  | backward
  deriving DecidableEq, Repr

inductive ScanIndexType
  | primary
  | secondary
  deriving DecidableEq, Repr

inductive ScannerStatus
  | open
  | closed
  | blocked
  deriving DecidableEq, Repr

/-- A tuple with `keyTs` 0 stands for a gap; its key is not part of the scan. -/
structure ScanTuple (K : Type u) (V : Type v) (A : Type w) where
  key : K
  record : Option V
  keyTs : Nat
  recStatus : RecordStatus
  cceAddr : A

structure ScanSettings where
  indexType : ScanIndexType
  isForWrite : Bool
  isCoveringKeys : Bool
  isoLevel : IsolationLevel
  protocol : CcProtocol

def ScanSettings.deduceScanTupleLockType (s : ScanSettings) (recStatus : RecordStatus) : LockType :=
  if recStatus = .deleted ∧ s.isForWrite = false then .noLock
  else
    let ccOp := if s.indexType = .secondary then .readSkIndex
      else if s.isForWrite then .readForWrite else .read
    deduceLockType ccOp s.isoLevel s.protocol s.isCoveringKeys

/-- The tuples of a core from the last batch, and the next one. -/
structure ScanCache (T : Type u) where
  tuples : List T
  idx : Nat

namespace ScanCache

variable {T : Type u}

def scanBatchSize : Nat := 128

def status (c : ScanCache T) : ScannerStatus :=
  if c.idx < c.tuples.length then .open
  else if c.tuples.length = scanBatchSize then .blocked
  else .closed

def current (c : ScanCache T) : Option T := c.tuples[c.idx]?

def moveNext (c : ScanCache T) : ScanCache T := { c with idx := c.idx + 1 }

def lastTuple (c : ScanCache T) : Option T := c.tuples.getLast?

/-- The tuples that are not consumed. -/
def left (c : ScanCache T) : List T := c.tuples.drop c.idx

theorem left_current {c : ScanCache T} {t : T} (found : c.current = some t) :
    c.left = t :: c.moveNext.left := by
  obtain ⟨inside, rfl⟩ := List.getElem?_eq_some_iff.mp found
  exact List.drop_eq_getElem_cons inside

theorem left_nil {c : ScanCache T} (absent : c.current = none) : c.left = [] :=
  List.drop_eq_nil_of_le (List.getElem?_eq_none_iff.mp absent)

end ScanCache

/-- What the loop of `Current` over the caches finds. -/
inductive Pick
  | blocked (shard : Nat)
  | nothing
  | found (shard : Nat)

/-- `scans` is in the order in which the loop goes over the caches, and a shard is a
position there. -/
structure TemplateCcScanner (K : Type u) (V : Type v) (A : Type w) where
  settings : ScanSettings
  direct : ScanDirection
  status : ScannerStatus
  drainCacheMode : Bool
  scans : List (ScanCache (ScanTuple K V A))
  currShard : Nat
  currTuple : Option (ScanTuple K V A)

namespace TemplateCcScanner

variable {K : Type u} {V : Type v} {A : Type w}

/-- A shard that the loop finds is the one it had, or has a tuple. -/
def FoundIn (caches : List (ScanCache (ScanTuple K V A))) (shard : Nat) (minKey : Option (K × Nat)) :
    Pick → Prop
  | .blocked _ => False
  | .nothing => minKey = none ∧ ∀ c ∈ caches, c.current = none
  | .found n => (∃ min ∈ minKey, n = min.2) ∨
    ∃ i, n = shard + i ∧ ((caches[i]?).bind ScanCache.current).isSome

theorem FoundIn.cons {cache : ScanCache (ScanTuple K V A)} {caches : List (ScanCache (ScanTuple K V A))}
    {shard : Nat} {minKey minKey' : Option (K × Nat)} {p : Pick}
    (h : FoundIn caches (shard + 1) minKey' p)
    (next : minKey' = minKey ∧ (minKey = none → cache.current = none) ∨
      ∃ t, cache.current = some t ∧ minKey' = some (t.key, shard)) :
    FoundIn (cache :: caches) shard minKey p := by
  cases p with
  | blocked => exact h
  | nothing =>
    obtain ⟨absent, empty⟩ := h
    rcases next with ⟨same, used⟩ | ⟨t, -, value⟩
    · subst same
      refine ⟨absent, fun c mem => ?_⟩
      rcases List.mem_cons.mp mem with rfl | mem
      · exact used absent
      · exact empty c mem
    · cases absent.symm.trans value
  | found n =>
    rcases h with ⟨min, mem, rfl⟩ | ⟨i, rfl, value⟩
    · rcases next with ⟨rfl, -⟩ | ⟨t, found, rfl⟩
      · exact Or.inl ⟨min, mem, rfl⟩
      · cases mem
        exact Or.inr ⟨0, rfl, by simp [found]⟩
    · exact Or.inr ⟨i + 1, by omega, value⟩

variable [LinearOrder K]

/-- Of equal keys a backward scan takes the one that it finds last. -/
def comesFirst (direct : ScanDirection) (key minKey : K) : Bool :=
  match direct with
  | .forward => key < minKey
  | .backward => ¬ key < minKey

/-- `minKey` is the key that comes first so far, with its shard. A gap is taken at once. -/
def pick (direct : ScanDirection) (drainCacheMode : Bool) :
    List (ScanCache (ScanTuple K V A)) → Nat → Option (K × Nat) → Pick
  | [], _, none => .nothing
  | [], _, some (_, shard) => .found shard
  | cache :: caches, shard, minKey =>
    match cache.current with
    | some tuple =>
      if tuple.keyTs = 0 then .found shard
      else if minKey.all fun min => comesFirst direct tuple.key min.1 then
        pick direct drainCacheMode caches (shard + 1) (some (tuple.key, shard))
      else pick direct drainCacheMode caches (shard + 1) minKey
    | none =>
      if cache.status = .blocked ∧ drainCacheMode = false then .blocked shard
      else pick direct drainCacheMode caches (shard + 1) minKey

def current (s : TemplateCcScanner K V A) : Option (ScanTuple K V A) × TemplateCcScanner K V A :=
  match s.currTuple with
  | some tuple => (some tuple, s)
  | none =>
    if s.status = .closed then (none, s)
    else
      match pick s.direct s.drainCacheMode s.scans 0 none with
      | .blocked shard => (none, { s with status := .blocked, currShard := shard })
      | .nothing => (none, { s with status := .closed })
      | .found shard =>
        let tuple := (s.scans[shard]?).bind ScanCache.current
        (tuple, { s with status := .open, currShard := shard, currTuple := tuple })

/-- The cache of the current tuple moves on. -/
def advance (s : TemplateCcScanner K V A) : TemplateCcScanner K V A :=
  { s with scans := s.scans.modify s.currShard ScanCache.moveNext, currTuple := none }

def moveNext (s : TemplateCcScanner K V A) : TemplateCcScanner K V A :=
  match s.currTuple with
  | some _ => s.advance
  | none =>
    if s.status = .closed then s
    else
      match s.current with
      | (some _, s) => s.advance
      | (none, s) => s

def setDrainCacheMode (s : TemplateCcScanner K V A) : TemplateCcScanner K V A :=
  { s with drainCacheMode := true }

/-- The loop of `DrainScanner`. -/
def drainLoop : Nat → TemplateCcScanner K V A → List (ScanTuple K V A)
  | 0, _ => []
  | fuel + 1, s =>
    match s.current with
    | (none, _) => []
    | (some tuple, s) => tuple :: drainLoop fuel s.moveNext

def left (s : TemplateCcScanner K V A) : List (ScanTuple K V A) := s.scans.flatMap ScanCache.left

/-- The tuples that `DrainScanner` goes over; a scan that was blocked is moved on first. -/
def drained (s : TemplateCcScanner K V A) : List (ScanTuple K V A) :=
  let s := s.setDrainCacheMode
  match s.current with
  | (none, s) =>
    if s.status = .blocked then drainLoop s.left.length s.moveNext else []
  | (some _, s) => drainLoop s.left.length s

/-- The current tuple is of its cache, and a scan is closed when the caches are used up. -/
structure Consistent (s : TemplateCcScanner K V A) : Prop where
  tuple : ∀ t, s.currTuple = some t → (s.scans[s.currShard]?).bind ScanCache.current = some t
  closed : s.status = .closed → s.left = []

theorem pick_drain (direct : ScanDirection) (caches : List (ScanCache (ScanTuple K V A))) (shard : Nat)
    (minKey : Option (K × Nat)) :
    FoundIn caches shard minKey (pick direct true caches shard minKey) := by
  induction caches generalizing shard minKey with
  | nil =>
    cases minKey with
    | none => exact ⟨rfl, List.forall_mem_nil _⟩
    | some min => exact Or.inl ⟨min, rfl, rfl⟩
  | cons cache caches ih =>
    unfold pick
    cases found : cache.current with
    | none =>
      simp only [Bool.true_eq_false, and_false, if_false]
      exact (ih (shard + 1) minKey).cons (Or.inl ⟨rfl, fun _ => found⟩)
    | some tuple =>
      simp only
      split
      · exact Or.inr ⟨0, rfl, by simp [found]⟩
      · split
        · exact (ih (shard + 1) _).cons (Or.inr ⟨tuple, found, rfl⟩)
        · rename_i later
          refine (ih (shard + 1) minKey).cons (Or.inl ⟨rfl, fun absent => ?_⟩)
          subst absent
          exact absurd rfl later

theorem left_modify {T : Type u} {caches : List (ScanCache T)} {i : Nat} {t : T}
    (found : (caches[i]?).bind ScanCache.current = some t) :
    (caches.flatMap ScanCache.left).Perm
      (t :: (caches.modify i ScanCache.moveNext).flatMap ScanCache.left) := by
  induction caches generalizing i with
  | nil => cases found
  | cons c caches ih =>
    cases i with
    | zero =>
      simp only [List.flatMap_cons, List.modify_zero_cons]
      rw [ScanCache.left_current found]
      exact List.Perm.refl _
    | succ i =>
      simp only [List.flatMap_cons, List.modify_succ_cons]
      exact ((ih found).append_left c.left).trans List.perm_middle

theorem left_ne_nil {T : Type u} {caches : List (ScanCache T)} {i : Nat} {t : T}
    (found : (caches[i]?).bind ScanCache.current = some t) : caches.flatMap ScanCache.left ≠ [] := by
  intro empty
  have moved := left_modify found
  rw [empty] at moved
  exact List.not_perm_nil_cons _ _ moved

theorem Consistent.current_some {s s' : TemplateCcScanner K V A} (h : s.Consistent)
    (drain : s.drainCacheMode = true) {t : ScanTuple K V A} (found : s.current = (some t, s')) :
    s'.Consistent ∧ s'.scans = s.scans ∧ s'.drainCacheMode = true ∧ s'.status ≠ .closed ∧
      s'.currTuple = some t := by
  unfold current at found
  cases curr : s.currTuple with
  | some t' =>
    simp only [curr, Prod.mk.injEq, Option.some.injEq] at found
    obtain ⟨rfl, rfl⟩ := found
    exact ⟨h, rfl, drain, fun closed => left_ne_nil (h.tuple t' curr) (h.closed closed), curr⟩
  | none =>
    simp only [curr] at found
    split at found
    · cases found
    · split at found
      · cases found
      · cases found
      · rename_i shard _
        simp only [Prod.mk.injEq] at found
        obtain ⟨tuple, rfl⟩ := found
        refine ⟨⟨fun t' value => value, ScannerStatus.noConfusion⟩, rfl, drain, ScannerStatus.noConfusion, tuple⟩

theorem Consistent.current_none {s s' : TemplateCcScanner K V A} (h : s.Consistent)
    (drain : s.drainCacheMode = true) (found : s.current = (none, s')) :
    s'.status = .closed ∧ s.left = [] := by
  unfold current at found
  cases curr : s.currTuple with
  | some t => simp [curr] at found
  | none =>
    simp only [curr] at found
    split at found
    · rename_i closed
      cases found
      exact ⟨closed, h.closed closed⟩
    · have picked := pick_drain s.direct s.scans 0 none
      rw [drain] at found
      split at found
      · rename_i blocked
        rw [blocked] at picked
        exact picked.elim
      · rename_i nothing
        rw [nothing] at picked
        cases found
        refine ⟨rfl, List.flatMap_eq_nil_iff.mpr fun c mem => ScanCache.left_nil (picked.2 c mem)⟩
      · rename_i shard at_shard
        rw [at_shard] at picked
        rcases picked with ⟨min, mem, -⟩ | ⟨i, rfl, value⟩
        · cases mem
        · rw [← Nat.zero_add i, (Prod.mk.inj found).1] at value
          cases value

theorem drainLoop_perm {s : TemplateCcScanner K V A} (h : s.Consistent) (drain : s.drainCacheMode = true)
    {n : Nat} (enough : s.left.length = n) : (drainLoop n s).Perm s.left := by
  induction n generalizing s with
  | zero =>
    rw [List.length_eq_zero_iff.mp enough]
    exact List.Perm.refl _
  | succ n ih =>
    unfold drainLoop
    cases found : s.current with
    | mk tuple s' =>
      cases tuple with
      | none =>
        rw [(h.current_none drain found).2] at enough
        cases enough
      | some t =>
        obtain ⟨sound, same, mode, active, curr⟩ := h.current_some drain found
        have moved : s.left.Perm (t :: s'.advance.left) := by
          unfold left
          rw [← same]
          exact left_modify (sound.tuple t curr)
        have next : s'.moveNext = s'.advance := by simp [moveNext, curr]
        simp only [next]
        have advanced : s'.advance.Consistent := by
          refine ⟨fun _ value => ?_, fun closed => absurd closed active⟩
          cases value
        have fewer : s'.advance.left.length = n := Nat.succ.inj (moved.length_eq.symm.trans enough)
        exact ((ih advanced mode fewer).cons t).trans moved.symm

theorem drained_perm {s : TemplateCcScanner K V A} (h : s.Consistent) : s.drained.Perm s.left := by
  have drain : s.setDrainCacheMode.Consistent := ⟨h.tuple, h.closed⟩
  unfold drained
  simp only
  cases found : s.setDrainCacheMode.current with
  | mk tuple s' =>
    cases tuple with
    | none =>
      obtain ⟨closed, empty⟩ := drain.current_none rfl found
      simp only [closed, reduceCtorEq, if_false]
      exact List.Perm.of_eq empty.symm
    | some t =>
      obtain ⟨sound, same, mode, -⟩ := drain.current_some rfl found
      have left : s'.left = s.left := congrArg (List.flatMap ScanCache.left) same
      exact left ▸ drainLoop_perm sound mode rfl

end TemplateCcScanner

section
variable {K : Type u} [LinearOrder K]

/-- The first key comes before the second one in the direction of the scan. -/
def ScanDirection.Before (direct : ScanDirection) (a b : K) : Prop :=
  match direct with
  | .forward => a < b
  | .backward => b < a

instance (direct : ScanDirection) (a b : K) : Decidable (direct.Before a b) := by
  cases direct <;> exact inferInstanceAs (Decidable (_ < _))

namespace ScanDirection

variable {direct : ScanDirection} {a b c : K}

theorem before_irrefl : ¬ direct.Before a a := by
  cases direct <;> exact lt_irrefl a

theorem Before.trans (h : direct.Before a b) (h' : direct.Before b c) : direct.Before a c := by
  cases direct
  · exact lt_trans h h'
  · exact lt_trans h' h

theorem before_of_ne (direct : ScanDirection) (h : a ≠ b) : direct.Before a b ∨ direct.Before b a := by
  cases direct
  · exact lt_or_gt_of_ne h
  · exact (lt_or_gt_of_ne h).symm

/-- What is not after a key that comes before another one comes before it, too. -/
theorem Before.of_not_before (h : direct.Before b c) (h' : ¬ direct.Before b a) : direct.Before a c := by
  by_cases same : a = b
  · exact same ▸ h
  · exact ((before_of_ne direct same).resolve_right h').trans h

end ScanDirection

end

end TxService
