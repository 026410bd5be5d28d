import TxService.WriteForwards

/-!
# Every write reaches its owners once

The operations of `WriteForwards` over all tables of a write set, lock by lock.
-/

namespace TxService.WriteForwards

open Transition

universe u v

variable {Name : Type u} {K : Type v} [LinearOrder K]

/-- An operation under way: what the iterators have passed is served and counted, what lies before
them is as the write set has it. -/
structure Going (w : WriteSet Name K) (served : Name → K → WriteSetEntry → Prop)
    (op : LockWriteOp Name K) : Prop where
  keys : keysOf op.done ++ keysOf (match op.rest with
    | [] => []
    | (name, keys) :: tables => (name, op.before ++ keys) :: tables) = keysOf w.tables
  done : ∀ t ∈ op.done, ∀ x ∈ t.2, served t.1 x.1 x.2
  before : ∀ t ∈ op.rest.head?, ∀ x ∈ op.before, served t.1 x.1 x.2
  atStart : op.rest = [] → op.before = []
  nonempty : ∀ t ∈ op.rest, t.2 ≠ []
  ascending : ∀ t ∈ op.rest, t.2.Pairwise fun a b => a.1 < b.1
  passed : ∀ t ∈ op.rest.head?, ∀ x ∈ op.before, ∀ y ∈ t.2, x.1 < y.1
  fresh : ∀ t ∈ op.rest, ∀ x ∈ t.2, x.2.forwardAddr = [] ∧ x.2.visits = 0
  count : op.forwardWriteCnt = (op.done.map fun t => forwardCnt t.2).sum + forwardCnt op.before

theorem going_init (w : WriteSet Name K) (served : Name → K → WriteSetEntry → Prop) :
    Going w served (.init w) where
  keys := by
    rw [LockWriteOp.init]
    cases w.tables with
    | nil => rfl
    | cons t tables => rfl
  done := nofun
  before := nofun
  atStart := fun _ => rfl
  nonempty := w.nonempty
  ascending := w.ascending
  passed := nofun
  fresh := w.fresh
  count := rfl

variable {w : WriteSet Name K} {served : Name → K → WriteSetEntry → Prop} {op : LockWriteOp Name K}

theorem Going.finished (going : Going w served op) (ended : op.rest = []) :
    Finished w served op where
  keys := by simpa [ended, keysOf] using going.keys
  served := going.done
  count := by simpa [going.atStart ended, forwardCnt] using going.count

/-- Both `Advance` go on from a table in this way: some keys of it are served and counted, the
iterators move past them. -/
theorem Going.moveTo {name : Name} (taken : TableWriteSet K) {visited keys : TableWriteSet K}
    {tables : List (Name × TableWriteSet K)} {cnt : Nat} (going : Going w served op)
    (rest : op.rest = (name, taken ++ keys) :: tables)
    (same : visited.map Prod.fst = taken.map Prod.fst) (all : ∀ x ∈ visited, served name x.1 x.2)
    (count : cnt = op.forwardWriteCnt + forwardCnt visited) :
    Going w served (op.moveTo name visited keys tables cnt) := by
  have layout := going.keys
  have before := going.before (name, taken ++ keys) (by simp [rest])
  have passed := going.passed (name, taken ++ keys) (by simp [rest])
  have ascending := going.ascending (name, taken ++ keys) (by simp [rest])
  have fresh := going.fresh (name, taken ++ keys) (by simp [rest])
  have counted := going.count
  have later : ∀ t ∈ tables, t ∈ op.rest := fun t member => by simp [rest, member]
  have servedAll : ∀ x ∈ op.before ++ visited, served name x.1 x.2 := by
    intro x member
    rcases List.mem_append.mp member with old | new
    · exact before x old
    · exact all x new
  have cnts : forwardCnt (op.before ++ visited) = forwardCnt op.before + forwardCnt visited := by
    simp [forwardCnt]
  rw [rest] at layout
  cases keys with
  | nil =>
    rw [LockWriteOp.moveTo]
    exact {
      keys := by
        rw [← layout]
        cases tables <;> simp [keysOf, same]
      done := fun t member => by
        rcases List.mem_append.mp member with old | new
        · exact going.done t old
        · rw [List.mem_singleton.mp new]
          exact servedAll
      before := by rintro _ _ _ ⟨⟩
      atStart := fun _ => rfl
      nonempty := fun t member => going.nonempty t (later t member)
      ascending := fun t member => going.ascending t (later t member)
      passed := by rintro _ _ _ ⟨⟩
      fresh := fun t member => going.fresh t (later t member)
      count := by
        simp only [List.map_append, List.map_cons, List.map_nil, List.sum_append, List.sum_cons,
          List.sum_nil, count, counted, forwardCnt]
        omega }
  | cons key keys =>
    rw [LockWriteOp.moveTo]
    have split := List.pairwise_append.mp ascending
    have keysTaken : ∀ x ∈ visited, ∃ y ∈ taken, y.1 = x.1 := by
      intro x member
      have : x.1 ∈ taken.map Prod.fst := same ▸ List.mem_map_of_mem member
      simpa using this
    exact {
      keys := by
        rw [← layout]
        simp [keysOf, same]
      done := going.done
      before := by
        rintro t ⟨⟩
        exact servedAll
      atStart := by rintro ⟨⟩
      nonempty := fun t member => by
        rcases List.mem_cons.mp member with rfl | member
        · exact List.cons_ne_nil key keys
        · exact going.nonempty t (later t member)
      ascending := fun t member => by
        rcases List.mem_cons.mp member with rfl | member
        · exact split.2.1
        · exact going.ascending t (later t member)
      passed := by
        rintro t ⟨⟩ x member y follows
        rcases List.mem_append.mp member with old | new
        · exact passed x old y (List.mem_append_right _ follows)
        · obtain ⟨z, member, key⟩ := keysTaken x new
          exact key ▸ split.2.2 z member y follows
      fresh := fun t member => by
        rcases List.mem_cons.mp member with rfl | member
        · exact fun x member => fresh x (List.mem_append_right _ member)
        · exact going.fresh t (later t member)
      count := by
        dsimp only
        omega }

/-- The keys that are still to be visited. -/
def LockWriteOp.remaining (op : LockWriteOp Name K) : Nat := (op.rest.map fun t => t.2.length).sum

omit [LinearOrder K] in
theorem remaining_moveTo {name : Name} (taken : TableWriteSet K) {keys : TableWriteSet K}
    (visited : TableWriteSet K) {tables : List (Name × TableWriteSet K)} (cnt : Nat)
    (rest : op.rest = (name, taken ++ keys) :: tables) (nonempty : taken ≠ []) :
    (op.moveTo name visited keys tables cnt).remaining < op.remaining := by
  have := List.length_pos_iff.mpr nonempty
  cases keys <;> simp [LockWriteOp.moveTo, LockWriteOp.remaining, rest] <;> omega

section
variable {w : WriteSet Name K} {op : LockWriteOp Name K} {hash : K → Nat}
  {ranges : Name → RangePartition K} {buckets : HashBuckets} {name : Name} {key : K}
  {e : WriteSetEntry} {keys : TableWriteSet K} {tables : List (Name × TableWriteSet K)}

/-- What one `Advance` gives: it goes on and there are fewer keys to visit. -/
def Advances (w : WriteSet Name K) (served : Name → K → WriteSetEntry → Prop) (op : LockWriteOp Name K)
    (next : Option (LockWriteOp Name K)) : Prop :=
  ∃ op', next = some op' ∧ Going w served op' ∧ op'.remaining < op.remaining

theorem Going.advanceBucket (going : Going w (fun _ => BucketServed hash buckets) op)
    (rest : op.rest = (name, (key, e) :: keys) :: tables) :
    Advances w (fun _ => BucketServed hash buckets) op (op.advanceBucket hash buckets) := by
  have placed := buckets.placed (buckets.mapKeyHashToBucketId (hash key))
  have fresh : e.forwardAddr = [] ∧ e.visits = 0 :=
    going.fresh _ (by rw [rest]; exact List.mem_cons_self) (key, e) (by simp)
  have start : Sends (hash key) e.forwardAddr fun _ => False := fresh.1 ▸ .nil _
  simp only [LockWriteOp.advanceBucket, rest, Advances, Option.some.injEq, exists_eq_left']
  generalize bucket : buckets.getBucketInfo (buckets.mapKeyHashToBucketId (hash key)) = b at placed ⊢
  have sends := start.tryEmplace_if (c := b.dirtyBucketOwner ≠ noOwner) placed.dirty
  refine ⟨going.moveTo [(key, e)] rest rfl (fun x member => ?_) ?_,
    remaining_moveTo [(key, e)] _ _ rest (List.cons_ne_nil _ _)⟩
  · rw [List.mem_singleton.mp member, BucketServed, bucket]
    exact {
      visited := by simp [fresh.2]
      code := rfl
      owner := shardCode_shiftRight placed.1 _
      forwards := sends.congr fun g => by grind }
  · simp only [forwardCnt, fresh.1]
    split <;> simp [tryEmplace]

/-- The keys up to the next range are those at the front of the list that lie in the range. -/
theorem Going.ofRange (going : Going w (RangeServed hash ranges) op)
    (rest : op.rest = (name, (key, e) :: keys) :: tables) {r : RangeRecord K}
    (contains : r.Contains key) {n : Nat}
    (next : LockWriteOp.nextRangeStart r (op.before ++ (key, e) :: keys) - op.before.length = n) :
    n ≠ 0 ∧ ∀ x ∈ ((key, e) :: keys).take n, r.Contains x.1 := by
  have ascending := going.ascending _ (by rw [rest]; exact List.mem_cons_self)
  have started : ∀ x ∈ (key, e) :: keys, ∀ start ∈ r.startKey, start ≤ x.1 := by
    intro x member start here
    rcases List.mem_cons.mp member with rfl | later
    · exact contains.1 start here
    · exact (contains.1 start here).trans ((List.pairwise_cons.mp ascending).1 x later).le
  rw [LockWriteOp.nextRangeStart] at next
  cases ending : r.endKey with
  | none =>
    simp only [ending, List.length_append, List.length_cons] at next
    refine ⟨by omega, fun x member => ⟨started x (List.mem_of_mem_take member), ?_⟩⟩
    rw [ending]
    nofun
  | some last =>
    have above : key < last := contains.2 last ending
    have passed : ∀ x ∈ op.before, x.1 < last := fun x member =>
      (going.passed _ (by rw [rest]; rfl) x member (key, e) (by simp)).trans above
    have front : n = (((key, e) :: keys).takeWhile fun x => x.1 < last).length := by
      simp only [ending, LockWriteOp.lowerBound] at next
      rw [List.takeWhile_append_of_pos (by simpa using passed), List.length_append] at next
      omega
    have first : n ≠ 0 := by simp [front, above]
    have taken : ((key, e) :: keys).take n = ((key, e) :: keys).takeWhile fun x => x.1 < last := by
      rw [front]
      exact (List.prefix_iff_eq_take.mp (List.takeWhile_prefix _)).symm
    refine ⟨first, fun x member => ⟨started x (List.mem_of_mem_take member), ?_⟩⟩
    rw [taken] at member
    rw [ending]
    rintro _ ⟨⟩
    simpa using List.mem_takeWhile_imp member

theorem Going.advanceRange (going : Going w (RangeServed hash ranges) op)
    (rest : op.rest = (name, (key, e) :: keys) :: tables) :
    Advances w (RangeServed hash ranges) op (op.advanceRange hash ranges) := by
  have contains := (ranges name).contains key
  have unique := (ranges name).unique key
  have ascending := going.ascending _ (by rw [rest]; exact List.mem_cons_self)
  have fresh := going.fresh _ (by rw [rest]; exact List.mem_cons_self)
  simp only [LockWriteOp.advanceRange, rest, if_pos contains, Advances, Option.some.injEq,
    exists_eq_left']
  generalize (ranges name).rangeOf key = r at contains unique ⊢
  generalize count : LockWriteOp.nextRangeStart r (op.before ++ (key, e) :: keys) - op.before.length = n
  obtain ⟨positive, ofRange⟩ := going.ofRange rest contains count
  have cut : (key, e) :: keys = ((key, e) :: keys).take n ++ ((key, e) :: keys).drop n :=
    (List.take_append_drop n _).symm
  have rest' := rest.trans (by rw [cut])
  have here : Cursor.At r [] ⟨r.newRanges, noOwner, noOwner⟩ := ⟨rfl, rfl, rfl⟩
  obtain ⟨same, served, counted⟩ := r.visitKeys_spec hash (((key, e) :: keys).take n)
    op.forwardWriteCnt here nofun (ascending.sublist (List.take_sublist _ _))
    fun x member => fresh x (List.mem_of_mem_take member)
  refine ⟨going.moveTo _ rest' same (fun x member => ?_) counted,
    remaining_moveTo _ _ _ rest' (by cases n <;> simp at positive ⊢)⟩
  have key : x.1 ∈ (((key, e) :: keys).take n).map Prod.fst := same ▸ List.mem_map_of_mem member
  obtain ⟨y, taken, key⟩ := List.mem_map.mp key
  have range : (ranges name).rangeOf x.1 = r := unique x.1 (key ▸ ofRange y taken)
  rw [RangeServed, range]
  exact served x member

end

theorem Going.front (going : Going w served op) (more : op.rest ≠ []) :
    ∃ name key e keys tables, op.rest = (name, (key, e) :: keys) :: tables := by
  cases rest : op.rest with
  | nil => exact absurd rest more
  | cons t tables =>
    obtain ⟨name, keys⟩ := t
    cases keys with
    | nil => exact absurd rfl (going.nonempty (name, []) (by simp [rest]))
    | cons x keys => exact ⟨name, x.1, x.2, keys, tables, rfl⟩

/-- An operation that advances with each lock it is granted goes through all tables. -/
theorem completes_of_advances
    {step : LockWriteOp Name K → LockWriteOp.Lock → Option (LockWriteOp Name K)}
    (advances : ∀ op, Going w served op → op.rest ≠ [] → Advances w served op (step op .granted))
    (ends : ∀ op, op.rest = [] → step op .granted = none)
    (others : ∀ op lock op', step op lock = some op' → op' = op ∨ step op .granted = some op') :
    Completes w served step := by
  have keeps : ∀ op lock op', Going w served op → step op lock = some op' → Going w served op' := by
    intro op lock op' going taken
    rcases others op lock op' taken with rfl | granted
    · exact going
    · by_cases ended : op.rest = []
      · rw [ends op ended] at granted
        cases granted
      · obtain ⟨next, same, going, -⟩ := advances op going ended
        cases same.symm.trans granted
        exact going
  intro locks op run
  have going : Going w served op := run.history (P := fun _ op => Going w served op)
    (going_init w served) fun _ op lock op' taken going => keeps op lock op' going taken
  refine ⟨going.finished, ?_⟩
  clear run
  induction size : op.remaining using Nat.strong_induction_on generalizing op with
  | _ n ih =>
    by_cases ended : op.rest = []
    · exact ⟨[], op, .nil op, ended⟩
    · obtain ⟨next, taken, going, fewer⟩ := advances op going ended
      obtain ⟨later, op', run, ended⟩ := ih next.remaining (size ▸ fewer) next going rfl
      exact ⟨.granted :: later, op', .cons taken run, ended⟩

/-- Writes during splits and migrations go to the owner and to every future owner once. -/
theorem writes_forwarded_once (w : WriteSet Name K) (hash : K → Nat)
    (ranges : Name → RangePartition K) (buckets : HashBuckets) :
    Completes w (RangeServed hash ranges) (LockWriteOp.rangeStep hash ranges) ∧
      Completes w (fun _ => BucketServed hash buckets) (LockWriteOp.bucketStep hash buckets) := by
  constructor
  · refine completes_of_advances (fun op going more => ?_) (fun op ended => ?_)
      fun op lock op' taken => ?_
    · obtain ⟨name, key, e, keys, tables, rest⟩ := going.front more
      exact going.advanceRange rest
    · simp [LockWriteOp.rangeStep, LockWriteOp.advanceRange, ended]
    · cases lock with
      | cached => cases taken
      | granted => exact .inr taken
      | refused => exact .inl (Option.some.inj taken).symm
  · refine completes_of_advances (fun op going more => ?_) (fun op ended => ?_)
      fun op lock op' taken => ?_
    · obtain ⟨name, key, e, keys, tables, rest⟩ := going.front more
      exact going.advanceBucket rest
    · simp [LockWriteOp.bucketStep, LockWriteOp.advanceBucket, ended]
    · cases lock with
      | cached => exact .inr taken
      | granted => exact .inr taken
      | refused => exact .inl (Option.some.inj taken).symm

/-- Two tables with two keys and one. -/
def twoTables : WriteSet Bool Nat where
  tables := [(false, [(3, ⟨0, [], 0⟩), (12, ⟨0, [], 0⟩)]), (true, [(7, ⟨0, [], 0⟩)])]
  nonempty := by simp
  ascending := by simp
  fresh := by decide

/-- A range whose bucket migrates from node group 1 to 2 while it is split at 5 and at 10; the new
ranges are in a bucket of 3 and in one that migrates from 2 to 1. -/
def splittingRange : RangeRecord Nat where
  startKey := none
  endKey := none
  isDirty := true
  newKey := [5, 10]
  rangeOwnerNg := ⟨1, 1, 2, 2⟩
  newRangeOwnerNgs := [⟨3, 1, noOwner, 0⟩, ⟨2, 1, 1, 2⟩]
  ascending := by decide
  owners := rfl
  placed := by decide
  newPlaced := by decide

def splittingPartition : RangePartition Nat where
  rangeOf := fun _ => splittingRange
  contains := fun _ => ⟨nofun, nofun⟩
  unique := fun _ _ _ => rfl

/-- The bucket of even hashes migrates. -/
def migratingBuckets : HashBuckets where
  mapKeyHashToBucketId := (· % 2)
  getBucketInfo := fun id => if id = 0 then ⟨1, 1, 2, 2⟩ else ⟨3, 1, noOwner, 0⟩
  placed := by
    intro id
    split
    · decide
    · decide

/-- With ranges, every key is also written to node group 2 and key 7 to 3; with buckets, key 12 is
also written to 2. -/
theorem writes_forwarded_once_splitting :
    (∃ op, Run (fun op lock op' => LockWriteOp.rangeStep id (fun _ => splittingPartition) op lock =
          some op') (.init twoTables) [.granted, .refused, .granted] op ∧ op.rest = [] ∧
        Finished twoTables (RangeServed id fun _ => splittingPartition) op ∧
        op.forwardWriteCnt = 4) ∧
      ∃ op, Run (fun op lock op' => LockWriteOp.bucketStep id migratingBuckets op lock = some op')
          (.init twoTables) [.granted, .cached, .refused, .granted] op ∧ op.rest = [] ∧
        Finished twoTables (fun _ => BucketServed id migratingBuckets) op ∧
        op.forwardWriteCnt = 1 := by
  obtain ⟨ranges, buckets⟩ :=
    writes_forwarded_once twoTables id (fun _ => splittingPartition) migratingBuckets
  constructor
  · have run : Run (fun op lock op' => LockWriteOp.rangeStep id (fun _ => splittingPartition) op lock =
        some op') (.init twoTables) [.granted, .refused, .granted] _ :=
      .of_foldlM _ (fun _ _ _ taken => taken) rfl
    exact ⟨_, run, rfl, (ranges _ _ run).1 rfl, rfl⟩
  · have run : Run (fun op lock op' => LockWriteOp.bucketStep id migratingBuckets op lock = some op')
        (.init twoTables) [.granted, .cached, .refused, .granted] _ :=
      .of_foldlM _ (fun _ _ _ taken => taken) rfl
    exact ⟨_, run, rfl, (buckets _ _ run).1 rfl, rfl⟩

end TxService.WriteForwards
