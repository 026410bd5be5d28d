import Mathlib.Data.List.Induction
import Mathlib.Data.List.Nodup
import TxService.RangeOwnership

/-!
# Cleaning the data a range split moves away

`ForwardKickoutIterator` goes over the new ranges twice: first for the node group of the coordinator,
then for the dirty owner of the old range's bucket.
-/

namespace TxService.SplitKickout

universe u

variable {K : Type u} [LinearOrder K]

/-- What `kickout_old_range_data_op_` asks for. -/
structure KickoutData (K : Type u) where
  nodeGroup : NodeGroupId
  startKey : K
  endKey : K
  deriving DecidableEq

/-- What the operation does not change while it cleans: `TxCcNodeId()`, the buckets, the old
range, its end key and the new ranges. -/
structure SplitRange (K : Type u) [LinearOrder K] where
  txCcNodeId : NodeGroupId
  buckets : Buckets
  partitionId : Int
  oldEndKey : K
  newRangeInfo : NewRanges K

/-- `kickout_data_it_`, as the ranges from it on, and `cleaning_old_range_dirty_owner_`. -/
structure KickoutIterator (K : Type u) where
  kickoutDataIt : List (K × Int)
  cleaningOldRangeDirtyOwner : Bool

/-- `op_`, from the success of `ds_upsert_range_op_` on. -/
inductive SplitOp (K : Type u) where
  | kickoutOldRangeData (kickout : KickoutData K) (it : KickoutIterator K)
  | postAllLock
  | forcedToFinish
  | assertionFailed

/-- The result of the kickout that is running. -/
inductive KickoutResult where
  | success
  | error (leader : Bool)
  deriving DecidableEq

/-- The stage of the operation, with the requests that have succeeded. -/
structure SplitRun (K : Type u) where
  op : SplitOp K
  kickedOut : List (KickoutData K)

namespace SplitRange

variable (r : SplitRange K)

/-- The start key of the next range, or the end of the old range after the last one. -/
def endKey : List (K × Int) → K
  | [] => r.oldEndKey
  | (start, _) :: _ => start

/-- The node group keeps the data of the new range. -/
def Keeps (g : NodeGroupId) (rangeId : Int) : Prop := (r.buckets.ofRange rangeId).OwnedBy g

instance (g : NodeGroupId) (rangeId : Int) : Decidable (r.Keeps g rangeId) :=
  inferInstanceAs (Decidable (BucketInfo.OwnedBy _ _))

/-- The loop over the ranges from the iterator on: the first one whose data the node group does
not keep, and the iterator after it. -/
def nextKickout (g : NodeGroupId) : List (K × Int) → Option (KickoutData K × List (K × Int))
  | [] => none
  | (start, rangeId) :: rest =>
    if (r.buckets.ofRange rangeId).bucketOwner ≠ g ∧
        (r.buckets.ofRange rangeId).dirtyBucketOwner ≠ g then
      some (⟨g, start, r.endKey rest⟩, rest)
    else nextKickout g rest

def oldRangeDirtyOwner : NodeGroupId := (r.buckets.ofRange r.partitionId).dirtyBucketOwner

/-- The second pass: `none` without a dirty owner or at the end of the ranges. -/
def cleanDirtyOwner (it : List (K × Int)) : Option (KickoutData K × KickoutIterator K) :=
  if r.oldRangeDirtyOwner = noOwner then none
  else (r.nextKickout r.oldRangeDirtyOwner it).map fun (kickout, it) => (kickout, ⟨it, true⟩)

/-- The assertion of the second pass fails: the bucket migrates to the coordinator's own group. -/
def MigratesToItself : Prop :=
  r.oldRangeDirtyOwner = r.txCcNodeId ∧ r.oldRangeDirtyOwner ≠ noOwner

instance : Decidable r.MigratesToItself := inferInstanceAs (Decidable (_ ∧ _))

/-- `ForwardKickoutIterator` returns true (`none`), or false with the request it has prepared.
The outer option is the assertion of the second pass. -/
def forwardKickoutIterator (s : KickoutIterator K) :
    Option (Option (KickoutData K × KickoutIterator K)) :=
  let dirtyPass (it : List (K × Int)) :=
    if r.MigratesToItself then none else some (r.cleanDirtyOwner it)
  if s.cleaningOldRangeDirtyOwner then dirtyPass s.kickoutDataIt
  else
    match r.nextKickout r.txCcNodeId s.kickoutDataIt with
    | some (kickout, it) => some (some (kickout, ⟨it, false⟩))
    | none => dirtyPass r.newRangeInfo.ranges

/-- The operation after `ForwardKickoutIterator`. -/
def forwardOp (s : KickoutIterator K) : SplitOp K :=
  match r.forwardKickoutIterator s with
  | none => .assertionFailed
  | some none => .postAllLock
  | some (some (kickout, it)) => .kickoutOldRangeData kickout it

/-- The data store knows the new ranges; cleaning starts at the first of them. -/
def start : SplitRun K := ⟨r.forwardOp ⟨r.newRangeInfo.ranges, false⟩, []⟩

/-- A failed kickout is retried as it is while the node is leader. -/
def forward (s : SplitRun K) (result : KickoutResult) : SplitRun K :=
  match s.op, result with
  | .kickoutOldRangeData kickout it, .success => ⟨r.forwardOp it, s.kickedOut ++ [kickout]⟩
  | .kickoutOldRangeData _ _, .error true => s
  | .kickoutOldRangeData _ _, .error false => { s with op := .forcedToFinish }
  | _, _ => s

def run (results : List KickoutResult) : SplitRun K := results.foldl r.forward r.start

variable {r}

/-- The requests of one pass, from the iterator on. -/
def toClean (r : SplitRange K) (g : NodeGroupId) : List (K × Int) → List (KickoutData K)
  | [] => []
  | (start, rangeId) :: rest =>
    if r.Keeps g rangeId then r.toClean g rest
    else ⟨g, start, r.endKey rest⟩ :: r.toClean g rest

def toCleanDirtyOwner (r : SplitRange K) (it : List (K × Int)) : List (KickoutData K) :=
  if r.oldRangeDirtyOwner = noOwner then [] else r.toClean r.oldRangeDirtyOwner it

/-- The requests of both passes, from the iterator on. -/
def remaining (r : SplitRange K) (s : KickoutIterator K) : List (KickoutData K) :=
  if s.cleaningOldRangeDirtyOwner then r.toCleanDirtyOwner s.kickoutDataIt
  else r.toClean r.txCcNodeId s.kickoutDataIt ++ r.toCleanDirtyOwner r.newRangeInfo.ranges

/-- All requests, in the order of the two passes. -/
def moved (r : SplitRange K) : List (KickoutData K) := r.remaining ⟨r.newRangeInfo.ranges, false⟩

theorem toClean_eq (g : NodeGroupId) (it : List (K × Int)) :
    r.toClean g it = (r.nextKickout g it).elim [] fun next => next.1 :: r.toClean g next.2 := by
  induction it with
  | nil => rfl
  | cons x rest ih =>
    obtain ⟨start, rangeId⟩ := x
    have leaves : ((r.buckets.ofRange rangeId).bucketOwner ≠ g ∧
        (r.buckets.ofRange rangeId).dirtyBucketOwner ≠ g) ↔ ¬ r.Keeps g rangeId := not_or.symm
    by_cases keeps : r.Keeps g rangeId
    · simp only [toClean, nextKickout, leaves, keeps, if_true, not_true_eq_false, if_false, ih]
    · simp only [toClean, nextKickout, leaves, keeps, if_false, not_false_eq_true, if_true,
        Option.elim_some]

theorem toCleanDirtyOwner_eq (it : List (K × Int)) :
    r.toCleanDirtyOwner it =
      (r.cleanDirtyOwner it).elim [] fun next => next.1 :: r.remaining next.2 := by
  unfold toCleanDirtyOwner cleanDirtyOwner
  split
  · rfl
  case isFalse dirty =>
    rw [toClean_eq]
    cases r.nextKickout r.oldRangeDirtyOwner it with
    | none => rfl
    | some next => simp [remaining, toCleanDirtyOwner, dirty]

/-- One call takes the next request off what is left, and returns true when nothing is. -/
theorem remaining_eq {s : KickoutIterator K} {result : Option (KickoutData K × KickoutIterator K)}
    (h : r.forwardKickoutIterator s = some result) :
    r.remaining s = result.elim [] fun next => next.1 :: r.remaining next.2 := by
  have dirtyPass {it : List (K × Int)}
      (h : (if r.MigratesToItself then none else some (r.cleanDirtyOwner it)) = some result) :
      r.toCleanDirtyOwner it = result.elim [] fun next => next.1 :: r.remaining next.2 := by
    obtain ⟨-, eq⟩ := Option.ite_none_left_eq_some.mp h
    rw [← Option.some.inj eq, toCleanDirtyOwner_eq]
  unfold forwardKickoutIterator at h
  rw [remaining]
  by_cases second : s.cleaningOldRangeDirtyOwner = true
  · rw [if_pos second] at h ⊢
    exact dirtyPass h
  · rw [if_neg second] at h ⊢
    rw [toClean_eq]
    cases next : r.nextKickout r.txCcNodeId s.kickoutDataIt with
    | none =>
      rw [next] at h
      simpa using dirtyPass h
    | some next' =>
      rw [next] at h
      cases h
      simp [remaining]

theorem forwardKickoutIterator_ne_none (different : ¬ r.MigratesToItself)
    (s : KickoutIterator K) : r.forwardKickoutIterator s ≠ none := by
  unfold forwardKickoutIterator
  by_cases second : s.cleaningOldRangeDirtyOwner = true
  · simp [second, different]
  · cases r.nextKickout r.txCcNodeId s.kickoutDataIt <;> simp [second, different]

theorem forwardKickoutIterator_done {s : KickoutIterator K}
    (h : r.forwardKickoutIterator s = some none) : ¬ r.MigratesToItself := by
  intro itself
  unfold forwardKickoutIterator at h
  by_cases second : s.cleaningOldRangeDirtyOwner = true
  · simp [second, itself] at h
  · cases next : r.nextKickout r.txCcNodeId s.kickoutDataIt <;> simp [second, itself, next] at h

/-- What the operation still has to do, if it goes on. -/
def Ahead (r : SplitRange K) (left : List (KickoutData K)) : SplitOp K → Prop
  | .kickoutOldRangeData kickout it => left = kickout :: r.remaining it
  | .postAllLock => left = [] ∧ ¬ r.MigratesToItself
  | .forcedToFinish | .assertionFailed => True

/-- The requests that succeeded are the first ones, and the one that is running is the next. -/
def OnTrack (r : SplitRange K) (s : SplitRun K) : Prop :=
  ∃ left, s.kickedOut ++ left = r.moved ∧ r.Ahead left s.op

theorem forwardOp_ahead (s : KickoutIterator K) : r.Ahead (r.remaining s) (r.forwardOp s) := by
  unfold forwardOp
  split
  case h_1 => trivial
  case h_2 done => exact ⟨remaining_eq done, forwardKickoutIterator_done done⟩
  case h_3 next => exact remaining_eq next

theorem OnTrack.forward {s : SplitRun K} (h : r.OnTrack s) (result : KickoutResult) :
    r.OnTrack (r.forward s result) := by
  obtain ⟨left, split, ahead⟩ := h
  obtain ⟨op, kickedOut⟩ := s
  cases op with
  | kickoutOldRangeData kickout it =>
    cases result with
    | success =>
      refine ⟨r.remaining it, ?_, forwardOp_ahead it⟩
      rw [← split, ahead]
      simp [SplitRange.forward]
    | error leader =>
      cases leader with
      | true => exact ⟨left, split, ahead⟩
      | false => exact ⟨left, split, trivial⟩
  | postAllLock => exact ⟨left, split, ahead⟩
  | forcedToFinish => exact ⟨left, split, trivial⟩
  | assertionFailed => exact ⟨left, split, trivial⟩

theorem onTrack_run (r : SplitRange K) (results : List KickoutResult) : r.OnTrack (r.run results) := by
  induction results using List.reverseRecOn with
  | nil => exact ⟨r.moved, rfl, forwardOp_ahead _⟩
  | append_singleton results result ih =>
    rw [run, List.foldl_append]
    exact ih.forward result

variable {results : List KickoutResult} {k : KickoutData K}

theorem kickedOut_eq_moved (done : (r.run results).op = .postAllLock) :
    (r.run results).kickedOut = r.moved ∧ ¬ r.MigratesToItself := by
  obtain ⟨left, split, ahead⟩ := onTrack_run r results
  rw [done] at ahead
  exact ⟨by rw [← split, ahead.1, List.append_nil], ahead.2⟩

theorem run_advances (different : ¬ r.MigratesToItself)
    (leader : KickoutResult.error false ∉ results) :
    (r.run results).op = .postAllLock ∨
      (∃ kickout it, (r.run results).op = .kickoutOldRangeData kickout it) ∧
        (r.run results).kickedOut.length = results.count .success := by
  have forwarded (s : KickoutIterator K) : r.forwardOp s = .postAllLock ∨
      ∃ kickout it, r.forwardOp s = .kickoutOldRangeData kickout it := by
    unfold forwardOp
    split
    case h_1 failed => exact absurd failed (forwardKickoutIterator_ne_none different s)
    case h_2 => exact .inl rfl
    case h_3 => exact .inr ⟨_, _, rfl⟩
  induction results using List.reverseRecOn with
  | nil => exact (forwarded _).imp_right fun running => ⟨running, rfl⟩
  | append_singleton results result ih =>
    rw [List.mem_append, not_or] at leader
    rw [run, List.foldl_append, ← run, List.foldl_cons, List.foldl_nil, List.count_append]
    rcases ih leader.1 with done | ⟨⟨kickout, it, running⟩, count⟩
    · left
      simp only [SplitRange.forward, done]
    · cases result with
      | success =>
        simp only [SplitRange.forward, running]
        refine (forwarded it).imp_right fun next => ⟨next, ?_⟩
        simp [count]
      | error keeps =>
        cases keeps with
        | true =>
          right
          simp [SplitRange.forward, running, count]
        | false => exact absurd List.mem_cons_self leader.2

theorem run_postAllLock (different : ¬ r.MigratesToItself)
    (leader : KickoutResult.error false ∉ results)
    (enough : r.moved.length ≤ results.count .success) : (r.run results).op = .postAllLock := by
  rcases run_advances different leader with done | ⟨⟨kickout, it, running⟩, count⟩
  · exact done
  · obtain ⟨left, split, ahead⟩ := onTrack_run r results
    rw [running] at ahead
    have length := congrArg List.length split
    rw [ahead, List.length_append, List.length_cons] at length
    omega

/-- The interval of a new range that a node group does not keep. -/
def LeavesGroup (r : SplitRange K) (k : KickoutData K) : Prop :=
  ∃ before rangeId after, r.newRangeInfo.ranges = before ++ (k.startKey, rangeId) :: after ∧
    k.endKey = r.endKey after ∧ ¬ r.Keeps k.nodeGroup rangeId

theorem mem_toClean {g : NodeGroupId} {it : List (K × Int)} :
    k ∈ r.toClean g it ↔ k.nodeGroup = g ∧
      ∃ before rangeId after, it = before ++ (k.startKey, rangeId) :: after ∧
        k.endKey = r.endKey after ∧ ¬ r.Keeps g rangeId := by
  induction it with
  | nil => simp [toClean]
  | cons x rest ih =>
    obtain ⟨start, rangeId⟩ := x
    have later : (∃ before id after, (start, rangeId) :: rest = before ++ (k.startKey, id) :: after ∧
        k.endKey = r.endKey after ∧ ¬ r.Keeps g id) ↔
        (k.startKey = start ∧ k.endKey = r.endKey rest ∧ ¬ r.Keeps g rangeId) ∨
        ∃ before id after, rest = before ++ (k.startKey, id) :: after ∧
          k.endKey = r.endKey after ∧ ¬ r.Keeps g id := by
      constructor
      · rintro ⟨before, id, after, eq, ends, leaves⟩
        cases before with
        | nil =>
          simp only [List.nil_append, List.cons.injEq, Prod.mk.injEq] at eq
          obtain ⟨⟨rfl, rfl⟩, rfl⟩ := eq
          exact .inl ⟨rfl, ends, leaves⟩
        | cons y before =>
          simp only [List.cons_append, List.cons.injEq] at eq
          exact .inr ⟨before, id, after, eq.2, ends, leaves⟩
      · rintro (⟨rfl, ends, leaves⟩ | ⟨before, id, after, rfl, ends, leaves⟩)
        · exact ⟨[], rangeId, rest, rfl, ends, leaves⟩
        · exact ⟨(start, rangeId) :: before, id, after, rfl, ends, leaves⟩
    rw [later, toClean]
    split
    case isTrue keeps => simp [ih, keeps]
    case isFalse leaves =>
      rw [List.mem_cons, ih]
      obtain ⟨group, startKey, endKey⟩ := k
      simp only [KickoutData.mk.injEq, leaves, not_false_eq_true, and_true]
      exact and_or_left.symm

theorem startKeys_toClean (r : SplitRange K) (g : NodeGroupId) (it : List (K × Int)) :
    ((r.toClean g it).map KickoutData.startKey).Sublist (it.map Prod.fst) := by
  induction it with
  | nil => exact .slnil
  | cons x rest ih =>
    obtain ⟨start, rangeId⟩ := x
    simp only [toClean]
    split
    · exact ih.cons start
    · exact ih.cons_cons start

theorem nodup_toClean (r : SplitRange K) (g : NodeGroupId) :
    (r.toClean g r.newRangeInfo.ranges).Nodup := by
  have starts : (r.newRangeInfo.ranges.map Prod.fst).Nodup :=
    (List.pairwise_map.mpr r.newRangeInfo.ascending).imp fun lt => ne_of_lt lt
  exact List.Nodup.of_map _ ((startKeys_toClean r g _).nodup starts)

theorem moved_eq (r : SplitRange K) :
    r.moved = r.toClean r.txCcNodeId r.newRangeInfo.ranges ++
      r.toCleanDirtyOwner r.newRangeInfo.ranges := rfl

theorem mem_toClean_ranges {g : NodeGroupId} :
    k ∈ r.toClean g r.newRangeInfo.ranges ↔ k.nodeGroup = g ∧ r.LeavesGroup k := by
  rw [mem_toClean]
  constructor
  · rintro ⟨rfl, leaves⟩
    exact ⟨rfl, leaves⟩
  · rintro ⟨rfl, leaves⟩
    exact ⟨rfl, leaves⟩

theorem mem_toCleanDirtyOwner :
    k ∈ r.toCleanDirtyOwner r.newRangeInfo.ranges ↔
      (k.nodeGroup = r.oldRangeDirtyOwner ∧ r.oldRangeDirtyOwner ≠ noOwner) ∧ r.LeavesGroup k := by
  unfold toCleanDirtyOwner
  split
  case isTrue none_dirty => simp [none_dirty]
  case isFalse dirty => simp [dirty, mem_toClean_ranges]

theorem mem_moved : k ∈ r.moved ↔
    (k.nodeGroup = r.txCcNodeId ∨
      k.nodeGroup = r.oldRangeDirtyOwner ∧ r.oldRangeDirtyOwner ≠ noOwner) ∧ r.LeavesGroup k := by
  rw [moved_eq, List.mem_append, mem_toClean_ranges, mem_toCleanDirtyOwner, or_and_right]

theorem nodup_moved (different : ¬ r.MigratesToItself) : r.moved.Nodup := by
  rw [moved_eq]
  refine List.nodup_append.mpr ⟨nodup_toClean r _, ?_, ?_⟩
  · unfold toCleanDirtyOwner
    split
    · exact List.nodup_nil
    · exact nodup_toClean r _
  · rintro k first _ second rfl
    obtain ⟨⟨dirty, some_dirty⟩, -⟩ := mem_toCleanDirtyOwner.mp second
    exact different ⟨dirty.symm.trans (mem_toClean_ranges.mp first).1, some_dirty⟩

end SplitRange

/-- **A split cleans exactly what it moves.** Once the operation goes on to release the locks, the
requests that succeeded are, each once, the intervals of the new ranges that the coordinator or the
dirty owner of the old range does not keep; and it goes on after as many successes, however many
kickouts have failed in between. -/
theorem split_cleans_moved_data (r : SplitRange K) (results : List KickoutResult) :
    ((r.run results).op = .postAllLock →
      (r.run results).kickedOut.Nodup ∧
      ∀ k, k ∈ (r.run results).kickedOut ↔
        (k.nodeGroup = r.txCcNodeId ∨
          k.nodeGroup = r.oldRangeDirtyOwner ∧ r.oldRangeDirtyOwner ≠ noOwner) ∧
        r.LeavesGroup k) ∧
    (¬ r.MigratesToItself → KickoutResult.error false ∉ results →
      r.moved.length ≤ results.count .success → (r.run results).op = .postAllLock) := by
  constructor
  · intro done
    obtain ⟨all, different⟩ := SplitRange.kickedOut_eq_moved done
    rw [all]
    exact ⟨SplitRange.nodup_moved different, fun k => SplitRange.mem_moved⟩
  · intro different leader enough
    exact SplitRange.run_postAllLock different leader enough

/-- Node group 1 splits a range whose bucket migrates to 2: of the ranges from 10 and 20, the first
goes to node group 3, the second stays. -/
def twoNewRanges : SplitRange Nat where
  txCcNodeId := 1
  buckets := ⟨fun b => if b = 11 then ⟨3, 1, noOwner, 0⟩ else ⟨1, 1, 2, 5⟩, Int.toNat⟩
  partitionId := 7
  oldEndKey := 30
  newRangeInfo := ⟨[(10, 11), (20, 12)], nofun, by decide⟩

/-- One kickout on each of the two node groups, the first one after a retry. -/
theorem split_cleans_two_new_ranges :
    (twoNewRanges.run [.error true, .success, .success]).kickedOut =
        [⟨1, 10, 20⟩, ⟨2, 10, 20⟩] ∧
      (twoNewRanges.run [.error true, .success, .success]).op = .postAllLock ∧
      (twoNewRanges.run [.error true, .success, .success]).kickedOut.Nodup := by
  obtain ⟨cleaned, reached⟩ :=
    split_cleans_moved_data twoNewRanges [.error true, .success, .success]
  have done := reached (by decide) (by decide) (by decide)
  exact ⟨by decide, done, (cleaned done).1⟩

end TxService.SplitKickout
