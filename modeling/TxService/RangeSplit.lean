import Mathlib.Data.List.TakeWhile
import TxService.RangeOwnership

/-!
# Writing a range split to the data store

`commit_log_op_` and `ds_upsert_range_op_` of `SplitFlushRangeOp`. The callback captures the list of
ranges; a failed call is repeated by `RetrySubOperation` until one succeeds.
-/

namespace TxService

universe u

structure StoreSlice (K : Type u) where
  startTxKey : K
  deriving DecidableEq

/-- A range with its slices and the new ranges it is split into. The new ranges start on
slice boundaries inside the range. -/
structure SplittingRange (K : Type u) [LinearOrder K] where
  partitionId : Int
  oldStartKey : K
  slices : List (StoreSlice K)
  starts : slices.head?.map StoreSlice.startTxKey = some oldStartKey
  ascending : slices.Pairwise fun s t => s.startTxKey < t.startTxKey
  newRangeInfo : NewRanges K
  inside : ∀ r ∈ newRangeInfo.ranges, oldStartKey < r.1
  onBoundary : ∀ r ∈ newRangeInfo.ranges, ∃ s ∈ slices, s.startTxKey = r.1

structure SplitRangeInfo (K : Type u) where
  startKey : K
  partitionId : Int
  slices : List (StoreSlice K)
  deriving DecidableEq

section
variable {K : Type u}

/-- `ds_upsert_range_op_`: the list its callback holds, and the one the running call of
`UpsertRanges` was given. -/
structure DsUpsertRangeOp (K : Type u) where
  captured : List (SplitRangeInfo K)
  given : List (SplitRangeInfo K)

/-- `Process(AsyncOp)`: the callback moves the list it holds into the thread. -/
def DsUpsertRangeOp.process (op : DsUpsertRangeOp K) : DsUpsertRangeOp K where
  captured := []
  given := op.captured

/-- The stages of `SplitFlushRangeOp` around the call. -/
inductive SplitStage (K : Type u) where
  | dsUpsertRange (op : DsUpsertRangeOp K)
  | kickout (op : DsUpsertRangeOp K)

/-- `Forward` when the call of `UpsertRanges` has returned. -/
def SplitStage.forward : SplitStage K → Bool → SplitStage K
  | .dsUpsertRange op, false => .dsUpsertRange op.process
  | .dsUpsertRange op, true => .kickout op
  | .kickout op, _ => .kickout op

theorem foldl_forward_failed (op : DsUpsertRangeOp K) (n : Nat) :
    (List.replicate (n + 1) false).foldl SplitStage.forward (.dsUpsertRange op) =
      .dsUpsertRange ⟨[], if n = 0 then op.captured else []⟩ := by
  induction n generalizing op with
  | zero => rfl
  | succ n ih =>
    rw [List.replicate_succ, List.foldl_cons]
    show (List.replicate (n + 1) false).foldl SplitStage.forward (.dsUpsertRange op.process) = _
    rw [ih, if_neg (Nat.succ_ne_zero n)]
    show SplitStage.dsUpsertRange ⟨[], if n = 0 then [] else []⟩ = _
    rw [ite_self]

end

variable {K : Type u} [LinearOrder K]

/-- The loop over the new ranges: `subrange` are the slices already put aside for the range
that starts at `startKey`, `slices` those that are left. -/
def dealSlices (startKey : K) (rangeId : Int) (subrange slices : List (StoreSlice K)) :
    List (K × Int) → List (SplitRangeInfo K)
  | [] => [⟨startKey, rangeId, subrange ++ slices⟩]
  | info :: rest =>
    ⟨startKey, rangeId, subrange ++ slices.takeWhile fun s => s.startTxKey < info.1⟩ ::
      dealSlices info.1 info.2 [] (slices.dropWhile fun s => s.startTxKey < info.1) rest

/-- `GenSplittedRangeInfos`: the first slice stays in the old range without a comparison. -/
def SplittingRange.genSplittedRangeInfos (r : SplittingRange K) : List (SplitRangeInfo K) :=
  dealSlices r.oldStartKey r.partitionId (r.slices.take 1) (r.slices.drop 1) r.newRangeInfo.ranges

/-- What the data store has to be given: the old range and the new ones in order, each with
the slices that start in it, and no slice lost. -/
structure SplittingRange.Complete (r : SplittingRange K) (infos : List (SplitRangeInfo K)) :
    Prop where
  ranges : infos.map (fun i => (i.startKey, i.partitionId)) =
    (r.oldStartKey, r.partitionId) :: r.newRangeInfo.ranges
  dealt : ∀ before info after, infos = before ++ info :: after →
    ∀ s, s ∈ info.slices ↔ s ∈ r.slices ∧ info.startKey ≤ s.startTxKey ∧
      ∀ i ∈ after, s.startTxKey < i.startKey
  whole : infos.flatMap SplitRangeInfo.slices = r.slices

theorem dealSlices_ranges (startKey : K) (rangeId : Int) (subrange slices : List (StoreSlice K))
    (ranges : List (K × Int)) :
    (dealSlices startKey rangeId subrange slices ranges).map (fun i => (i.startKey, i.partitionId)) =
      (startKey, rangeId) :: ranges := by
  induction ranges generalizing startKey rangeId subrange slices with
  | nil => rfl
  | cons info rest ih => rw [dealSlices, List.map_cons, ih]

theorem dealSlices_whole (startKey : K) (rangeId : Int) (subrange slices : List (StoreSlice K))
    (ranges : List (K × Int)) :
    (dealSlices startKey rangeId subrange slices ranges).flatMap SplitRangeInfo.slices =
      subrange ++ slices := by
  induction ranges generalizing startKey rangeId subrange slices with
  | nil => rw [dealSlices, List.flatMap_cons, List.flatMap_nil, List.append_nil]
  | cons info rest ih =>
    rw [dealSlices, List.flatMap_cons, ih, List.nil_append, List.append_assoc,
      List.takeWhile_append_dropWhile]

/-- The slices that are left when those below the start of a range are dealt lie at or
above it. -/
theorem le_of_mem_dropWhile {slices : List (StoreSlice K)} {key : K}
    (ascending : slices.Pairwise fun s t => s.startTxKey < t.startTxKey) :
    ∀ s ∈ slices.dropWhile fun s => s.startTxKey < key, key ≤ s.startTxKey := by
  induction slices with
  | nil => exact fun s hs => absurd hs List.not_mem_nil
  | cons first rest ih =>
    by_cases below : first.startTxKey < key
    · rw [List.dropWhile_cons_of_pos (by simpa using below)]
      exact ih ascending.of_cons
    · rw [List.dropWhile_cons_of_neg (by simpa using below)]
      intro s hs
      rcases List.mem_cons.mp hs with rfl | hs
      · exact not_lt.mp below
      · exact (not_lt.mp below).trans (List.rel_of_pairwise_cons ascending hs).le

variable {startKey : K} {rangeId : Int} {subrange slices : List (StoreSlice K)}
  {ranges : List (K × Int)}

theorem startKey_of_mem_dealSlices {i : SplitRangeInfo K}
    (h : i ∈ dealSlices startKey rangeId subrange slices ranges) :
    i.startKey = startKey ∨ ∃ r ∈ ranges, i.startKey = r.1 := by
  have key := List.mem_map_of_mem (f := fun i => (i.startKey, i.partitionId)) h
  rw [dealSlices_ranges] at key
  rcases List.mem_cons.mp key with e | hr
  · exact Or.inl (congrArg Prod.fst e)
  · exact Or.inr ⟨_, hr, rfl⟩

theorem dealSlices_above (sorted : slices.Pairwise fun s t => s.startTxKey < t.startTxKey)
    (above : ∀ s ∈ subrange ++ slices, startKey ≤ s.startTxKey) :
    ∀ i ∈ dealSlices startKey rangeId subrange slices ranges, ∀ s ∈ i.slices,
      i.startKey ≤ s.startTxKey := by
  induction ranges generalizing startKey rangeId subrange slices with
  | nil =>
    intro i hi
    rw [List.mem_singleton.mp hi]
    exact above
  | cons info rest ih =>
    intro i hi
    rcases List.mem_cons.mp hi with rfl | hi
    · intro s hs
      apply above s
      rcases List.mem_append.mp hs with hs | hs
      · exact List.mem_append_left _ hs
      · exact List.mem_append_right _ ((List.takeWhile_sublist _).subset hs)
    · exact ih (sorted.sublist (List.dropWhile_sublist _)) (le_of_mem_dropWhile sorted) i hi

theorem dealSlices_below (ascending : ranges.Pairwise fun a b => a.1 < b.1)
    (below : ∀ s ∈ subrange, ∀ r ∈ ranges, s.startTxKey < r.1) :
    (dealSlices startKey rangeId subrange slices ranges).Pairwise
      fun i j => ∀ s ∈ i.slices, s.startTxKey < j.startKey := by
  induction ranges generalizing startKey rangeId subrange slices with
  | nil => exact List.pairwise_singleton _ _
  | cons info rest ih =>
    refine List.Pairwise.cons (fun j hj s hs => ?_) (ih ascending.of_cons
      fun s hs => absurd hs List.not_mem_nil)
    have key : ∃ r ∈ info :: rest, j.startKey = r.1 := by
      rcases startKey_of_mem_dealSlices hj with e | ⟨r, hr, e⟩
      · exact ⟨info, List.mem_cons_self, e⟩
      · exact ⟨r, List.mem_cons_of_mem info hr, e⟩
    obtain ⟨r, hr, e⟩ := key
    rw [e]
    rcases List.mem_append.mp hs with hs | hs
    · exact below s hs r hr
    · have small : s.startTxKey < info.1 := by simpa using List.mem_takeWhile_imp hs
      rcases List.mem_cons.mp hr with rfl | hr
      · exact small
      · exact small.trans (List.rel_of_pairwise_cons ascending hr)

/-- A list of slices that is cut at the starts of the ranges: each range has exactly the
slices that start in it. -/
theorem mem_slices_iff {infos : List (SplitRangeInfo K)} {before after : List (SplitRangeInfo K)}
    {info : SplitRangeInfo K} (e : infos = before ++ info :: after)
    (above : ∀ i ∈ infos, ∀ s ∈ i.slices, i.startKey ≤ s.startTxKey)
    (below : infos.Pairwise fun i j => ∀ s ∈ i.slices, s.startTxKey < j.startKey)
    (s : StoreSlice K) :
    s ∈ info.slices ↔ s ∈ infos.flatMap SplitRangeInfo.slices ∧ info.startKey ≤ s.startTxKey ∧
      ∀ i ∈ after, s.startTxKey < i.startKey := by
  subst e
  obtain ⟨-, belowInfo, belowAll⟩ := List.pairwise_append.mp below
  have hinfo : info ∈ before ++ info :: after := List.mem_append_right _ List.mem_cons_self
  constructor
  · intro hs
    refine ⟨List.mem_flatMap.mpr ⟨info, hinfo, hs⟩, above info hinfo s hs, fun i hi => ?_⟩
    exact List.rel_of_pairwise_cons belowInfo hi s hs
  · rintro ⟨hs, start, stop⟩
    obtain ⟨i, hi, his⟩ := List.mem_flatMap.mp hs
    rcases List.mem_append.mp hi with earlier | later
    · exact absurd (belowAll i earlier info List.mem_cons_self s his) (not_lt.mpr start)
    · rcases List.mem_cons.mp later with rfl | later
      · exact his
      · exact absurd (stop i later) (not_lt.mpr (above i hi s his))

theorem SplittingRange.slices_eq (r : SplittingRange K) :
    ∃ first rest, r.slices = first :: rest ∧ first.startTxKey = r.oldStartKey := by
  obtain ⟨first, head, e⟩ := Option.map_eq_some_iff.mp r.starts
  obtain ⟨rest, hrest⟩ := List.head?_eq_some_iff.mp head
  exact ⟨first, rest, hrest, e⟩

theorem SplittingRange.genSplittedRangeInfos_complete (r : SplittingRange K) :
    r.Complete r.genSplittedRangeInfos := by
  obtain ⟨first, rest, e, start⟩ := r.slices_eq
  have sorted := r.ascending
  rw [e] at sorted
  have eq : r.genSplittedRangeInfos =
      dealSlices r.oldStartKey r.partitionId [first] rest r.newRangeInfo.ranges := by
    rw [genSplittedRangeInfos, e]
    rfl
  have whole : r.genSplittedRangeInfos.flatMap SplitRangeInfo.slices = r.slices := by
    rw [eq, dealSlices_whole, e]
    rfl
  have above : ∀ s ∈ [first] ++ rest, r.oldStartKey ≤ s.startTxKey := by
    intro s hs
    rcases List.mem_cons.mp hs with rfl | hs
    · exact start.ge
    · exact start ▸ (List.rel_of_pairwise_cons sorted hs).le
  have below : ∀ s ∈ [first], ∀ n ∈ r.newRangeInfo.ranges, s.startTxKey < n.1 := by
    intro s hs n hn
    rw [List.mem_singleton.mp hs, start]
    exact r.inside n hn
  refine ⟨eq ▸ dealSlices_ranges .., fun before info after split s => ?_, whole⟩
  rw [← whole]
  rw [eq] at split ⊢
  exact mem_slices_iff split (dealSlices_above sorted.of_cons above)
    (dealSlices_below r.newRangeInfo.ascending below) s

/-- The callback is built and called when the commit log is written. -/
def SplittingRange.commitLogWritten (r : SplittingRange K) : SplitStage K :=
  .dsUpsertRange (DsUpsertRangeOp.process ⟨r.genSplittedRangeInfos, []⟩)

theorem not_complete_nil (r : SplittingRange K) : ¬ r.Complete [] :=
  fun h => absurd h.ranges (List.cons_ne_nil _ _).symm

/-- The call that lets the split go on was given the whole split if and only if no call
failed before it: the first call takes the list with it. -/
theorem upsertRanges_complete_iff (r : SplittingRange K) (failed : Nat) :
    ∃ op, (List.replicate failed false ++ [true]).foldl SplitStage.forward r.commitLogWritten =
        .kickout op ∧ (r.Complete op.given ↔ failed = 0) := by
  cases failed with
  | zero => exact ⟨_, rfl, iff_of_true r.genSplittedRangeInfos_complete rfl⟩
  | succ n =>
    refine ⟨⟨[], []⟩, ?_, iff_of_false (not_complete_nil r) (Nat.succ_ne_zero n)⟩
    rw [List.foldl_append, SplittingRange.commitLogWritten, foldl_forward_failed]
    show SplitStage.kickout ⟨[], if n = 0 then [] else []⟩ = _
    rw [ite_self]

/-- A range of two slices that is split between them, with one failed call. -/
theorem upsertRanges_given_nothing :
    ∃ r : SplittingRange Nat, ∃ op,
      [false, true].foldl SplitStage.forward r.commitLogWritten = .kickout op ∧
      r.genSplittedRangeInfos = [⟨10, 1, [⟨10⟩]⟩, ⟨20, 2, [⟨20⟩]⟩] ∧
      op.given = [] ∧ ¬ r.Complete op.given := by
  refine ⟨⟨1, 10, [⟨10⟩, ⟨20⟩], rfl, by decide, ⟨[(20, 2)], by decide, by decide⟩, by decide,
    by decide⟩, ⟨[], []⟩, rfl, rfl, rfl, ?_⟩
  exact not_complete_nil _

end TxService
