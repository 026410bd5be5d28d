import Mathlib.Order.Lattice
import Mathlib.Order.Nat
import TxService.Protocol

/-!
# Which records of a data log a node group installs

A range belongs to a bucket and a bucket to a node group, and both may be changing hands, the range
by a split and the bucket by a migration.
-/

namespace TxService

universe u

/-- `UINT32_MAX`, which is no node group. -/
def noOwner : NodeGroupId := 4294967295

structure BucketInfo where
  bucketOwner : NodeGroupId
  version : Nat
  dirtyBucketOwner : NodeGroupId
  dirtyVersion : Nat

namespace BucketInfo

def initial : BucketInfo := ⟨noOwner, 0, noOwner, 0⟩

def set (b : BucketInfo) (ownerNg : NodeGroupId) (version : Nat) : BucketInfo :=
  if b.version < version then { b with bucketOwner := ownerNg, version := version } else b

def setDirty (b : BucketInfo) (dirtyBucketOwner : NodeGroupId) (dirtyVersion : Nat) : BucketInfo :=
  if b.version < dirtyVersion ∧ b.dirtyVersion < dirtyVersion then
    { b with dirtyBucketOwner := dirtyBucketOwner, dirtyVersion := dirtyVersion }
  else b

/-- The node group owns the bucket, or will once its migration is done. -/
def OwnedBy (b : BucketInfo) (g : NodeGroupId) : Prop :=
  b.bucketOwner = g ∨ b.dirtyBucketOwner = g

instance (b : BucketInfo) (g : NodeGroupId) : Decidable (b.OwnedBy g) :=
  inferInstanceAs (Decidable (_ ∨ _))

end BucketInfo

variable {K : Type u} [LinearOrder K]

/-- `new_key_` and `new_partition_id_`: the start keys of the ranges a split makes,
with their partitions. -/
structure NewRanges (K : Type u) [LinearOrder K] where
  ranges : List (K × Int)
  nonempty : ranges ≠ []
  ascending : ranges.Pairwise fun a b => a.1 < b.1

/-- A range is dirty when it holds the new ranges of a split. -/
structure RangeInfo (K : Type u) [LinearOrder K] where
  partitionId : Int
  versionTs : Nat
  dirtyTs : Nat
  newRanges : Option (NewRanges K)

namespace NewRanges

/-- The loop of `GetKeyNewRangeId`, at a range whose start key is not above the key. -/
def rangeFrom (key : K) (id : Int) : List (K × Int) → Int
  | [] => id
  | (start, next) :: rest => if key < start then id else rangeFrom key next rest

def getKeyNewRangeId (new : NewRanges K) (key : K) : Int :=
  match new.ranges with
  | [] => -1
  | (start, id) :: rest => if key < start then -1 else rangeFrom key id rest

/-- The key lies at or above the start of this new range and below that of every later one. -/
def Covers (new : NewRanges K) (key : K) (id : Int) : Prop :=
  ∃ before start after, new.ranges = before ++ (start, id) :: after ∧ start ≤ key ∧
    ∀ r ∈ after, key < r.1

variable {new : NewRanges K} {key start : K} {id : Int} {ranges : List (K × Int)}

theorem rangeFrom_of_before {first : Int} {before after : List (K × Int)}
    (below : ∀ r ∈ before, r.1 ≤ key) (here : start ≤ key) (above : ∀ r ∈ after, key < r.1) :
    rangeFrom key first (before ++ (start, id) :: after) = id := by
  induction before generalizing first with
  | nil =>
    rw [List.nil_append, rangeFrom, if_neg (not_lt.mpr here)]
    cases after with
    | nil => rfl
    | cons r after => rw [rangeFrom, if_pos (above r List.mem_cons_self)]
  | cons r before ih =>
    rw [List.cons_append, rangeFrom, if_neg (not_lt.mpr (below r List.mem_cons_self))]
    exact ih fun s hs => below s (List.mem_cons_of_mem _ hs)

theorem getKeyNewRangeId_of_covers (h : new.Covers key id) : new.getKeyNewRangeId key = id := by
  obtain ⟨before, start, after, eq, here, above⟩ := h
  have sorted := new.ascending
  rw [eq] at sorted
  have below : ∀ r ∈ before, r.1 ≤ key := by
    intro r hr
    have := (List.pairwise_append.mp sorted).2.2 r hr (start, id) List.mem_cons_self
    exact (this.trans_le here).le
  unfold getKeyNewRangeId
  rw [eq]
  cases before with
  | nil =>
    change (if key < start then -1 else rangeFrom key id after) = id
    rw [if_neg (not_lt.mpr here)]
    cases after with
    | nil => rfl
    | cons r after => rw [rangeFrom, if_pos (above r List.mem_cons_self)]
  | cons r before =>
    change (if key < r.1 then -1 else rangeFrom key r.2 (before ++ (start, id) :: after)) = id
    rw [if_neg (not_lt.mpr (below r List.mem_cons_self))]
    exact rangeFrom_of_before (fun s hs => below s (List.mem_cons_of_mem _ hs)) here above

/-- A key at or above the first start lies in the last range that starts there or before. -/
theorem exists_last_start (key : K) (start : K) (id : Int) (ranges : List (K × Int))
    (sorted : ((start, id) :: ranges).Pairwise fun a b => a.1 < b.1) (here : start ≤ key) :
    ∃ before s i after, (start, id) :: ranges = before ++ (s, i) :: after ∧ s ≤ key ∧
      ∀ r ∈ after, key < r.1 := by
  induction ranges generalizing start id with
  | nil => exact ⟨[], start, id, [], rfl, here, by simp⟩
  | cons r ranges ih =>
    by_cases next : r.1 ≤ key
    · obtain ⟨before, s, i, after, eq, le, above⟩ := ih r.1 r.2 (List.pairwise_cons.mp sorted).2 next
      exact ⟨(start, id) :: before, s, i, after, congrArg ((start, id) :: ·) eq, le, above⟩
    · refine ⟨[], start, id, r :: ranges, rfl, here, ?_⟩
      intro q hq
      cases hq with
      | head => exact not_le.mp next
      | tail _ hq =>
        exact (not_le.mp next).trans
          ((List.pairwise_cons.mp (List.pairwise_cons.mp sorted).2).1 q hq)

theorem covers_or_below (new : NewRanges K) (key : K) :
    (∃ id, new.Covers key id) ∨ new.getKeyNewRangeId key = -1 := by
  unfold Covers getKeyNewRangeId
  have sorted := new.ascending
  have nonempty := new.nonempty
  cases eq : new.ranges with
  | nil => exact absurd eq nonempty
  | cons first rest =>
    rw [eq] at sorted
    by_cases here : key < first.1
    · right
      exact if_pos here
    · left
      obtain ⟨before, s, i, after, split, le, above⟩ :=
        exists_last_start key first.1 first.2 rest sorted (not_lt.mp here)
      exact ⟨i, before, s, after, split, le, above⟩

end NewRanges

namespace RangeInfo

def setDirty (r : RangeInfo K) (new : NewRanges K) (dirtyTs : Nat) : RangeInfo K :=
  if r.versionTs ≤ dirtyTs ∧ r.dirtyTs ≤ dirtyTs then
    { r with newRanges := some new, dirtyTs := dirtyTs }
  else r

def getKeyNewRangeId (r : RangeInfo K) (key : K) : Int :=
  match r.newRanges with
  | none => -1
  | some new => new.getKeyNewRangeId key

/-- The range is being split and the key falls into this new range. -/
def FallsInto (r : RangeInfo K) (key : K) (id : Int) : Prop :=
  ∃ new, r.newRanges = some new ∧ new.Covers key id

variable {r : RangeInfo K} {key : K} {id : Int}

theorem getKeyNewRangeId_of_fallsInto (h : r.FallsInto key id) : r.getKeyNewRangeId key = id := by
  obtain ⟨new, eq, covers⟩ := h
  rw [getKeyNewRangeId, eq]
  exact NewRanges.getKeyNewRangeId_of_covers covers

theorem fallsInto_or_none (r : RangeInfo K) (key : K) :
    (∃ id, r.FallsInto key id) ∨ r.getKeyNewRangeId key = -1 := by
  cases eq : r.newRanges with
  | none =>
    right
    rw [getKeyNewRangeId, eq]
  | some new =>
    cases new.covers_or_below key with
    | inl covered =>
      obtain ⟨id, covers⟩ := covered
      exact Or.inl ⟨id, new, eq, covers⟩
    | inr below =>
      right
      rw [getKeyNewRangeId, eq]
      exact below

end RangeInfo

/-- The node group's view of the buckets, and `MapRangeIdToBucketId`. -/
structure Buckets where
  getBucketInfo : Nat → BucketInfo
  mapRangeIdToBucketId : Int → Nat

namespace Buckets

def ofRange (b : Buckets) (rangeId : Int) : BucketInfo :=
  b.getBucketInfo (b.mapRangeIdToBucketId rangeId)

/-- Whether `Execute(ReplayLogCc)` of `TemplateCcMap` goes on to install the record. The
bucket it looks up for a new range is that of the range the key is in now. -/
def replayInstalls (b : Buckets) (r : RangeInfo K) (key : K) (ng : NodeGroupId) : Bool :=
  let bucketInfo := b.ofRange r.partitionId
  if ¬ bucketInfo.OwnedBy ng then
    let newRangeId := r.getKeyNewRangeId key
    if 0 ≤ newRangeId then
      let newBucketInfo := b.ofRange r.partitionId
      decide (newBucketInfo.OwnedBy ng)
    else true
  else true

/-- The record's bucket belongs to the node group, before or after a split in progress. -/
def Holds (b : Buckets) (r : RangeInfo K) (key : K) (ng : NodeGroupId) : Prop :=
  (b.ofRange r.partitionId).OwnedBy ng ∨ ∃ id, r.FallsInto key id ∧ (b.ofRange id).OwnedBy ng

variable {b : Buckets} {r : RangeInfo K} {key : K} {ng : NodeGroupId}

/-- The answer depends on the bucket of the old range alone: a record outside of it is
kept exactly when no new range is found for it. -/
theorem replayInstalls_iff : b.replayInstalls r key ng = true ↔
    (b.ofRange r.partitionId).OwnedBy ng ∨ r.getKeyNewRangeId key < 0 := by
  unfold replayInstalls
  by_cases owned : (b.ofRange r.partitionId).OwnedBy ng
  · simp [owned]
  · by_cases new : 0 ≤ r.getKeyNewRangeId key
    · simp [owned, new]
    · simp [owned, new, Int.not_le.mp new]

theorem holds_iff_of_fallsInto {id : Int} (h : r.FallsInto key id) :
    b.Holds r key ng ↔ (b.ofRange r.partitionId).OwnedBy ng ∨ (b.ofRange id).OwnedBy ng := by
  apply or_congr_right
  constructor
  · rintro ⟨id', h', owned⟩
    have same : id' = id := by
      rw [← RangeInfo.getKeyNewRangeId_of_fallsInto h', RangeInfo.getKeyNewRangeId_of_fallsInto h]
    rwa [← same]
  · exact fun owned => ⟨id, h, owned⟩

/-- The filter is right exactly on the records of an owned range, and on those that a
split moves to a range of another owner. -/
theorem replay_installs_owned_iff (b : Buckets) (r : RangeInfo K) (key : K) (ng : NodeGroupId) :
    (b.replayInstalls r key ng = true ↔ b.Holds r key ng) ↔
      (b.ofRange r.partitionId).OwnedBy ng ∨
        ∃ id, r.FallsInto key id ∧ (id < 0 ↔ (b.ofRange id).OwnedBy ng) := by
  rw [replayInstalls_iff]
  by_cases owned : (b.ofRange r.partitionId).OwnedBy ng
  · simp [owned, Holds]
  cases r.fallsInto_or_none key with
  | inl falls =>
    obtain ⟨id, falls⟩ := falls
    rw [holds_iff_of_fallsInto falls, RangeInfo.getKeyNewRangeId_of_fallsInto falls]
    simp only [owned, false_or]
    constructor
    · exact fun right => ⟨id, falls, right⟩
    · rintro ⟨id', falls', right⟩
      have same : id' = id := by
        rw [← RangeInfo.getKeyNewRangeId_of_fallsInto falls',
          RangeInfo.getKeyNewRangeId_of_fallsInto falls]
      rwa [← same]
  | inr nothing =>
    have outside : ∀ id, ¬ r.FallsInto key id ∨ id = -1 := by
      intro id
      by_cases falls : r.FallsInto key id
      · right
        rw [← RangeInfo.getKeyNewRangeId_of_fallsInto falls, nothing]
      · exact Or.inl falls
    simp only [owned, nothing, Holds, false_or]
    constructor
    · intro right
      obtain ⟨id, falls, here⟩ := right.mp (by decide)
      have same := (outside id).resolve_left (not_not.mpr falls)
      exact ⟨id, falls, fun _ => here, fun _ => by omega⟩
    · rintro ⟨id, falls, right⟩
      have same := (outside id).resolve_left (not_not.mpr falls)
      exact ⟨fun _ => ⟨id, falls, right.mp (by omega)⟩, fun _ => by decide⟩

/-- Partition 7 belongs to node group 2, every other one to node group 1. -/
def twoOwners : Buckets where
  getBucketInfo id := BucketInfo.initial.set (if id = 7 then 2 else 1) 5
  mapRangeIdToBucketId := Int.toNat

def cleanRange : RangeInfo Nat := ⟨0, 3, 0, none⟩

/-- A split that moves the keys from 50 on to partition 7. -/
def splittingRange : RangeInfo Nat :=
  cleanRange.setDirty ⟨[(50, 7)], by simp, by simp⟩ 4

theorem splittingRange_moves : splittingRange.FallsInto 60 7 :=
  ⟨⟨[(50, 7)], by simp, by simp⟩, rfl, [], 50, [], rfl, by decide, by simp⟩

/-- The new owner of key 60 drops its record, and while the range is clean a node group
that owns nothing of it keeps the record. -/
theorem replay_filter_misplaces :
    (twoOwners.replayInstalls splittingRange 60 2 = false ∧ twoOwners.Holds splittingRange 60 2) ∧
      (twoOwners.replayInstalls cleanRange 60 2 = true ∧ ¬ twoOwners.Holds cleanRange 60 2) := by
  refine ⟨⟨by decide, Or.inr ⟨7, splittingRange_moves, by decide⟩⟩, by decide, ?_⟩
  rintro (owned | ⟨_, ⟨_, dirty, _⟩, _⟩)
  · exact absurd owned (by decide)
  · cases dirty

end Buckets

end TxService
