import TxService.ByteReader
import TxService.ObjectCache
import TxService.Transition

/-!
# The versions of a bucket's owner

The setters of `BucketInfo` and the record that carries a bucket's owner between nodes.
-/

namespace TxService

open ByteReader Transition

/-- `BucketInfo(bucket_owner, version)`. -/
def BucketInfo.ofOwner (bucketOwner : NodeGroupId) (version : Nat) : BucketInfo :=
  ⟨bucketOwner, version, noOwner, 0⟩

/-- The calls that change a bucket's owner; node groups and versions have 32 and 64 bits. -/
inductive BucketCall
  | set (ownerNg : UInt32) (version : UInt64)
  | setDirty (dirtyBucketOwner : UInt32) (dirtyVersion : UInt64)
  | commitDirty
  | clearDirty

/-- `bucket_info_` and `bucket_info_uptr_` share their memory, so there is one pointer, and
`is_owner_` says whether the record frees it. -/
structure RangeBucketRecord where
  bucketInfo : Option BucketInfo
  isOwner : Bool

namespace RangeBucketRecord

def serialize (r : RangeBucketRecord) : Option Bytes :=
  r.bucketInfo.map fun b =>
    natLE 4 b.bucketOwner ++ natLE 8 b.version ++ natLE 4 b.dirtyBucketOwner ++
      natLE 8 b.dirtyVersion

/-- The bytes go into a bucket of the record's own, whatever it pointed to before. -/
def deserialize (_ : RangeBucketRecord) : Reader RangeBucketRecord := do
  let bucketOwner ← readLE 4
  let version ← readLE 8
  let dirtyOwner ← readLE 4
  let dirtyVersion ← readLE 8
  pure ⟨some ((BucketInfo.ofOwner bucketOwner version).setDirty dirtyOwner dirtyVersion), true⟩

end RangeBucketRecord

namespace BucketInfo

def commitDirty (b : BucketInfo) : BucketInfo :=
  if b.version < b.dirtyVersion then ofOwner b.dirtyBucketOwner b.dirtyVersion else b.clearDirty

def exec (b : BucketInfo) : BucketCall → BucketInfo
  | .set ownerNg version => b.set ownerNg.toNat version.toNat
  | .setDirty dirtyBucketOwner dirtyVersion => b.setDirty dirtyBucketOwner.toNat dirtyVersion.toNat
  | .commitDirty => b.commitDirty
  | .clearDirty => b.clearDirty

/-- What `Set` asserts: it installs an owner only while no other one is on its way. -/
def Asserted (b : BucketInfo) : BucketCall → Prop
  | .set _ version => b.version < version.toNat → b.dirtyVersion = 0
  | _ => True

def Constructed (b : BucketInfo) : Prop :=
  ∃ (bucketOwner : UInt32) (version : UInt64), b = ofOwner bucketOwner.toNat version.toNat

/-- The buckets after calls that all met a condition. -/
def Reached (P : BucketInfo → BucketCall → Prop) : BucketInfo → Prop :=
  Reachable Constructed fun b (c : BucketCall) b' => P b c ∧ b' = b.exec c

/-- A call leaves owner and version alone, or both are from a higher version. -/
theorem exec_keeps_or_advances (b : BucketInfo) (c : BucketCall) :
    (b.exec c).bucketOwner = b.bucketOwner ∧ (b.exec c).version = b.version ∨
      b.version < (b.exec c).version := by
  cases c with
  | set ownerNg version =>
    simp only [exec, set]
    split
    · rename_i later
      exact .inr later
    · exact .inl ⟨rfl, rfl⟩
  | setDirty dirtyBucketOwner dirtyVersion =>
    simp only [exec, setDirty]
    split <;> exact .inl ⟨rfl, rfl⟩
  | commitDirty =>
    simp only [exec, commitDirty]
    split
    · rename_i later
      exact .inr later
    · exact .inl ⟨rfl, rfl⟩
  | clearDirty => exact .inl ⟨rfl, rfl⟩

/-- The next owner is newer than the one there is, or there is none on its way. -/
def Ordered (b : BucketInfo) : Prop :=
  b.version < b.dirtyVersion ∨ b.dirtyBucketOwner = noOwner ∧ b.dirtyVersion = 0

variable {b : BucketInfo}

theorem Ordered.exec {c : BucketCall} (h : Ordered b) (met : b.Asserted c) :
    Ordered (b.exec c) := by
  cases c with
  | set ownerNg version =>
    simp only [BucketInfo.exec, set]
    split
    · rename_i later
      have unset : b.dirtyVersion = 0 := met later
      rcases h with newer | clear
      · omega
      · exact .inr clear
    · exact h
  | setDirty dirtyBucketOwner dirtyVersion =>
    simp only [BucketInfo.exec, setDirty]
    split
    · rename_i later
      exact .inl later.1
    · exact h
  | commitDirty =>
    simp only [BucketInfo.exec, commitDirty]
    split <;> exact .inr ⟨rfl, rfl⟩
  | clearDirty => exact .inr ⟨rfl, rfl⟩

/-- Every field is a number of its width. -/
structure Sized (b : BucketInfo) : Prop where
  bucketOwner : b.bucketOwner < capacity 4
  version : b.version < capacity 8
  dirtyBucketOwner : b.dirtyBucketOwner < capacity 4
  dirtyVersion : b.dirtyVersion < capacity 8

theorem noOwner_lt : noOwner < capacity 4 := by decide

theorem sized_ofOwner {bucketOwner version : Nat} (owner : bucketOwner < capacity 4)
    (bound : version < capacity 8) : Sized (ofOwner bucketOwner version) :=
  ⟨owner, bound, noOwner_lt, Nat.zero_lt_succ _⟩

theorem Sized.clearDirty (h : Sized b) : Sized b.clearDirty :=
  ⟨h.bucketOwner, h.version, noOwner_lt, Nat.zero_lt_succ _⟩

theorem toNat32_lt (n : UInt32) : n.toNat < capacity 4 := n.toNat_lt

theorem toNat64_lt (n : UInt64) : n.toNat < capacity 8 := n.toNat_lt

theorem Sized.exec (h : Sized b) (c : BucketCall) : Sized (b.exec c) := by
  cases c with
  | set ownerNg version =>
    simp only [BucketInfo.exec, set]
    split
    · exact ⟨toNat32_lt _, toNat64_lt _, h.dirtyBucketOwner, h.dirtyVersion⟩
    · exact h
  | setDirty dirtyBucketOwner dirtyVersion =>
    simp only [BucketInfo.exec, setDirty]
    split
    · exact ⟨h.bucketOwner, h.version, toNat32_lt _, toNat64_lt _⟩
    · exact h
  | commitDirty =>
    simp only [BucketInfo.exec, commitDirty]
    split
    · exact sized_ofOwner h.dirtyBucketOwner h.dirtyVersion
    · exact h.clearDirty
  | clearDirty => exact h.clearDirty

theorem Reached.ordered (h : Reached Asserted b) : Ordered b := by
  refine Reachable.invariant h ?_ ?_
  · rintro b ⟨bucketOwner, version, rfl⟩
    exact .inr ⟨rfl, rfl⟩
  · rintro b c b' ⟨met, rfl⟩ now
    exact now.exec met

theorem Reached.sized {P : BucketInfo → BucketCall → Prop} (h : Reached P b) :
    Sized b := by
  refine Reachable.invariant h ?_ ?_
  · rintro b ⟨bucketOwner, version, rfl⟩
    exact sized_ofOwner (toNat32_lt _) (toNat64_lt _)
  · rintro b c b' ⟨-, rfl⟩ now
    exact now.exec c

/-- A bucket whose next owner is newer is rebuilt from its four fields. -/
theorem Ordered.setDirty_ofOwner (h : Ordered b) :
    (ofOwner b.bucketOwner b.version).setDirty b.dirtyBucketOwner b.dirtyVersion = b := by
  rcases h with newer | ⟨owner, unset⟩
  · exact if_pos ⟨newer, Nat.zero_lt_of_lt newer⟩
  · rw [setDirty, if_neg, ofOwner, ← owner, ← unset]
    rintro ⟨-, positive⟩
    rw [unset] at positive
    exact Nat.lt_irrefl 0 positive

/-- Reading back gives the bucket built from the four fields, also over an old record. -/
theorem Sized.deserialize_serialize (sized : Sized b) (isOwner : Bool) (old : RangeBucketRecord)
    (tail : Bytes) :
    ∃ bytes, RangeBucketRecord.serialize ⟨some b, isOwner⟩ = some bytes ∧
      old.deserialize.run (bytes ++ tail) =
        some (⟨some ((ofOwner b.bucketOwner b.version).setDirty b.dirtyBucketOwner
          b.dirtyVersion), true⟩, tail) := by
  refine ⟨_, rfl, ?_⟩
  have reads (width n : Nat) (fits : n < capacity width) :
      Reads (readLE width) (natLE width n) n := by
    have all := reads_natLE width n
    rwa [Nat.mod_eq_of_lt fits] at all
  rw [RangeBucketRecord.deserialize, List.append_assoc, List.append_assoc, List.append_assoc,
    (reads 4 _ sized.bucketOwner).run_bind, (reads 8 _ sized.version).run_bind,
    (reads 4 _ sized.dirtyBucketOwner).run_bind, (reads 8 _ sized.dirtyVersion).run_bind]
  rfl

/-- No call lowers the version or changes the owner under it. As long as `Set` keeps to its
assertion the next owner is always newer, and the bucket survives being sent. -/
theorem ownership_moves_forward :
    (∀ (b : BucketInfo) (c : BucketCall), b.version ≤ (b.exec c).version ∧
      ((b.exec c).bucketOwner ≠ b.bucketOwner → b.version < (b.exec c).version)) ∧
    ∀ b, Reached Asserted b →
      (b.dirtyBucketOwner ≠ noOwner → b.version < b.dirtyVersion) ∧
      (b.dirtyVersion = 0 → b.dirtyBucketOwner = noOwner) ∧
      ∀ (isOwner : Bool) (old : RangeBucketRecord) (tail : Bytes), ∃ bytes,
        RangeBucketRecord.serialize ⟨some b, isOwner⟩ = some bytes ∧
          old.deserialize.run (bytes ++ tail) = some (⟨some b, true⟩, tail) := by
  constructor
  · intro b c
    rcases exec_keeps_or_advances b c with ⟨owner, version⟩ | later
    · exact ⟨version.ge, fun changed => absurd owner changed⟩
    · exact ⟨later.le, fun _ => later⟩
  intro b reached
  have ordered := reached.ordered
  refine ⟨?_, ?_, ?_⟩
  · intro pending
    exact ordered.resolve_right fun clear => pending clear.1
  · intro zero
    rcases ordered with newer | clear
    · omega
    · exact clear.1
  · intro isOwner old tail
    have back := reached.sized.deserialize_serialize isOwner old tail
    rwa [ordered.setDirty_ofOwner] at back

/-- A bucket of node group 1 that is migrating to node group 2. -/
theorem ownership_moves_forward_migrating :
    (Reached Asserted (⟨1, 3, 2, 5⟩ : BucketInfo)) ∧ (3 < 5) ∧
      ∃ bytes, RangeBucketRecord.serialize ⟨some ⟨1, 3, 2, 5⟩, true⟩ = some bytes ∧
        (⟨some ⟨7, 9, noOwner, 0⟩, false⟩ : RangeBucketRecord).deserialize.run (bytes ++ []) =
          some (⟨some ⟨1, 3, 2, 5⟩, true⟩, []) := by
  have reached : Reached Asserted (⟨1, 3, 2, 5⟩ : BucketInfo) :=
    Reachable.next (a := .setDirty 2 5) (Reachable.start ⟨1, 3, rfl⟩) ⟨trivial, rfl⟩
  obtain ⟨newer, -, back⟩ := ownership_moves_forward.2 _ reached
  exact ⟨reached, newer (by decide), back true _ []⟩

/-- `Set` over an owner on its way leaves that owner behind the new version, and the bucket is
not read back as it was. -/
theorem set_over_dirty_owner :
    ∃ b, Reached (fun _ _ => True) b ∧ b.dirtyBucketOwner ≠ noOwner ∧
      ¬ b.version < b.dirtyVersion ∧
      ∃ bytes back, RangeBucketRecord.serialize ⟨some b, true⟩ = some bytes ∧
        (⟨none, false⟩ : RangeBucketRecord).deserialize.run bytes = some (⟨some back, true⟩, []) ∧
        back.dirtyVersion ≠ b.dirtyVersion := by
  have dirty : Reached (fun _ _ => True) (⟨1, 3, 2, 5⟩ : BucketInfo) :=
    Reachable.next (a := .setDirty 2 5) (Reachable.start ⟨1, 3, rfl⟩) ⟨trivial, rfl⟩
  have past : Reached (fun _ _ => True) (⟨3, 7, 2, 5⟩ : BucketInfo) :=
    Reachable.next (a := .set 3 7) dirty ⟨trivial, rfl⟩
  exact ⟨_, past, by decide, by decide, _, ⟨3, 7, noOwner, 0⟩, rfl, rfl, by decide⟩

end BucketInfo

end TxService
