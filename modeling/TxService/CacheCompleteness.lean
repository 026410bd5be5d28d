import TxService.CachedRecords

/-!
# A map that holds every record

`ccm_has_full_entries_` is not cleared when a bucket arrives, so the live records of the bucket
have to be in the map by then.
-/

namespace TxService

open Transition

universe u v x

variable {K : Type v} {V : Type u} {B : Type x}

namespace MigratedTable

/-- A bucket that arrives while the flag is set has its live records in the map. -/
def Safe [DecidableEq B] (mapKeyToBucketId : K → B) (getTTL : V → Option Nat)
    (w : MigratedTable K V B) : Action K V B → Prop
  | .uploadBucketInfo b ownerNg version =>
    ¬ w.owns b → (w.uploadBucketInfo mapKeyToBucketId b ownerNg version).owns b →
      w.cache.ccmHasFullEntries = true → ∀ key, mapKeyToBucketId key = b →
        (w.store key).live getTTL w.now = true → Covered w key
  | _ => True

section
variable {mapKeyToBucketId : K → B} {getTTL : V → Option Nat} {w w' : MigratedTable K V B}

/-- The map loses some entries; the flag stays set only if they had no live record. -/
theorem Complete.with_fewer (h : Complete mapKeyToBucketId getTTL w)
    {entries : K → Option (SyncEntry V)} {full migrating : Bool} {buckets : B → MigrationBucketInfo}
    (new : w' = { w with cache := { w.cache with
      entries := entries, ccmHasFullEntries := full, bucketsMigrating := migrating, buckets := buckets } })
    (owner : ∀ b, (buckets b).bucketOwner = (w.cache.buckets b).bucketOwner)
    (fewer : ∀ key e, entries key = some e → w.cache.entries key = some e)
    (kept : ∀ key e, w.owns (mapKeyToBucketId key) → w.cache.entries key = some e →
      e.payloadStatus ≠ .unknown → e.flushed = false → entries key = some e)
    (set : full = true → w.cache.ccmHasFullEntries = true)
    (live : full = true → ∀ key e, w.owns (mapKeyToBucketId key) → w.cache.entries key = some e →
      entries key = none → (w.store key).live getTTL w.now = true → e.payloadStatus = .normal →
      e.curPayload = (w.store key).payload → False) :
    Complete mapKeyToBucketId getTTL w' := by
  subst new
  have owns (b : B) : (buckets b).bucketOwner = w.cache.ngId ↔ w.owns b := by
    rw [owner]
    rfl
  refine ⟨?_, ?_, ?_, ?_⟩
  · intro isFull key owned alive
    have owned := (owns _).mp owned
    obtain ⟨e, found, known, covers, record⟩ := h.covered (set isFull) key owned alive
    cases left : entries key with
    | some e' =>
      cases found.symm.trans (fewer key e' left)
      exact ⟨e, left, known, covers, record⟩
    | none =>
      cases dirty : e.flushed with
      | false => cases (kept key e owned found known dirty).symm.trans left
      | true =>
        obtain ⟨normal, payload⟩ := record dirty
        exact (live isFull key e owned found left alive normal payload).elim
  · intro key row pending
    obtain ⟨owned, e, sound⟩ := h.exported key row pending
    exact ⟨(owns _).mpr owned, e, kept key e owned sound.entry sound.known sound.dirty, sound.known,
      sound.dirty, sound.version, sound.payload⟩
  · exact fun key e owned found => h.dirty key e ((owns _).mp owned) (fewer key e found)
  · exact fun key e found => h.plain key e (fewer key e found)

theorem live_earlier {r : StoredRecord V} {now : Nat} (live : r.live getTTL (now + 1) = true) :
    r.live getTTL now = true := by
  obtain ⟨stored, lasts⟩ := Bool.and_eq_true_iff.mp live
  refine Bool.and_eq_true_iff.mpr ⟨stored, ?_⟩
  unfold expired at lasts ⊢
  split
  · rename_i ttl found
    simp only [found, Bool.not_eq_true', decide_eq_false_iff_not] at lasts
    simp only [Bool.not_eq_true', decide_eq_false_iff_not]
    omega
  · rfl

theorem Complete.tick (h : Complete mapKeyToBucketId getTTL w) :
    Complete mapKeyToBucketId getTTL { w with now := w.now + 1 } :=
  ⟨fun full key owned live => h.covered full key owned (live_earlier live),
    fun key row pending => by
      obtain ⟨owned, e, sound⟩ := h.exported key row pending
      exact ⟨owned, e, sound.entry, sound.known, sound.dirty, sound.version, sound.payload⟩,
    h.dirty, h.plain⟩

/-- Only keys of buckets that are not owned change. -/
theorem Complete.elsewhere (h : Complete mapKeyToBucketId getTTL w) {store : K → StoredRecord V}
    {inherited : K → Nat}
    (same : ∀ key, w.owns (mapKeyToBucketId key) →
      store key = w.store key ∧ inherited key = w.inherited key) :
    Complete mapKeyToBucketId getTTL { w with store := store, inherited := inherited } := by
  refine ⟨?_, ?_, ?_, h.plain⟩
  · intro full key owned live
    obtain ⟨stored, version⟩ := same key owned
    have live : (w.store key).live getTTL w.now = true := by simpa only [stored] using live
    obtain ⟨e, found, known, covers, record⟩ := h.covered full key owned live
    refine ⟨e, found, known, ?_, ?_⟩
    · simpa only [version] using covers
    · simpa only [stored] using record
  · intro key row pending
    obtain ⟨owned, e, sound⟩ := h.exported key row pending
    exact ⟨owned, e, sound.entry, sound.known, sound.dirty, sound.version, sound.payload⟩
  · intro key e owned found known dirty
    simpa only [(same key owned).2] using h.dirty key e owned found known dirty

variable [DecidableEq B]

/-- What a bucket that is owned afterwards has inherited stays as it is. -/
theorem inherited_uploadBucketInfo {b : B} {ownerNg version : Nat} {key : K}
    (owned : (w.uploadBucketInfo mapKeyToBucketId b ownerNg version).owns (mapKeyToBucketId key)) :
    (w.uploadBucketInfo mapKeyToBucketId b ownerNg version).inherited key = w.inherited key := by
  refine if_neg ?_
  rintro ⟨here, left, -⟩
  refine left (Eq.trans ?_ owned)
  simp [MigratedTable.uploadBucketInfo, setBucket, here]

theorem owns_uploadBucketInfo {b b' : B} (ownerNg version : Nat) (other : b' ≠ b) :
    (w.uploadBucketInfo mapKeyToBucketId b ownerNg version).owns b' ↔ w.owns b' := by
  simp [owns, MigratedTable.uploadBucketInfo, setBucket, Function.update_of_ne other]

theorem Complete.uploadBucketInfo (h : Complete mapKeyToBucketId getTTL w) {b : B}
    {ownerNg version : Nat}
    (expected : Expected mapKeyToBucketId w (.uploadBucketInfo b ownerNg version))
    (safe : Safe mapKeyToBucketId getTTL w (.uploadBucketInfo b ownerNg version)) :
    Complete mapKeyToBucketId getTTL (w.uploadBucketInfo mapKeyToBucketId b ownerNg version) := by
  refine ⟨?_, ?_, ?_, h.plain⟩
  · intro full key owned live
    have covered : Covered w key := by
      by_cases here : mapKeyToBucketId key = b
      · by_cases before : w.owns b
        · exact h.covered full key (here ▸ before) live
        · exact safe before (here ▸ owned) full key here live
      · exact h.covered full key ((owns_uploadBucketInfo ownerNg version here).mp owned) live
    obtain ⟨e, found, known, covers, record⟩ := covered
    exact ⟨e, found, known, inherited_uploadBucketInfo owned ▸ covers, record⟩
  · intro key row pending
    obtain ⟨owned, e, sound⟩ := h.exported key row pending
    have other : mapKeyToBucketId key ≠ b := by
      intro here
      cases (expected key here).1.symm.trans pending
    exact ⟨(owns_uploadBucketInfo ownerNg version other).mpr owned, e, sound.entry, sound.known,
      sound.dirty, sound.version, sound.payload⟩
  · intro key e owned found known dirty
    rw [inherited_uploadBucketInfo owned]
    by_cases before : w.owns (mapKeyToBucketId key)
    · exact h.dirty key e before found known dirty
    · by_cases here : mapKeyToBucketId key = b
      · rw [(expected key here).2 (here ▸ before) e found known] at dirty
        cases dirty
      · exact absurd ((owns_uploadBucketInfo ownerNg version here).mp owned) before

theorem Complete.uploadNewBucketInfo (h : Complete mapKeyToBucketId getTTL w) (b : B)
    (dirtyNg dirtyVersion : Nat) :
    Complete mapKeyToBucketId getTTL (w.setBucket b
      ((w.cache.buckets b).uploadNewBucketInfo w.cache.ngId dirtyNg dirtyVersion)) := by
  apply h.with_fewer rfl
  · intro b'
    by_cases here : b' = b
    · subst here
      rw [Function.update_self]
      unfold MigrationBucketInfo.uploadNewBucketInfo BucketInfo.setDirty
      simp only
      split <;> rfl
    · rw [Function.update_of_ne here]
  · exact fun key e found => found
  · exact fun key e _ found _ _ => found
  · exact id
  · intro _ key e _ found gone
    cases found.symm.trans gone

variable [DecidableEq K]

theorem marked_some {type : CleanType B} {now : Nat} {busy : List K} {key : K} {e : SyncEntry V}
    (found : w.cache.entries key = some e)
    (marked : w.cache.marked mapKeyToBucketId getTTL type now busy key = true) :
    type.isCleanTarget mapKeyToBucketId getTTL now key e = true ∧
      type.canBeCleaned (decide (key ∈ busy)) e = true := by
  unfold ObjectCache.marked at marked
  rw [found] at marked
  exact Bool.and_eq_true_iff.mp marked

theorem Complete.cleanPage (h : Complete mapKeyToBucketId getTTL w) {type : CleanType B}
    {keys busy : List K} (expected : Expected mapKeyToBucketId w (.cleanPage type keys busy)) :
    Complete mapKeyToBucketId getTTL
      (step mapKeyToBucketId getTTL w (.cleanPage type keys busy)) := by
  obtain ⟨-, elsewhere⟩ := expected
  apply h.with_fewer rfl
  · intro b
    unfold ObjectCache.kickoutBuckets
    split <;> rfl
  · intro key e found
    split at found
    · cases found
    · exact found
  · intro key e owned found known dirty
    refine (if_neg fun cleaned => ?_).trans found
    obtain ⟨target, free⟩ := marked_some found (List.mem_filter.mp cleaned).2
    cases type with
    | cleanBucketData bucketIds =>
      exact elsewhere _ (of_decide_eq_true target) owned
    | evict | cleanForAlterTable | cleanDeletedData =>
      rw [CleanType.canBeCleaned, dirty, Bool.and_false] at free
      cases free
  · intro full
    exact (Bool.and_eq_true_iff.mp full).1
  · intro full key e owned found gone live normal payload
    have valid := (Bool.and_eq_true_iff.mp full).2
    have cleaned : key ∈ keys.filter (w.cache.marked mapKeyToBucketId getTTL type w.now busy) := by
      by_contra kept
      cases (if_neg kept).symm.trans gone |>.symm.trans found
    obtain ⟨target, free⟩ := marked_some found (List.mem_filter.mp cleaned).2
    cases type with
    | cleanBucketData bucketIds => exact elsewhere _ (of_decide_eq_true target) owned
    | cleanDeletedData =>
      have lasts : expired getTTL w.now (w.store key).payload = false := by
        simpa using (Bool.and_eq_true_iff.mp live).2
      rw [CleanType.isCleanTarget, payload, lasts] at target
      simp [normal] at target
    | evict | cleanForAlterTable =>
      have evicted : ((keys.filter _).any fun key => (w.cache.entries key).any fun e =>
          e.payloadStatus == .normal) = true :=
        List.any_eq_true.mpr ⟨key, cleaned, by simp [found, normal]⟩
      rw [evicted] at valid
      cases valid

theorem Complete.truncate (h : Complete mapKeyToBucketId getTTL w) {cleanTs : Nat}
    (idle : ∀ key, w.exported key = none) :
    Complete mapKeyToBucketId getTTL (step mapKeyToBucketId getTTL w (.truncate cleanTs)) := by
  simp only [MigratedTable.step, ObjectCache.truncate]
  split
  · exact h
  · refine ⟨?_, ?_, ?_, ?_⟩
    · intro _ key _ live
      cases live
    · intro key row pending
      cases (idle key).symm.trans pending
    · intro key e _ found
      cases found
    · intro key e found
      cases found

theorem Complete.step (h : Complete mapKeyToBucketId getTTL w) {action : Action K V B}
    (expected : Expected mapKeyToBucketId w action) (safe : Safe mapKeyToBucketId getTTL w action) :
    Complete mapKeyToBucketId getTTL (step mapKeyToBucketId getTTL w action) := by
  cases action with
  | tick => exact h.tick
  | truncate cleanTs => exact h.truncate expected
  | commit key commitTs payload => exact h.commit expected
  | exportForCkpt key => exact h.exportForCkpt expected
  | flush key failed =>
    simp only [MigratedTable.step]
    cases exported : w.exported key with
    | none => exact h
    | some row =>
      cases failed with
      | true => exact h.with_exported fun _ row => by cases row
      | false => exact h.flush exported
  | read key skipMissing => exact h.read key skipMissing
  | cleanPage type keys busy => exact h.cleanPage expected
  | setBucketMigrating isMigrating =>
    apply h.with_fewer rfl
    · exact fun _ => rfl
    · exact fun key e found => found
    · exact fun key e _ found _ _ => found
    · exact id
    · intro _ key e _ found gone
      cases found.symm.trans gone
  | uploadNewBucketInfo b dirtyNg dirtyVersion => exact h.uploadNewBucketInfo b dirtyNg dirtyVersion
  | uploadBucketInfo b ownerNg version => exact h.uploadBucketInfo expected safe
  | uploadBatch rows => exact h.uploadBatch expected
  | otherCommit key version =>
    apply h.elsewhere
    intro k owned
    have other : k ≠ key := fun same => expected.1 (same ▸ owned)
    exact ⟨rfl, Function.update_of_ne other ..⟩
  | otherFlush key record =>
    apply h.elsewhere
    intro k owned
    have other : k ≠ key := fun same => expected (same ▸ owned)
    exact ⟨Function.update_of_ne other .., rfl⟩

theorem ReachedBy.complete
    (h : ReachedBy mapKeyToBucketId getTTL (Safe mapKeyToBucketId getTTL) w) :
    Complete mapKeyToBucketId getTTL w := by
  refine h.invariant ?_ ?_
  · rintro _ ⟨ngId, schemaTs, buckets, store, rfl⟩
    refine ⟨?_, ?_, ?_, ?_⟩
    · intro full
      cases full
    · intro key row pending
      cases pending
    · intro key e _ found
      cases found
    · intro key e found
      cases found
  · rintro w action _ ⟨⟨expected, safe⟩, rfl⟩ complete
    exact complete.step expected safe

/-- While the flag is set, a key of the node group that has no entry, or only an unknown one,
has no live record in the store. -/
theorem full_entries_truthful
    (h : ReachedBy mapKeyToBucketId getTTL (Safe mapKeyToBucketId getTTL) w) :
    MissesRight mapKeyToBucketId getTTL w := by
  intro full key owned unknown
  cases live : (w.store key).live getTTL w.now with
  | false => rfl
  | true =>
    obtain ⟨e, found, known, -⟩ := h.complete.covered full key owned live
    exact absurd (unknown e found) known

end

/-- The record of a bucket is uploaded before the bucket arrives. -/
theorem uploaded_bucket_truthful :
    ∃ w : MigratedTable Nat Nat Nat, ReachedBy id (fun _ => none) (Safe id fun _ => none) w ∧
      w.cache.ccmHasFullEntries = true ∧ w.owns 1 ∧ (w.store 1).live (fun _ => none) w.now = true ∧
      MissesRight id (fun _ => none) w := by
  have started : ReachedBy id (fun _ => none) (Safe id fun _ => none) elsewhere := .start ⟨_, _, _, _, rfl⟩
  have truncated := started.onward (.truncate 5) (fun _ => rfl) trivial
  have migrating := truncated.onward (.uploadNewBucketInfo 1 1 2) trivial trivial
  have written := migrating.onward (.otherCommit 1 10) ⟨by decide, by decide, by decide⟩ trivial
  have flushed := written.onward (.otherFlush 1 ⟨10, some 7⟩)
    (fun owned => absurd owned (by decide)) trivial
  have uploaded := flushed.onward (.uploadBatch [⟨1, .normal, some 7, 10⟩]) (by
    intro row mem
    cases List.mem_singleton.mp mem
    decide) trivial
  have arrived := uploaded.onward (.uploadBucketInfo 1 1 2) (by
    rintro key ⟨⟩
    refine ⟨rfl, fun _ e found _ => ?_⟩
    cases found
    rfl) (by
    rintro _ _ _ key ⟨⟩ _
    exact ⟨_, rfl, RecordStatus.noConfusion, Nat.le_refl _, fun _ => ⟨rfl, rfl⟩⟩)
  exact ⟨_, arrived, rfl, rfl, rfl, full_entries_truthful arrived⟩

/-- The upload is lost: the flag is still set when the bucket arrives, and its record is
taken as not existing. -/
theorem arriving_bucket_missed :
    ∃ w : MigratedTable Nat Nat Nat, ReachedBy id (fun _ => none) (fun _ _ => True) w ∧
      w.cache.ccmHasFullEntries = true ∧ w.owns 1 ∧ w.cache.entries 1 = none ∧
      (w.store 1).live (fun _ => none) w.now = true ∧
      (w.cache.applyCc (fun _ => none) w.now (w.store 1) 1 true).1 = .deleted ∧
      ¬ MissesRight id (fun _ => none) w := by
  have started : ReachedBy id (fun _ => none) (fun _ _ => True) elsewhere := .start ⟨_, _, _, _, rfl⟩
  have truncated := started.onward (.truncate 5) (fun _ => rfl) trivial
  have migrating := truncated.onward (.uploadNewBucketInfo 1 1 2) trivial trivial
  have written := migrating.onward (.otherCommit 1 10) ⟨by decide, by decide, by decide⟩ trivial
  have flushed := written.onward (.otherFlush 1 ⟨10, some 7⟩)
    (fun owned => absurd owned (by decide)) trivial
  have arrived := flushed.onward (.uploadBucketInfo 1 1 2) (by
    rintro key ⟨⟩
    refine ⟨rfl, fun _ e found => ?_⟩
    cases found) trivial
  refine ⟨_, arrived, rfl, rfl, rfl, rfl, rfl, fun right => ?_⟩
  have missed := right rfl 1 rfl (fun e found => by cases found)
  cases missed

end MigratedTable

end TxService
