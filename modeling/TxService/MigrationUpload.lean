import TxService.CachedRecords

/-!
# Uploads of a bucket that migrates

The old owner of a bucket sends what it had in memory, at any time. An upload is tested
against the entry in memory, and a key that has none depends on the bucket to reject it.
-/

namespace TxService

open Transition

universe u v x

variable {K : Type v} {V : Type u} {B : Type x}

namespace MigratedTable

/-- Reads and truncations make entries that no commit and no upload has made. -/
def Action.writes : Action K V B → Prop
  | .read _ _ | .truncate _ => False
  | _ => True

/-- No key that was committed here leaves the memory while its bucket accepts uploads, or
has left it when its bucket begins to. -/
def Uploadable [DecidableEq K] [DecidableEq B] (mapKeyToBucketId : K → B) (getTTL : V → Option Nat)
    (w : MigratedTable K V B) : Action K V B → Prop
  | .cleanPage type keys busy =>
    ∀ key ∈ keys, w.cache.marked mapKeyToBucketId getTTL type w.now busy key = true →
      (w.cache.buckets (mapKeyToBucketId key)).acceptsUploadBatch = true → w.committed key = 0
  | .uploadNewBucketInfo b dirtyNg _ =>
    dirtyNg = w.cache.ngId → ∀ key, mapKeyToBucketId key = b → w.committed key ≠ 0 →
      w.cache.entries key ≠ none
  | _ => True

/-- No entry is older than what was committed here. -/
def Latest (w : MigratedTable K V B) : Prop :=
  ∀ key, ∀ e ∈ w.cache.entries key, w.committed key ≤ e.commitTs

structure Guarded (mapKeyToBucketId : K → B) (w : MigratedTable K V B) : Prop where
  latest : Latest w
  present : ∀ key, (w.cache.buckets (mapKeyToBucketId key)).acceptsUploadBatch = true →
    w.committed key ≠ 0 → w.cache.entries key ≠ none
  plain : ∀ key, ∀ e ∈ w.cache.entries key, e.bufferedCmds = []

section
variable {mapKeyToBucketId : K → B} {getTTL : V → Option Nat} {w w' : MigratedTable K V B}

/-- A bucket begins to accept uploads only if it migrates to this node group. -/
theorem acceptsUploadBatch_uploadNewBucketInfo {info : MigrationBucketInfo} {ngId dirtyNg dirtyVersion : Nat}
    (accepts : (info.uploadNewBucketInfo ngId dirtyNg dirtyVersion).acceptsUploadBatch = true) :
    dirtyNg = ngId ∨ info.acceptsUploadBatch = true := by
  by_cases here : dirtyNg = ngId
  · exact Or.inl here
  · exact Or.inr ((if_neg here).symm.trans accepts)

theorem acceptsUploadBatch_kickoutBuckets [DecidableEq B] {c : ObjectCache K V B} {keys : List K} {b : B}
    (accepts : (c.kickoutBuckets mapKeyToBucketId keys b).acceptsUploadBatch = true) :
    (c.buckets b).acceptsUploadBatch = true := by
  unfold ObjectCache.kickoutBuckets at accepts
  split at accepts
  · cases accepts
  · exact accepts

/-- The map loses entries of keys that were not committed here or accept no uploads. -/
theorem Guarded.with_fewer (h : Guarded mapKeyToBucketId w)
    (same : w'.committed = w.committed)
    (fewer : ∀ key, ∀ e ∈ w'.cache.entries key, w.cache.entries key = some e)
    (present : ∀ key, (w'.cache.buckets (mapKeyToBucketId key)).acceptsUploadBatch = true →
      w.committed key ≠ 0 → w'.cache.entries key ≠ none) :
    Guarded mapKeyToBucketId w' :=
  ⟨fun key e found => same ▸ h.latest key e (fewer key e found),
    fun key accepts stored => present key accepts (same ▸ stored),
    fun key e found => h.plain key e (fewer key e found)⟩

theorem Guarded.setBucket [DecidableEq B] (h : Guarded mapKeyToBucketId w) {b : B}
    {info : MigrationBucketInfo} {inherited : K → Nat}
    (present : ∀ key, mapKeyToBucketId key = b → info.acceptsUploadBatch = true →
      w.committed key ≠ 0 → w.cache.entries key ≠ none) :
    Guarded mapKeyToBucketId { w.setBucket b info with inherited := inherited } := by
  refine h.with_fewer rfl ?_ ?_
  · exact fun key e found => found
  · intro key accepts stored
    by_cases here : mapKeyToBucketId key = b
    · subst here
      simp only [MigratedTable.setBucket, Function.update_self] at accepts
      exact present key rfl accepts stored
    · simp only [MigratedTable.setBucket, Function.update_of_ne here] at accepts
      exact h.present key accepts stored

theorem Guarded.plain_findEmplace (h : Guarded mapKeyToBucketId w) (key : K) :
    (w.cache.findEmplace key).bufferedCmds = [] := by
  unfold ObjectCache.findEmplace
  cases found : w.cache.entries key with
  | none => rfl
  | some e => exact h.plain key e found

variable [DecidableEq K]

section
variable (h : Guarded mapKeyToBucketId w)
include h

theorem Guarded.with_entry {key : K} {e : SyncEntry V} {committed : K → Nat}
    (new : w' = { w with cache := w.cache.setEntry key e, committed := committed })
    (same : ∀ k, k ≠ key → committed k = w.committed k) (covers : committed key ≤ e.commitTs)
    (plain : e.bufferedCmds = []) : Guarded mapKeyToBucketId w' := by
  subst new
  refine ⟨?_, ?_, ?_⟩
  · intro k e' found
    by_cases here : k = key
    · subst here
      cases (Function.update_self ..).symm.trans found
      exact covers
    · have before : w.cache.entries k = some e' := (Function.update_of_ne here ..).symm.trans found
      exact Nat.le_trans (Nat.le_of_eq (same k here)) (h.latest k e' before)
  · intro k accepts stored
    by_cases here : k = key
    · subst here
      exact fun absent => by cases (Function.update_self ..).symm.trans absent
    · have kept : Function.update w.cache.entries key (Option.some e) k = w.cache.entries k :=
        Function.update_of_ne here ..
      exact fun absent => h.present k accepts (same k here ▸ stored) (kept.symm.trans absent)
  · intro k e' found
    by_cases here : k = key
    · subst here
      cases (Function.update_self ..).symm.trans found
      exact plain
    · exact h.plain k e' ((Function.update_of_ne here ..).symm.trans found)

/-- A key that accepts an upload without an entry was not committed here. -/
theorem Guarded.uploadKey (row : UploadRow K V) :
    Guarded mapKeyToBucketId { w with cache := w.cache.uploadKey mapKeyToBucketId true row } := by
  unfold ObjectCache.uploadKey
  split
  · exact h
  · rename_i accepted
    have accepts : (w.cache.buckets (mapKeyToBucketId row.key)).acceptsUploadBatch = true := by
      simpa using fun rejects => accepted (Or.inr rejects)
    have covers : w.committed row.key ≤ (w.cache.findEmplace row.key).commitTs := by
      unfold ObjectCache.findEmplace
      cases found : w.cache.entries row.key with
      | some e => exact h.latest row.key e found
      | none =>
        have never : w.committed row.key = 0 := by
          by_contra stored
          exact h.present row.key accepts stored found
        rw [never]
        exact Nat.zero_le _
    have plain := h.plain_findEmplace row.key
    apply h.with_entry rfl fun _ _ => rfl
    · rcases SyncEntry.upload_plain plain row with ⟨-, same⟩ | ⟨later, -, -, version⟩
      · rwa [same]
      · rw [version]
        exact Nat.le_trans covers (Nat.le_of_lt later)
    · rcases SyncEntry.upload_plain plain row with ⟨-, same⟩ | ⟨-, empty, -⟩
      · rwa [same]
      · exact empty

theorem Guarded.uploadBatch (rows : List (UploadRow K V)) :
    Guarded mapKeyToBucketId
      { w with cache := w.cache.executeUploadBatchCc mapKeyToBucketId true rows } := by
  induction rows generalizing w with
  | nil => exact h
  | cons row rows ih => exact ih (h.uploadKey row)

theorem Guarded.commit {key : K} {commitTs : Nat} {payload : Option V}
    (later : w.committed key < commitTs) (newer : ∀ e ∈ w.cache.entries key, e.commitTs < commitTs) :
    Guarded mapKeyToBucketId { w with
      cache := w.cache.commit key commitTs payload
      committed := Function.update w.committed key commitTs } := by
  have later : (w.cache.findEmplace key).commitTs < commitTs := by
    unfold ObjectCache.findEmplace
    cases found : w.cache.entries key with
    | none => exact Nat.lt_of_le_of_lt (Nat.zero_le _) later
    | some e => exact newer e found
  apply h.with_entry rfl
  · exact fun k other => Function.update_of_ne other ..
  · rw [SyncEntry.commit_later later, Function.update_self]
  · rw [SyncEntry.commit_later later]

theorem Guarded.flushed (key : K) (row : StoredRecord V) :
    Guarded mapKeyToBucketId (w.flushed key row) := by
  cases found : w.cache.entries key with
  | none =>
    have same : (w.flushed key row).cache.entries = w.cache.entries := by
      simp [MigratedTable.flushed, found]
    refine h.with_fewer rfl ?_ ?_
    · exact fun k e there => same ▸ there
    · exact fun k accepts stored => same ▸ h.present k accepts stored
  | some e =>
    have stored : w.flushed key row = { { w with
        store := Function.update w.store key row
        exported := Function.update w.exported key none } with
        cache := w.cache.setEntry key (e.setCkptTs row.version)
        committed := w.committed } := by
      simp [MigratedTable.flushed, ObjectCache.setEntry, found]
    have version : (e.setCkptTs row.version).commitTs = e.commitTs := rfl
    exact Guarded.with_entry (w := { w with
      store := Function.update w.store key row
      exported := Function.update w.exported key none }) ⟨h.latest, h.present, h.plain⟩ stored
      (fun _ _ => rfl) (version ▸ h.latest key e found) (h.plain key e found)

end

variable [DecidableEq B]

theorem Guarded.cleanPage (h : Guarded mapKeyToBucketId w) {type : CleanType B} {keys busy : List K}
    (safe : Uploadable mapKeyToBucketId getTTL w (.cleanPage type keys busy)) :
    Guarded mapKeyToBucketId
      { w with cache := w.cache.cleanPage mapKeyToBucketId getTTL type w.now keys busy } := by
  refine h.with_fewer rfl ?_ ?_
  · intro key e found
    simp only [ObjectCache.cleanPage] at found
    split at found
    · cases found
    · exact found
  · intro key accepts stored
    have accepts := acceptsUploadBatch_kickoutBuckets accepts
    have kept : key ∉ keys.filter (w.cache.marked mapKeyToBucketId getTTL type w.now busy) := by
      intro cleaned
      obtain ⟨mem, marked⟩ := List.mem_filter.mp cleaned
      exact stored (safe key mem marked accepts)
    simp only [ObjectCache.cleanPage, if_neg kept]
    exact h.present key accepts stored

theorem Guarded.step (h : Guarded mapKeyToBucketId w) {action : Action K V B}
    (expected : Expected mapKeyToBucketId w action) (writes : action.writes)
    (safe : Uploadable mapKeyToBucketId getTTL w action) :
    Guarded mapKeyToBucketId (step mapKeyToBucketId getTTL w action) := by
  have same {w' : MigratedTable K V B} (cache : w'.cache.entries = w.cache.entries)
      (buckets : w'.cache.buckets = w.cache.buckets) (committed : w'.committed = w.committed) :
      Guarded mapKeyToBucketId w' := by
    refine h.with_fewer committed ?_ ?_
    · exact fun key e found => cache ▸ found
    · exact fun key accepts stored => cache ▸ h.present key (buckets ▸ accepts) stored
  cases action with
  | tick | setBucketMigrating isMigrating | otherCommit key version | otherFlush key record =>
    exact same rfl rfl rfl
  | truncate cleanTs => exact writes.elim
  | read key skipMissing => exact writes.elim
  | commit key commitTs payload =>
    obtain ⟨-, -, later, newer⟩ := expected
    exact h.commit later newer
  | exportForCkpt key =>
    simp only [MigratedTable.step]
    split
    · exact h
    · split
      · exact same rfl rfl rfl
      · exact h
  | flush key failed =>
    simp only [MigratedTable.step]
    split
    · exact h
    · split
      · exact same rfl rfl rfl
      · exact h.flushed key _
  | cleanPage type keys busy => exact h.cleanPage safe
  | uploadNewBucketInfo b dirtyNg dirtyVersion =>
    apply Guarded.setBucket h
    intro key here accepts stored
    rcases acceptsUploadBatch_uploadNewBucketInfo accepts with arrives | accepts
    · exact safe arrives key here stored
    · exact h.present key (here ▸ accepts) stored
  | uploadBucketInfo b ownerNg version =>
    apply Guarded.setBucket h
    intro key here accepts stored
    exact h.present key (here ▸ accepts) stored
  | uploadBatch rows => exact h.uploadBatch rows

/-- In every run in which no committed key is evicted from a bucket that accepts uploads, no
entry in memory is older than what was committed here. -/
theorem upload_keeps_latest
    (h : ReachedBy mapKeyToBucketId getTTL
      (fun w action => action.writes ∧ Uploadable mapKeyToBucketId getTTL w action) w) :
    Latest w := by
  have guarded : Guarded mapKeyToBucketId w := by
    refine h.invariant ?_ ?_
    · rintro _ ⟨ngId, schemaTs, buckets, store, rfl⟩
      refine ⟨?_, ?_, ?_⟩
      · intro key e found
        cases found
      · exact fun key _ stored => absurd rfl stored
      · intro key e found
        cases found
    · rintro w action _ ⟨⟨expected, writes, safe⟩, rfl⟩ guarded
      exact guarded.step expected writes safe
  exact guarded.latest

end

/-- The version that was committed here is still in memory when the older one arrives. -/
theorem late_upload_discarded :
    ∃ w : MigratedTable Nat Nat Nat,
      ReachedBy id (fun _ => none)
        (fun w action => action.writes ∧ Uploadable id (fun _ => none) w action) w ∧
      w.owns 1 ∧ w.committed 1 = 20 ∧ (w.cache.entries 1).isSome ∧ Latest w := by
  have started : ReachedBy id (fun _ => none)
    (fun w action => action.writes ∧ Uploadable id (fun _ => none) w action) elsewhere :=
      .start ⟨_, _, _, _, rfl⟩
  have migrating := started.onward (.uploadNewBucketInfo 1 1 2) trivial
    ⟨trivial, fun _ _ _ stored => absurd rfl stored⟩
  have written := migrating.onward (.otherCommit 1 10) ⟨by decide, by decide, by decide⟩
    ⟨trivial, trivial⟩
  have arrived := written.onward (.uploadBucketInfo 1 1 2)
    (fun _ _ => ⟨rfl, fun _ e found => by cases found⟩) ⟨trivial, trivial⟩
  have committed := arrived.onward (.commit 1 20 (some 8))
    ⟨rfl, by decide, by decide, fun e found => by cases found⟩ ⟨trivial, trivial⟩
  have uploaded := committed.onward (.uploadBatch [⟨1, .normal, some 7, 10⟩]) (by
    intro row mem
    cases List.mem_singleton.mp mem
    decide) ⟨trivial, trivial⟩
  exact ⟨_, uploaded, rfl, rfl, rfl, upload_keeps_latest uploaded⟩

/-- The committed version is flushed and evicted; the bucket still accepts the older one. -/
theorem evicted_version_resurrected :
    ∃ w : MigratedTable Nat Nat Nat, ReachedBy id (fun _ => none) (fun _ action => action.writes) w ∧
      w.owns 1 ∧ w.committed 1 = 20 ∧ (w.store 1).version = 20 ∧
      (∃ e, w.cache.entries 1 = some e ∧ e.commitTs = 10 ∧ e.curPayload = some 7) ∧ ¬ Latest w := by
  have started : ReachedBy id (fun _ => none) (fun _ action => action.writes) elsewhere :=
    .start ⟨_, _, _, _, rfl⟩
  have migration := started.onward (.setBucketMigrating true) trivial trivial
  have migrating := migration.onward (.uploadNewBucketInfo 1 1 2) trivial trivial
  have written := migrating.onward (.otherCommit 1 10) ⟨by decide, by decide, by decide⟩ trivial
  have arrived := written.onward (.uploadBucketInfo 1 1 2)
    (fun _ _ => ⟨rfl, fun _ e found => by cases found⟩) trivial
  have committed := arrived.onward (.commit 1 20 (some 8))
    ⟨rfl, by decide, by decide, fun e found => by cases found⟩ trivial
  have exported := committed.onward (.exportForCkpt 1) rfl trivial
  have flushed := exported.onward (.flush 1 false) trivial trivial
  have evicted := flushed.onward (.cleanPage .evict [1] []) ⟨by
    intro key mem
    cases List.mem_singleton.mp mem
    rfl, trivial⟩ trivial
  have uploaded := evicted.onward (.uploadBatch [⟨1, .normal, some 7, 10⟩]) (by
    intro row mem
    cases List.mem_singleton.mp mem
    decide) trivial
  refine ⟨_, uploaded, rfl, rfl, rfl, ⟨_, rfl, rfl, rfl⟩, fun latest => ?_⟩
  have newer := latest 1 _ rfl
  exact absurd newer (by decide)

end MigratedTable

end TxService
