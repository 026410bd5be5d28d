import TxService.BucketMigration

/-!
# Records that are in memory

While `ccm_has_full_entries_` is set, the keys of the node group that have a live record in
the store are in the map. Commits, reads, checkpoints and uploads keep it that way.
-/

namespace TxService

open Transition

universe u v x

variable {K : Type v} {V : Type u} {B : Type x}

namespace SyncEntry

variable {e : SyncEntry V} {ts : Nat} {status : RecordStatus}

theorem commit_later (later : e.commitTs < ts) (payload : Option V) :
    e.commit ts status payload = ⟨⟨payload, ts, status, []⟩, false⟩ := by
  simp [commit, withBuffered, setCommitTsPayloadStatus, ObjectEntry.setCommitTsPayloadStatus, later]

section
variable (plain : e.bufferedCmds = [])
include plain

theorem commitBufferedCommands_plain (covers : ts ≤ e.commitTs) :
    e.commitBufferedCommands ts = e := by
  simp only [commitBufferedCommands, plain, commitInOrder, withBuffered, setCommitTsPayloadStatus,
    ObjectEntry.setCommitTsPayloadStatus, Nat.not_lt.mpr covers, if_false, decide_false]
  rw [← plain, Bool.not_false, Bool.and_true]

theorem filled_plain :
    (e.filled ts status).bufferedCmds = [] ∧ ts ≤ (e.filled ts status).commitTs ∧
      ((e.filled ts status).payloadStatus ≠ e.payloadStatus → (e.filled ts status).flushed = true) := by
  unfold filled setCkptTs setCommitTsPayloadStatus ObjectEntry.setCommitTsPayloadStatus
  by_cases later : e.commitTs < ts
  · simp [later, plain]
  · simp [later, plain, Nat.le_of_not_lt later]

theorem backFill_plain (unknown : e.payloadStatus = .unknown) (schemaTs : Nat) (record : Option V) :
    (e.backFill schemaTs true ts status record).bufferedCmds = [] ∧
      ((e.backFill schemaTs true ts status record).payloadStatus ≠ .unknown →
        (e.backFill schemaTs true ts status record).flushed = true) := by
  obtain ⟨empty, covers, flushed⟩ : (e.filled ts status).bufferedCmds = [] ∧ _ := filled_plain plain
  unfold backFill
  split
  · exact ⟨plain, fun known => absurd unknown known⟩
  · split
    · exact ⟨plain, fun known => absurd unknown known⟩
    · simp only [if_true]
      rw [commitBufferedCommands_plain]
      · exact ⟨rfl, fun known => flushed (unknown ▸ known)⟩
      · simp [withBuffered, remaining, empty]
      · exact covers

theorem upload_later {row : UploadRow K V} (later : e.commitTs < row.commitTs) :
    e.upload true row =
      ⟨⟨if row.status = .normal then row.record else none, row.commitTs, row.status, []⟩, true⟩ := by
  simp only [upload, if_neg (Nat.not_le.mpr later), if_true]
  rw [commitBufferedCommands_plain]
  · simp [withBuffered, setCkptTs, setCommitTsPayloadStatus, ObjectEntry.setCommitTsPayloadStatus,
      later, plain]
  · simp [withBuffered, setCkptTs, setCommitTsPayloadStatus, plain]
  · simp [withBuffered, setCkptTs, setCommitTsPayloadStatus, ObjectEntry.setCommitTsPayloadStatus,
      later]

theorem upload_plain (row : UploadRow K V) :
    row.commitTs ≤ e.commitTs ∧ e.upload true row = e ∨
      e.commitTs < row.commitTs ∧ (e.upload true row).bufferedCmds = [] ∧
        (e.upload true row).flushed = true ∧ (e.upload true row).commitTs = row.commitTs := by
  by_cases older : row.commitTs ≤ e.commitTs
  · exact Or.inl ⟨older, if_pos older⟩
  · have later : e.commitTs < row.commitTs := Nat.lt_of_not_le older
    rw [upload_later plain later]
    exact Or.inr ⟨later, rfl, rfl, rfl⟩

end

end SyncEntry

namespace MigratedTable

section
variable (mapKeyToBucketId : K → B) (getTTL : V → Option Nat) (w : MigratedTable K V B)

/-- The key has a known entry no older than what was committed elsewhere; one that is
flushed is the record of the store. -/
def Covered (key : K) : Prop :=
  ∃ e, w.cache.entries key = some e ∧ e.payloadStatus ≠ .unknown ∧ w.inherited key ≤ e.commitTs ∧
    (e.flushed = true → e.payloadStatus = .normal ∧ e.curPayload = (w.store key).payload)

/-- A key without an entry, or with an unknown one, has no live record in the store. -/
def MissesRight : Prop :=
  w.cache.ccmHasFullEntries = true → ∀ key, w.owns (mapKeyToBucketId key) →
    (∀ e, w.cache.entries key = some e → e.payloadStatus = .unknown) →
      (w.store key).live getTTL w.now = false

/-- A row that is exported is of an entry that is still dirty. -/
structure ExportSound (key : K) (row : StoredRecord V) (e : SyncEntry V) : Prop where
  entry : w.cache.entries key = some e
  known : e.payloadStatus ≠ .unknown
  dirty : e.flushed = false
  version : row.version ≤ e.commitTs
  payload : row.version = e.commitTs →
    row.payload = if e.payloadStatus = .normal then e.curPayload else none

structure Complete : Prop where
  covered : w.cache.ccmHasFullEntries = true → ∀ key, w.owns (mapKeyToBucketId key) →
    (w.store key).live getTTL w.now = true → Covered w key
  exported : ∀ key row, w.exported key = some row →
    w.owns (mapKeyToBucketId key) ∧ ∃ e, ExportSound w key row e
  dirty : ∀ key e, w.owns (mapKeyToBucketId key) → w.cache.entries key = some e →
    e.payloadStatus ≠ .unknown → e.flushed = false → w.inherited key ≤ e.commitTs
  plain : ∀ key e, w.cache.entries key = some e → e.bufferedCmds = []

end

section
variable {mapKeyToBucketId : K → B} {getTTL : V → Option Nat} {w w' : MigratedTable K V B}

theorem plain_findEmplace (h : Complete mapKeyToBucketId getTTL w) (key : K) :
    (w.cache.findEmplace key).bufferedCmds = [] := by
  unfold ObjectCache.findEmplace
  cases found : w.cache.entries key with
  | none => rfl
  | some e => exact h.plain key e found

variable {e : SyncEntry V}

/-- An entry that is not known is known to be in the store, or not to be there. -/
theorem fetchKv_plain (c : ObjectCache K V B) (getTTL : V → Option Nat) (now : Nat)
    (stored : StoredRecord V) (unknown : e.payloadStatus = .unknown) (plain : e.bufferedCmds = []) :
    (c.fetchKv getTTL now stored e).bufferedCmds = [] ∧
      ((c.fetchKv getTTL now stored e).payloadStatus ≠ .unknown →
        (c.fetchKv getTTL now stored e).flushed = true) := by
  unfold ObjectCache.fetchKv
  rw [if_pos unknown]
  split
  · obtain ⟨empty, -, flushed⟩ := SyncEntry.filled_plain plain
    exact ⟨empty, fun known => flushed (unknown ▸ known)⟩
  · split <;> exact SyncEntry.backFill_plain plain unknown _ _

variable [DecidableEq K] {key : K}

section
variable (h : Complete mapKeyToBucketId getTTL w)
include h

theorem Complete.with_entry {committed : K → Nat}
    (new : w' = { w with cache := w.cache.setEntry key e, committed := committed })
    (covered : w.cache.ccmHasFullEntries = true → w.owns (mapKeyToBucketId key) →
      (w.store key).live getTTL w.now = true → e.payloadStatus ≠ .unknown ∧
        w.inherited key ≤ e.commitTs ∧
        (e.flushed = true → e.payloadStatus = .normal ∧ e.curPayload = (w.store key).payload))
    (exported : ∀ row, w.exported key = some row → ExportSound w' key row e)
    (dirty : w.owns (mapKeyToBucketId key) → e.payloadStatus ≠ .unknown → e.flushed = false →
      w.inherited key ≤ e.commitTs) (plain : e.bufferedCmds = []) :
    Complete mapKeyToBucketId getTTL w' := by
  subst new
  have here : (w.cache.setEntry key e).entries key = some e := Function.update_self ..
  have there (k : K) (other : k ≠ key) : (w.cache.setEntry key e).entries k = w.cache.entries k :=
    Function.update_of_ne other ..
  refine ⟨?_, ?_, ?_, ?_⟩
  · intro full k owned live
    by_cases same : k = key
    · subst same
      exact ⟨e, here, covered full owned live⟩
    · obtain ⟨e', found, rest⟩ := h.covered full k owned live
      exact ⟨e', (there k same).trans found, rest⟩
  · intro k row pending
    obtain ⟨owned, e', sound⟩ := h.exported k row pending
    refine ⟨owned, ?_⟩
    by_cases same : k = key
    · subst same
      exact ⟨e, exported row pending⟩
    · exact ⟨e', (there k same).trans sound.entry, sound.known, sound.dirty, sound.version,
        sound.payload⟩
  · intro k e' owned found
    by_cases same : k = key
    · subst same
      cases here.symm.trans found
      exact dirty owned
    · exact h.dirty k e' owned ((there k same).symm.trans found)
  · intro k e' found
    by_cases same : k = key
    · subst same
      cases here.symm.trans found
      exact plain
    · exact h.plain k e' ((there k same).symm.trans found)

/-- The entry stays as it is, or no record is known to be live and it is flushed. -/
theorem Complete.settle (plain : e.bufferedCmds = []) (settled : w.cache.entries key = some e ∨
      (∀ e', w.cache.entries key = some e' → e'.payloadStatus = .unknown) ∧
        (e.payloadStatus ≠ .unknown → e.flushed = true)) :
    Complete mapKeyToBucketId getTTL { w with cache := w.cache.setEntry key e } := by
  rcases settled with same | ⟨unknown, flushed⟩
  · have same : w.cache.setEntry key e = w.cache := by
      unfold ObjectCache.setEntry
      rw [← same, Function.update_eq_self]
    rw [same]
    exact h
  · apply h.with_entry rfl
    · intro full owned live
      obtain ⟨e', found, known, -⟩ := h.covered full key owned live
      exact absurd (unknown e' found) known
    · intro row pending
      obtain ⟨-, e', sound⟩ := h.exported key row pending
      exact absurd (unknown e' sound.entry) sound.known
    · intro _ known dirty
      rw [flushed known] at dirty
      cases dirty
    · exact plain

theorem Complete.uploadKey {row : UploadRow K V} (older : row.commitTs ≤ w.inherited row.key) :
    Complete mapKeyToBucketId getTTL
      { w with cache := w.cache.uploadKey mapKeyToBucketId true row } := by
  unfold ObjectCache.uploadKey
  split
  · exact h
  · have plain := plain_findEmplace h row.key
    rcases SyncEntry.upload_plain plain row with ⟨stale, same⟩ | ⟨later, empty, flushed, -⟩
    · rw [same]
      unfold ObjectCache.findEmplace at plain ⊢
      cases found : w.cache.entries row.key with
      | none =>
        apply h.settle rfl
        refine Or.inr ⟨fun e there => ?_, fun known => absurd rfl known⟩
        cases found.symm.trans there
      | some e =>
        apply h.settle (h.plain row.key e found)
        exact Or.inl found
    · have old (e : SyncEntry V) (found : w.cache.entries row.key = some e) :
          e.commitTs < w.inherited row.key := by
        simp only [ObjectCache.findEmplace, found, Option.getD_some] at later
        omega
      apply h.with_entry rfl
      · intro full owned live
        obtain ⟨e, found, -, newest, -⟩ := h.covered full row.key owned live
        have := old e found
        omega
      · intro pending exported
        obtain ⟨owned, e, sound⟩ := h.exported row.key pending exported
        have := old e sound.entry
        have := h.dirty row.key e owned sound.entry sound.known sound.dirty
        omega
      · intro _ _ dirty
        rw [flushed] at dirty
        cases dirty
      · exact empty

theorem Complete.uploadBatch {rows : List (UploadRow K V)}
    (older : ∀ row ∈ rows, row.commitTs ≤ w.inherited row.key) :
    Complete mapKeyToBucketId getTTL
      { w with cache := w.cache.executeUploadBatchCc mapKeyToBucketId true rows } := by
  induction rows generalizing w with
  | nil => exact h
  | cons row rows ih =>
    obtain ⟨here, rest⟩ := List.forall_mem_cons.mp older
    exact ih (h.uploadKey here) rest

theorem Complete.with_exported {pending : Option (StoredRecord V)}
    (sound : ∀ row, pending = some row → w.owns (mapKeyToBucketId key) ∧ ∃ e, ExportSound w key row e) :
    Complete mapKeyToBucketId getTTL
      { w with exported := Function.update w.exported key pending } := by
  refine ⟨h.covered, ?_, h.dirty, h.plain⟩
  intro k row exported
  by_cases same : k = key
  · subst same
    simp only [Function.update_self] at exported
    obtain ⟨owned, e, sound⟩ := sound row exported
    exact ⟨owned, e, sound.entry, sound.known, sound.dirty, sound.version, sound.payload⟩
  · simp only [Function.update_of_ne same] at exported
    obtain ⟨owned, e, sound⟩ := h.exported k row exported
    exact ⟨owned, e, sound.entry, sound.known, sound.dirty, sound.version, sound.payload⟩

theorem Complete.flush {row : StoredRecord V} (exported : w.exported key = some row) :
    Complete mapKeyToBucketId getTTL (w.flushed key row) := by
  obtain ⟨owned, e, sound⟩ := h.exported key row exported
  have newest := h.dirty key e owned sound.entry sound.known sound.dirty
  have here : (w.flushed key row).cache.entries key = some (e.setCkptTs row.version) := by
    simp [MigratedTable.flushed, sound.entry]
  have there (k : K) (other : k ≠ key) : (w.flushed key row).cache.entries k = w.cache.entries k :=
    Function.update_of_ne other ..
  have store (k : K) (other : k ≠ key) : (w.flushed key row).store k = w.store k :=
    Function.update_of_ne other ..
  refine ⟨?_, ?_, ?_, ?_⟩
  · intro full k owned live
    by_cases same : k = key
    · subst same
      have stored : (w.flushed k row).store k = row := Function.update_self ..
      rw [stored] at live
      refine ⟨_, here, sound.known, newest, fun flushed => ?_⟩
      have covers : e.commitTs ≤ row.version := by
        simpa [SyncEntry.setCkptTs, sound.dirty] using flushed
      have payload := sound.payload (Nat.le_antisymm sound.version covers)
      have filled : row.payload.isSome = true := (Bool.and_eq_true_iff.mp live).1
      rw [stored, payload]
      by_cases normal : e.payloadStatus = .normal
      · exact ⟨normal, (if_pos normal).symm⟩
      · rw [payload, if_neg normal] at filled
        cases filled
    · rw [store k same] at live
      obtain ⟨e', found, known, covers, record⟩ := h.covered full k owned live
      exact ⟨e', (there k same).trans found, known, covers, store k same ▸ record⟩
  · intro k row' pending
    by_cases same : k = key
    · subst same
      simp [MigratedTable.flushed] at pending
    · have pending : w.exported k = some row' := by
        simpa [MigratedTable.flushed, Function.update_of_ne same] using pending
      obtain ⟨owned, e', sound⟩ := h.exported k row' pending
      exact ⟨owned, e', (there k same).trans sound.entry, sound.known, sound.dirty, sound.version,
        sound.payload⟩
  · intro k e' owned found known dirty
    by_cases same : k = key
    · subst same
      cases here.symm.trans found
      exact newest
    · exact h.dirty k e' owned ((there k same).symm.trans found) known dirty
  · intro k e' found
    by_cases same : k = key
    · subst same
      cases here.symm.trans found
      exact h.plain k e sound.entry
    · exact h.plain k e' ((there k same).symm.trans found)

end

variable [DecidableEq B]

theorem Complete.commit (h : Complete mapKeyToBucketId getTTL w) {commitTs : Nat}
    {payload : Option V} (expected : Expected mapKeyToBucketId w (.commit key commitTs payload)) :
    Complete mapKeyToBucketId getTTL
      (step mapKeyToBucketId getTTL w (.commit key commitTs payload)) := by
  obtain ⟨-, inherited, -, newer⟩ := expected
  have later : (w.cache.findEmplace key).commitTs < commitTs := by
    unfold ObjectCache.findEmplace
    cases found : w.cache.entries key with
    | none => exact Nat.lt_of_le_of_lt (Nat.zero_le _) inherited
    | some e => exact newer e found
  apply h.with_entry rfl
  · intro _ _ _
    rw [SyncEntry.commit_later later]
    refine ⟨?_, Nat.le_of_lt inherited, fun flushed => by cases flushed⟩
    cases payload <;> exact RecordStatus.noConfusion
  · intro row pending
    obtain ⟨-, e, sound⟩ := h.exported key row pending
    have older := newer e sound.entry
    have version := sound.version
    refine ⟨Function.update_self .., ?_, ?_, ?_, ?_⟩ <;> rw [SyncEntry.commit_later later]
    · cases payload <;> exact RecordStatus.noConfusion
    · exact Nat.le_of_lt (Nat.lt_of_le_of_lt version older)
    · intro same
      simp only at same
      omega
  · intro _ _ _
    rw [SyncEntry.commit_later later]
    exact Nat.le_of_lt inherited
  · rw [SyncEntry.commit_later later]

theorem Complete.read (h : Complete mapKeyToBucketId getTTL w) (key : K) (skipMissing : Bool) :
    Complete mapKeyToBucketId getTTL (step mapKeyToBucketId getTTL w (.read key skipMissing)) := by
  simp only [MigratedTable.step, ObjectCache.applyCc]
  split
  · exact h
  · have plain := plain_findEmplace h key
    by_cases unknown : (w.cache.findEmplace key).payloadStatus = .unknown
    · obtain ⟨plain, flushed⟩ := fetchKv_plain w.cache getTTL w.now (w.store key) unknown plain
      apply h.settle plain
      refine Or.inr ⟨fun e found => ?_, flushed⟩
      simpa [ObjectCache.findEmplace, found] using unknown
    · rw [ObjectCache.fetchKv, if_neg unknown]
      apply h.settle plain
      unfold ObjectCache.findEmplace at unknown ⊢
      cases found : w.cache.entries key with
      | none => simp [found, SyncEntry.initial, ObjectEntry.initial] at unknown
      | some e => exact Or.inl rfl

theorem Complete.exportForCkpt (h : Complete mapKeyToBucketId getTTL w)
    (owned : w.owns (mapKeyToBucketId key)) :
    Complete mapKeyToBucketId getTTL (step mapKeyToBucketId getTTL w (.exportForCkpt key)) := by
  simp only [MigratedTable.step]
  cases found : w.cache.entries key with
  | none => exact h
  | some e =>
    simp only
    split
    · rename_i ready
      obtain ⟨dirty, known⟩ : e.flushed = false ∧ (e.payloadStatus = .normal ∨ e.payloadStatus = .deleted) := by
        simpa [SyncEntry.needCkpt] using ready.1
      apply h.with_exported
      rintro row ⟨⟩
      refine ⟨owned, e, found, ?_, dirty, Nat.le_refl _, fun _ => rfl⟩
      rcases known with known | known <;> rw [known] <;> exact RecordStatus.noConfusion
    · exact h

end

end MigratedTable

end TxService
