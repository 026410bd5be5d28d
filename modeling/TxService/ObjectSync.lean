import TxService.BufferedCommands
import TxService.DataSyncSlots

/-!
# Object entries under a data sync

An object entry carries one bit for the checkpoint: whether its latest version has been
flushed. Every change of its version clears the bit.
-/

namespace TxService

open KeyCursor

universe u v

structure SyncEntry (V : Type u) extends ObjectEntry V where
  flushed : Bool

variable {K : Type v} {V : Type u}

namespace SyncEntry

def needCkpt (e : SyncEntry V) : Bool :=
  !e.flushed && (e.payloadStatus == .normal || e.payloadStatus == .deleted)

def setCommitTsPayloadStatus (e : SyncEntry V) (ts : Nat) (status : RecordStatus) : SyncEntry V where
  toObjectEntry := e.toObjectEntry.setCommitTsPayloadStatus ts status
  flushed := e.flushed && !decide (e.commitTs < ts)

def setCkptTs (e : SyncEntry V) (ts : Nat) : SyncEntry V :=
  { e with flushed := e.flushed || decide (e.commitTs ≤ ts) }

/-- The row that `ExportForCkpt` makes of an entry that is not versioned. -/
def flushRecord (e : SyncEntry V) (key : K) : FlushRecord K V :=
  ⟨key, if e.payloadStatus = .normal then e.curPayload else none, e.payloadStatus, e.commitTs, true⟩

/-- What the scan does at an entry. Commands that are still buffered keep the entry from
being exported; when the last of them is to be synced, the log is kept for an unknown
record, and the commands are dropped if the record has expired in the store. -/
def syncAt (dataSyncTs : Nat) (x : CcItem K (SyncEntry V)) : SyncVisit K V (SyncEntry V) :=
  match x.entry.bufferedCmds.getLast? with
  | some back =>
    if dataSyncTs < back.newVersion then .pass x.entry
    else if x.entry.payloadStatus = .unknown then .keepLog
    else if x.entry.payloadStatus = .deleted ∧ x.entry.commitTs = 1 then
      .pass { x.entry with bufferedCmds := [] }
    else .pass x.entry
  | none =>
    if x.entry.needCkpt then
      .ckpt x.entry fun vecs => vecs.addBase (x.entry.flushRecord x.key)
    else .pass x.entry

/-- `Execute(DataSyncScanCc)` at an entry. -/
def visit (req : DataSyncScanCc K V) (x : CcItem K (SyncEntry V)) :
    SyncVisit K V (SyncEntry V) :=
  if req.wants x.key then syncAt req.dataSyncTs x else .pass x.entry

section
variable {dataSyncTs : Nat} {x : CcItem K (SyncEntry V)}

theorem visit_plain {req : DataSyncScanCc K V} (plain : req.filterLambda = none) :
    visit req = syncAt req.dataSyncTs := by
  funext x
  simp [visit, DataSyncScanCc.wants, plain]

theorem syncAt_ready (ready : x.entry.bufferedCmds = []) (dirty : x.entry.needCkpt = true) :
    syncAt dataSyncTs x = .ckpt x.entry fun vecs => vecs.addBase (x.entry.flushRecord x.key) := by
  simp [syncAt, ready, dirty]

/-- Only an entry without buffered commands is exported, and it stays as it is. -/
theorem syncAt_ckpt {e : SyncEntry V} {rows : CkptVecs K V → CkptVecs K V}
    (visited : syncAt dataSyncTs x = .ckpt e rows) :
    x.entry.bufferedCmds = [] ∧ x.entry.needCkpt = true ∧ e = x.entry ∧
      rows = fun vecs => vecs.addBase (x.entry.flushRecord x.key) := by
  unfold syncAt at visited
  cases last : x.entry.bufferedCmds.getLast? with
  | some back =>
    simp only [last] at visited
    repeat' split at visited
    all_goals cases visited
  | none =>
    simp only [last] at visited
    split at visited
    · rename_i dirty
      cases visited
      exact ⟨List.getLast?_eq_none_iff.mp last, dirty, rfl, rfl⟩
    · cases visited

end

section
variable {dataSyncTs : Nat} {skip : Nat → Bool} {x : CcItem K (SyncEntry V)}

/-- The scan exports the entry. -/
def taken (skip : Nat → Bool) (x : CcItem K (SyncEntry V)) : Bool :=
  !skip x.page && (x.entry.bufferedCmds.isEmpty && x.entry.needCkpt)

theorem foldl_exports_rows (gone : List (CcItem K (SyncEntry V))) (vecs : CkptVecs K V) :
    (gone.foldl (ScanSlot.exports (syncAt dataSyncTs) skip) vecs).ckptVec =
      vecs.ckptVec ++ (gone.filter (taken skip)).map fun x => x.entry.flushRecord x.key := by
  induction gone generalizing vecs with
  | nil => simp
  | cons x gone ih =>
    rw [List.foldl_cons, ih]
    by_cases taken' : taken skip x = true
    · obtain ⟨looked, ready, dirty⟩ : skip x.page = false ∧ x.entry.bufferedCmds = [] ∧
          x.entry.needCkpt = true := by simpa [taken] using taken'
      rw [ScanSlot.exports, if_neg (by simp [looked]), syncAt_ready ready dirty,
        List.filter_cons_of_pos taken']
      simp [CkptVecs.addBase]
    · have same : ScanSlot.exports (syncAt dataSyncTs) skip vecs x = vecs := by
        unfold ScanSlot.exports
        split
        · rfl
        · rename_i looked
          split
          · rename_i visited
            obtain ⟨ready, dirty, _⟩ := syncAt_ckpt visited
            simp [taken, looked, ready, dirty] at taken'
          · rfl
          · rfl
      rw [same, List.filter_cons_of_neg taken']

theorem leaves_skipped (skipped : skip x.page = true) :
    ScanSlot.leaves (syncAt dataSyncTs) skip x = x := by
  rw [ScanSlot.leaves, if_pos skipped]

theorem leaves_ready (ready : x.entry.bufferedCmds = []) :
    ScanSlot.leaves (syncAt dataSyncTs) skip x = x := by
  unfold ScanSlot.leaves
  split
  · rfl
  · cases dirty : x.entry.needCkpt <;> simp [syncAt, ready, dirty]

variable {back : TxnCmd V}

theorem leaves_later (last : x.entry.bufferedCmds.getLast? = some back)
    (later : dataSyncTs < back.newVersion) : ScanSlot.leaves (syncAt dataSyncTs) skip x = x := by
  unfold ScanSlot.leaves
  split
  · rfl
  · simp [syncAt, last, later]

/-- The commands of a record that has expired in the store are dropped. -/
theorem leaves_expired (looked : skip x.page = false)
    (last : x.entry.bufferedCmds.getLast? = some back) (due : ¬ dataSyncTs < back.newVersion)
    (gone : x.entry.payloadStatus = .deleted ∧ x.entry.commitTs = 1) :
    ScanSlot.leaves (syncAt dataSyncTs) skip x =
      { x with entry := { x.entry with bufferedCmds := [] } } := by
  simp [ScanSlot.leaves, looked, syncAt, last, due, gone]

theorem leaves_stuck (looked : skip x.page = false)
    (last : x.entry.bufferedCmds.getLast? = some back) (due : ¬ dataSyncTs < back.newVersion)
    (here : ¬ (x.entry.payloadStatus = .deleted ∧ x.entry.commitTs = 1)) :
    ScanSlot.leaves (syncAt dataSyncTs) skip x = x := by
  by_cases unknown : x.entry.payloadStatus = .unknown <;>
    simp [ScanSlot.leaves, looked, syncAt, last, due, here, unknown]

/-- The scan changes an entry only to drop the commands of a deleted record. -/
theorem leaves_or_drops (dataSyncTs : Nat) (skip : Nat → Bool) (x : CcItem K (SyncEntry V)) :
    ScanSlot.leaves (syncAt dataSyncTs) skip x = x ∨
      (x.entry.payloadStatus = .deleted ∧ x.entry.bufferedCmds ≠ []) ∧
        ScanSlot.leaves (syncAt dataSyncTs) skip x =
          { x with entry := { x.entry with bufferedCmds := [] } } := by
  cases looked : skip x.page with
  | true => exact Or.inl (leaves_skipped looked)
  | false =>
    cases last : x.entry.bufferedCmds.getLast? with
    | none => exact Or.inl (leaves_ready (List.getLast?_eq_none_iff.mp last))
    | some back =>
      by_cases later : dataSyncTs < back.newVersion
      · exact Or.inl (leaves_later last later)
      · by_cases gone : x.entry.payloadStatus = .deleted ∧ x.entry.commitTs = 1
        · have busy := List.ne_nil_of_mem (List.mem_of_getLast? last)
          exact Or.inr ⟨⟨gone.1, busy⟩, leaves_expired looked last later gone⟩
        · exact Or.inl (leaves_stuck looked last later gone)

theorem leaves_same (dataSyncTs : Nat) (skip : Nat → Bool) (x : CcItem K (SyncEntry V)) :
    ∃ cmds, ScanSlot.leaves (syncAt dataSyncTs) skip x =
      { x with entry := { x.entry with bufferedCmds := cmds } } := by
  rcases leaves_or_drops dataSyncTs skip x with same | ⟨-, drops⟩
  · exact ⟨_, same⟩
  · exact ⟨[], drops⟩

end

section
variable [LinearOrder K] {req : DataSyncScanCc K V} {m : PagedMap K (SyncEntry V)}

theorem slot_spec (plain : req.filterLambda = none) (heapFull : List Bool) :
    ∃ gone left, onward CcItem.key m.items req.pausePos = gone ++ left ∧
      (req.slot visit m heapFull).seen =
        gone.map (ScanSlot.leaves (syncAt req.dataSyncTs) (req.skips m.lastDirtyCommitTs)) ∧
      (req.slot visit m heapFull).rest = left ∧
      (req.slot visit m heapFull).vecs.ckptVec = req.vecs.ckptVec ++
        (gone.filter (taken (req.skips m.lastDirtyCommitTs))).map
          (fun x => x.entry.flushRecord x.key) ∧
      (req.slot visit m heapFull).replayCmdsNotnull =
        gone.any (ScanSlot.reports (syncAt req.dataSyncTs) (req.skips m.lastDirtyCommitTs)) := by
  obtain ⟨gone, left, went⟩ := ScanSlot.scan_went (syncAt req.dataSyncTs)
    (req.skips m.lastDirtyCommitTs) req.scanBatchSize heapFull
    { seen := [], rest := onward CcItem.key m.items req.pausePos, vecs := req.vecs }
  refine ⟨gone, left, went.split, ?_, ?_, ?_, ?_⟩ <;> rw [DataSyncScanCc.slot, visit_plain plain]
  · rw [went.seen, List.nil_append]
  · rcases went.rest with same | ⟨x, rest, entry, rows, rfl, visited, touched⟩
    · exact same
    · obtain ⟨-, -, rfl, -⟩ := syncAt_ckpt visited
      exact touched
  · rw [went.vecs]
    exact foldl_exports_rows gone req.vecs
  · rw [went.reported, Bool.false_or]

end

end SyncEntry

end TxService
