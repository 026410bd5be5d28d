import TxService.ObjectSync

/-!
# The maps of a data sync

What the two kinds of maps have in common for a scan: an entry that needs a checkpoint up
to the timestamp of the sync is exported when it is visited, and no row is taken back.
-/

namespace TxService

universe u v w

variable {K : Type v} {V : Type u} {E : Type w}

/-- How a map's entries are visited. The entries that need a checkpoint up to a timestamp
are exported, unless they wait for something else. -/
structure SyncTable (K : Type v) (V : Type u) (E : Type w) where
  visit : Nat → DataSyncScanCc K V → CcItem K E → SyncVisit K V E
  needs : Nat → E → Prop
  waits : E → Prop
  row : K → E → FlushRecord K V
  row_key : ∀ key e, (row key e).key = key
  row_hasCce : ∀ key e, (row key e).hasCce = true
  row_commitTs : ∀ ts key e, needs ts e → (row key e).commitTs ≤ ts
  exports : ∀ recycleTs req x, req.filterLambda = none → needs req.dataSyncTs x.entry →
    ¬ waits x.entry → ∃ e rows, visit recycleTs req x = .ckpt e rows ∧
      ∀ vecs, row x.key x.entry ∈ (rows vecs).ckptVec
  keeps : ∀ recycleTs req x e rows, visit recycleTs req x = .ckpt e rows →
    ∀ vecs, vecs.ckptVec ⊆ (rows vecs).ckptVec

/-- An entry of an object map waits while commands are buffered on it. -/
def objectTable (K : Type v) (V : Type u) : SyncTable K V (SyncEntry V) where
  visit _ := SyncEntry.visit
  needs ts e := e.needCkpt = true ∧ e.commitTs ≤ ts
  waits e := e.bufferedCmds ≠ []
  row key e := e.flushRecord key
  row_key _ _ := rfl
  row_hasCce _ _ := rfl
  row_commitTs _ _ _ needs := needs.2
  exports := by
    intro _ req x plain needs ready
    rw [SyncEntry.visit_plain plain]
    refine ⟨_, _, SyncEntry.syncAt_ready (by simpa using ready) needs.1, ?_⟩
    simp [CkptVecs.addBase]
  keeps := by
    intro _ req x e rows visited vecs
    unfold SyncEntry.visit at visited
    split at visited
    · obtain ⟨_, _, _, rfl⟩ := SyncEntry.syncAt_ckpt visited
      simp [CkptVecs.addBase]
    · cases visited

namespace CcEntry

variable {key : K} {row : FlushRecord K V}

theorem exportArchives_keeps (flags : ExportFlags) (key : K) (ckptIdx ckptTs toTs : Nat)
    (archives : List (VersionRecord V)) {result : CkptVecs K V × Nat}
    (mem : row ∈ result.1.ckptVec) :
    row ∈ (exportArchives flags key ckptIdx ckptTs toTs archives result).1.ckptVec := by
  induction archives generalizing result with
  | nil => exact mem
  | cons v older ih =>
    rw [exportArchives]
    split
    · exact ih mem
    · split
      · exact mem
      · split
        · split
          · exact mem
          · split
            · exact List.mem_append_left _ mem
            · split
              · exact List.mem_append_left _ mem
              · exact mem
        · apply ih
          split
          · exact List.mem_append_left _ mem
          · exact mem

section
variable (e : CcEntry V) (vecs : CkptVecs K V) (toTs oldestActiveTxTs : Nat) (mvccEnabled : Bool)
  (flags : ExportFlags)

theorem exportForCkpt_first (dirty : e.isPersistent = false)
    (mem : row ∈ (if e.commitTs ≤ toTs then (vecs.addBase (e.current.flushRecord key true), 1)
      else (vecs, 0)).1.ckptVec) :
    row ∈ (e.exportForCkpt key vecs toTs oldestActiveTxTs mvccEnabled flags).1.ckptVec := by
  simp only [exportForCkpt, dirty, Bool.false_eq_true, if_false]
  by_cases single : (!mvccEnabled || flags.exportBaseTableItemOnly) = true
  · rwa [if_pos single]
  · rw [if_neg single]
    simp only [apply_ite CkptVecs.ckptVec, ite_self]
    exact exportArchives_keeps flags key vecs.ckptVec.length e.ckptTs toTs _ mem

theorem exportForCkpt_keeps (mem : row ∈ vecs.ckptVec) :
    row ∈ (e.exportForCkpt key vecs toTs oldestActiveTxTs mvccEnabled flags).1.ckptVec := by
  have added (row' : FlushRecord K V) : row ∈ (vecs.addBase row').ckptVec :=
    List.mem_append_left _ mem
  cases persistent : e.isPersistent with
  | true =>
    rw [exportForCkpt, if_pos persistent, exportPersisted]
    split
    · exact added _
    · split
      · exact added _
      · exact mem
  | false =>
    apply exportForCkpt_first _ _ _ _ _ _ persistent
    split
    · exact added _
    · exact mem

theorem exportForCkpt_current (dirty : e.isPersistent = false) (target : e.commitTs ≤ toTs) :
    e.current.flushRecord key true ∈
      (e.exportForCkpt key vecs toTs oldestActiveTxTs mvccEnabled flags).1.ckptVec := by
  apply exportForCkpt_first _ _ _ _ _ _ dirty
  rw [if_pos target]
  exact List.mem_append_right _ List.mem_cons_self

end

theorem collected_current (e : CcEntry V) (mvccEnabled : Bool) (recycleTs : Nat) :
    (e.collected mvccEnabled recycleTs).current = e.current ∧
      (e.collected mvccEnabled recycleTs).ckptTs = e.ckptTs := by
  cases mvccEnabled with
  | false => exact ⟨rfl, rfl⟩
  | true => exact e.kickOut_current recycleTs

theorem collected_needCkpt (e : CcEntry V) (mvccEnabled : Bool) (recycleTs : Nat) :
    (e.collected mvccEnabled recycleTs).needCkpt = e.needCkpt := by
  obtain ⟨current, ckptTs⟩ := e.collected_current mvccEnabled recycleTs
  have commitTs : (e.collected mvccEnabled recycleTs).commitTs = e.commitTs :=
    congrArg VersionRecord.commitTs current
  have status : (e.collected mvccEnabled recycleTs).payloadStatus = e.payloadStatus :=
    congrArg VersionRecord.payloadStatus current
  rw [needCkpt, isPersistent, commitTs, ckptTs, status]
  rfl

/-- After the collection the current version still gets a row when it is to be synced. -/
theorem exportForCkpt_collected {e : CcEntry V} {vecs : CkptVecs K V} {toTs oldestActiveTxTs recycleTs : Nat}
    {mvccEnabled : Bool} {flags : ExportFlags} (dirty : e.needCkpt = true) (target : e.commitTs ≤ toTs) :
    e.current.flushRecord key true ∈ ((e.collected mvccEnabled recycleTs).exportForCkpt key vecs toTs
      oldestActiveTxTs mvccEnabled flags).1.ckptVec := by
  obtain ⟨current, -⟩ := e.collected_current mvccEnabled recycleTs
  have commitTs : (e.collected mvccEnabled recycleTs).commitTs = e.commitTs :=
    congrArg VersionRecord.commitTs current
  rw [← e.collected_needCkpt mvccEnabled recycleTs] at dirty
  simp only [needCkpt, Bool.and_eq_true, Bool.not_eq_true'] at dirty
  rw [← current]
  exact exportForCkpt_current _ _ _ _ _ _ dirty.1 (commitTs ▸ target)

end CcEntry

def versionedTable (K : Type v) (V : Type u) (mvccEnabled : Bool) : SyncTable K V (CcEntry V) where
  visit := CcEntry.visit mvccEnabled
  needs ts e := e.needCkpt = true ∧ e.commitTs ≤ ts
  waits _ := False
  row key e := e.current.flushRecord key true
  row_key _ _ := rfl
  row_hasCce _ _ := rfl
  row_commitTs _ _ _ needs := needs.2
  exports := by
    intro recycleTs req x plain needs _
    have dirty := (x.entry.collected_needCkpt mvccEnabled recycleTs).trans needs.1
    refine ⟨x.entry.collected mvccEnabled recycleTs,
      (x.entry.collected mvccEnabled recycleTs).syncRows x.key req mvccEnabled recycleTs, ?_, ?_⟩
    · simp [CcEntry.visit, DataSyncScanCc.wants, plain, dirty]
    · intro vecs
      exact CcEntry.exportForCkpt_collected needs.1 needs.2
  keeps := by
    intro recycleTs req x e rows visited vecs row mem
    unfold CcEntry.visit at visited
    simp only at visited
    split at visited
    · cases visited
      exact CcEntry.exportForCkpt_keeps _ _ _ _ _ _ mem
    · cases visited

section
variable {V : Type u}

namespace SyncEntry

def initial : SyncEntry V := ⟨ObjectEntry.initial, false⟩

def withBuffered (e : SyncEntry V) (payload : Option V) (cmds : List (TxnCmd V)) : SyncEntry V :=
  { e with curPayload := payload, bufferedCmds := cmds }

/-- What the callers of `TryCommitBufferedCommands` do with the version it reaches. -/
def commitBufferedCommands (e : SyncEntry V) (curVer : Nat) : SyncEntry V :=
  let (curVer, payload, rest) := commitInOrder curVer e.curPayload e.bufferedCmds
  (e.withBuffered payload rest).setCommitTsPayloadStatus curVer (statusOf payload)

/-- The commands that `BackFill` does not drop for the version of the record. -/
def remaining (e : SyncEntry V) (commitTs : Nat) : List (TxnCmd V) :=
  e.bufferedCmds.dropWhile fun c => decide (c.objVersion < commitTs)

def filled (e : SyncEntry V) (commitTs : Nat) (status : RecordStatus) : SyncEntry V :=
  (e.setCommitTsPayloadStatus commitTs status).setCkptTs commitTs

/-- `BackFill` of a record from the store, which is persistent. -/
def backFill (e : SyncEntry V) (schemaTs : Nat) (leader : Bool) (commitTs : Nat)
    (status : RecordStatus) (record : Option V) : SyncEntry V :=
  if 1 < commitTs ∧ commitTs < schemaTs then e
  else if status = .unknown then e
  else if e.payloadStatus = .unknown then
    let filled := e.filled commitTs status
    let committed := (filled.withBuffered (record.or filled.curPayload)
      (filled.remaining commitTs)).commitBufferedCommands commitTs
    if leader then committed.withBuffered committed.curPayload [] else committed
  else e

/-- What a transaction that commits leaves; it drops what is still buffered. -/
def commit (e : SyncEntry V) (commitTs : Nat) (status : RecordStatus) (payload : Option V) :
    SyncEntry V :=
  (e.setCommitTsPayloadStatus commitTs status).withBuffered payload []

end SyncEntry

end

end TxService
