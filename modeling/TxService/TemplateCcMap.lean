import TxService.CcShard

/-!
# The requests of a cc map

`TemplateCcMap::Execute` for a read, the acquisition of a write lock, the validation of a read, and a
write. A request that returns false waits and is executed again from where it stopped.
An upload writes without a lock: when a transaction has written a newer version first, `PostWriteCc`
discards it, but only after the MVCC bookkeeping has moved the current payload to the archives.
-/

namespace TxService

/-- The result a request leaves in its handler, or what it waits for. -/
inductive Outcome (α : Type)
  | finished (result : α)
  | error (code : CcErrorCode)
  | blockedByLock
  | blockedByPostWrite
  | fetching
  deriving DecidableEq, Repr

structure AcquireKeyResult where
  lastValiTs : Nat
  commitTs : Nat
  deriving DecidableEq, Repr

structure AcquireCc (K : Type) where
  cce : Cce K
  req : CcRequest
  txTerm : Int
  ts : Nat
  isolation : IsolationLevel
  protocol : CcProtocol
  deriving DecidableEq

structure PostReadCc (K : Type) where
  cce : Cce K
  txn : TxNumber
  keyTs : Nat
  commitTs : Nat
  deriving DecidableEq

/-- An upload has no cce address: it finds its entry by key and holds no lock. -/
structure PostWriteCc (K V : Type) where
  cce : Cce K
  isUpload : Bool
  txn : TxNumber
  commitTs : Nat
  isDel : Bool
  payload : Option V
  isInitialInsert : Bool
  deriving DecidableEq

/-- Why a read stopped the last time it was executed. -/
inductive BlockedBy
  | notBlocked
  | blockByLock
  | blockByPostWrite
  deriving DecidableEq, Repr

structure ReadCc (K : Type) where
  cce : Cce K
  req : CcRequest
  txTerm : Int
  isolation : IsolationLevel
  protocol : CcProtocol
  isForWrite : Bool
  isCoveringKeys : Bool
  readTimestamp : Nat
  deriving DecidableEq

structure ReadResult (V : Type) where
  ts : Nat
  recStatus : RecordStatus
  record : Option V
  deriving DecidableEq, Repr

/-- What of the node's configuration the requests read. -/
structure ShardConfig where
  enableMvcc : Bool
  /-- `txservice_enable_key_cache`, for a base table. -/
  enableKeyCache : Bool
  deriving DecidableEq, Repr

def ReadCc.ccOp {K : Type} (r : ReadCc K) : CcOperation :=
  match r.cce.tableName.type with
  | .secondary => .readSkIndex
  | .uniqueSecondary => if r.isForWrite then .readForWrite else .readSkIndex
  | _ => if r.isForWrite then .readForWrite else .read

def ReadCc.isReadSnapshot {K : Type} (r : ReadCc K) : Bool :=
  match r.cce.tableName.type with
  | .secondary => decide (r.isolation = .snapshot)
  | _ => decide (r.isolation = .snapshot) && !r.isForWrite

def ReadCc.lockType {K : Type} (r : ReadCc K) : LockType :=
  deduceLockType r.ccOp r.isolation r.protocol r.isCoveringKeys

namespace CcEntry

variable {V : Type}

/-- The entry still has the same version, and readers at or above the recycle
timestamp get the same answers. -/
structure Undisturbed (recycleTs : Nat) (before after : CcEntry V) : Prop where
  current : after.current = before.current
  reads : ∀ ts lastReadTs, recycleTs ≤ ts → after.mvccGet ts lastReadTs = before.mvccGet ts lastReadTs

theorem Undisturbed.refl (recycleTs : Nat) (e : CcEntry V) : Undisturbed recycleTs e e :=
  ⟨rfl, fun _ _ _ => rfl⟩

/-- A read answers alike from two entries with the same newest version and the
same visible older ones. -/
theorem mvccGet_congr {e e' : CcEntry V} {ts : Nat} (lastReadTs : Nat)
    (current : e'.current = e.current) (ckpt : e'.ckptTs = e.ckptTs)
    (older : e.commitTs ≤ ts ∨ latest (e'.archives.getD []) ts = latest (e.archives.getD []) ts) :
    e'.mvccGet ts lastReadTs = e.mvccGet ts lastReadTs := by
  have payload : e'.curPayload = e.curPayload := congrArg VersionRecord.payload current
  have commit : e'.commitTs = e.commitTs := congrArg VersionRecord.commitTs current
  have status : e'.payloadStatus = e.payloadStatus := congrArg VersionRecord.payloadStatus current
  unfold mvccGet
  rw [payload, commit, status]
  split
  · rfl
  · split
    · rfl
    · rename_i newer
      have found := older.resolve_left newer
      unfold latest at found
      rw [found, missStatus, missStatus, ckpt]

theorem kickOut_archives {r ts : Nat} (h : r ≤ ts) (e : CcEntry V) (newer : ts < e.commitTs) :
    latest ((e.kickOutArchiveRecords r).archives.getD []) ts = latest (e.archives.getD []) ts := by
  have same := kickOut_latest h e
  unfold versions at same
  rwa [(kickOut_current e r).1, latest_cons_newer (v := e.current) newer,
    latest_cons_newer (v := e.current) newer] at same

theorem kickOut_undisturbed (r : Nat) (e : CcEntry V) :
    Undisturbed r e (e.kickOutArchiveRecords r) := by
  refine ⟨(kickOut_current e r).1, ?_⟩
  intro ts lastReadTs hr
  refine mvccGet_congr lastReadTs (kickOut_current e r).1 (kickOut_current e r).2 ?_
  by_cases hts : e.commitTs ≤ ts
  · exact Or.inl hts
  · exact Or.inr (kickOut_archives hr e (Nat.lt_of_not_le hts))

/-- Archiving keeps the entry's answers exactly as long as there is no payload to
move: an unknown entry is left alone, and a null payload moves to a null one. -/
theorem archiveForMvcc_undisturbed_iff (r : Nat) (e : CcEntry V) :
    Undisturbed r e (e.archiveForMvcc r) ↔ e.payloadStatus = .unknown ∨ e.curPayload = none := by
  have status : (e.kickOutArchiveRecords r).payloadStatus = e.payloadStatus :=
    congrArg VersionRecord.payloadStatus (kickOut_current e r).1
  by_cases unknown : e.payloadStatus = .unknown
  · have same : e.archiveForMvcc r = e.kickOutArchiveRecords r := by
      simp [archiveForMvcc, archiveBeforeUpdate, status, unknown]
    simpa [same, unknown] using kickOut_undisturbed r e
  · have moved : (e.archiveForMvcc r).curPayload = none := by
      simp [archiveForMvcc, archiveBeforeUpdate, status, unknown]
    simp only [unknown, false_or]
    constructor
    · intro h
      exact (congrArg VersionRecord.payload h.current).symm.trans moved
    · intro empty
      obtain ⟨commit, kept, ckpt⟩ := archiveForMvcc_frame e r
      have current : (e.archiveForMvcc r).current = e.current := by
        simp [CcEntry.current, moved, empty, commit, kept]
      refine ⟨current, fun ts lastReadTs hr => mvccGet_congr lastReadTs current ckpt ?_⟩
      by_cases hts : e.commitTs ≤ ts
      · exact Or.inl hts
      · have newer : ts < (e.kickOutArchiveRecords r).current.commitTs := by
          rw [(kickOut_current e r).1]
          exact Nat.lt_of_not_le hts
        right
        rw [archiveForMvcc_known r unknown, Option.getD_some, versions, latest_cons_newer newer]
        exact kickOut_archives hr e (Nat.lt_of_not_le hts)

end CcEntry

namespace CcShard

variable {K V : Type} [DecidableEq K]

/-- The lock part of a write request, the first time or after it was blocked. -/
def lockForWrite (s : CcShard K V) (r : AcquireCc K) (blockByLock : Bool) :
    (LockType × CcErrorCode) × CcShard K V :=
  let e := s.entries r.cce
  if blockByLock then
    (s.dequeue r.cce r.req).lockHandleForResumedRequest r.cce e.commitTs e.payloadStatus r.req
      r.txTerm .write r.isolation r.protocol 0 false r.cce.tableName.type
  else
    s.acquireCceKeyLock r.cce e.commitTs e.payloadStatus r.req r.txTerm
      (deduceLockType .write r.isolation r.protocol false) .write r.isolation r.protocol 0
      r.cce.tableName.type

def executeAcquireCc (cfg : ShardConfig) (s : CcShard K V) (r : AcquireCc K)
    (blockByLock : Bool) : Outcome AcquireKeyResult × CcShard K V :=
  let e := s.entries r.cce
  let locked := s.lockForWrite r blockByLock
  match locked.1.2 with
  | .noError =>
    let s := locked.2
    let lockTs := max r.ts s.now
    let currVersionTs := if 0 < e.commitTs then e.commitTs else s.now
    let s := s.setKeyLock r.cce ((s.keyLock r.cce).setWLockTs lockTs)
    -- a key that never existed must not stay unknown once the key cache has it
    let s := if e.payloadStatus = .unknown ∧ cfg.enableKeyCache = true then
        s.setEntry r.cce ((e.setCommitTsPayloadStatus 1 .deleted).setCkptTs 1)
      else s
    (.finished ⟨max s.lastReadTs lockTs, currVersionTs⟩, s)
  | .acquireLockBlocked => (.blockedByLock, locked.2)
  | err => (.error err, locked.2)

def executePostReadCc (s : CcShard K V) (r : PostReadCc K) : Outcome Unit × CcShard K V :=
  let e := s.entries r.cce
  let recycleLock := decide (r.cce.tableName.type ≠ .catalog)
  if e.payloadStatus ≠ .unknown ∧ 0 < r.keyTs ∧ r.keyTs ≠ e.commitTs then
    (.error .validationFailedForVersionMismatch,
      s.releaseCceLock r.cce r.txn .noLock recycleLock)
  else
    let l := s.keyLock r.cce
    let conflicting := decide (0 < r.keyTs) && l.hasWriteLock && decide (l.writeTxn ≠ r.txn)
    let s := if 0 < r.keyTs then s.updateLastReadTs r.commitTs else s
    (if conflicting then .error .validationFailedForConflictedTxs else .finished (),
      s.releaseCceLock r.cce r.txn .noLock recycleLock)

/-- `recycleTs` is the shard's `GlobalMinSiTxStartTs` at the time. -/
def executePostWriteCc (cfg : ShardConfig) (recycleTs : Nat) (s : CcShard K V)
    (r : PostWriteCc K V) : Outcome Unit × CcShard K V :=
  let l := s.keyLock r.cce
  if r.isUpload = false ∧ (l.hasWriteLock = false ∨ l.writeTxn ≠ r.txn) then (.finished (), s)
  else if 0 < r.commitTs then
    let e := s.entries r.cce
    let e := if cfg.enableMvcc then e.archiveForMvcc recycleTs else e
    -- a newer value is there already: the upload is discarded
    if r.commitTs < e.commitTs then (.finished (), s.setEntry r.cce e)
    else
      let e := e.installVersion r.commitTs r.isDel r.payload
      let e := if r.isUpload = true ∧ r.isInitialInsert = true then e.setCkptTs 1 else e
      (.finished (), (s.setEntry r.cce e).releaseCceLock r.cce r.txn .writeLock true)
  else (.finished (), s.releaseCceLock r.cce r.txn .writeLock true)

/-- The lock part of a read inside. -/
def lockForRead (s : CcShard K V) (r : ReadCc K) (blockedBy : BlockedBy) :
    (LockType × CcErrorCode) × CcShard K V :=
  let e := s.entries r.cce
  match blockedBy with
  | .blockByPostWrite =>
    -- the read lock only kept the entry in memory
    let released := (s.keyLock r.cce).releaseReadLock r.req.txn
    ((.noLock, .noError),
      ((s.dequeue r.cce r.req).setKeyLock r.cce released.2.1).enqueue r.cce released.2.2)
  | .blockByLock =>
    (s.dequeue r.cce r.req).lockHandleForResumedRequest r.cce e.commitTs e.payloadStatus r.req
      r.txTerm r.ccOp r.isolation r.protocol r.readTimestamp r.isCoveringKeys
      r.cce.tableName.type
  | .notBlocked =>
    s.acquireCceKeyLock r.cce e.commitTs e.payloadStatus r.req r.txTerm r.lockType r.ccOp
      r.isolation r.protocol r.readTimestamp r.cce.tableName.type

/-- The read proper, once the lock is had. A read committed read of a record that
must be at least as new as its secondary key waits for the write to arrive. -/
def readLocked (s : CcShard K V) (r : ReadCc K) : Outcome (ReadResult V) × CcShard K V :=
  let e := s.entries r.cce
  if r.isReadSnapshot then
    let v := e.mvccGet r.readTimestamp s.lastReadTs
    (.finished ⟨v.1.commitTs, v.1.payloadStatus, v.1.payloadPtr⟩, { s with lastReadTs := v.2 })
  else if e.payloadStatus = .normal ∧ r.isolation = .readCommitted ∧ 0 < e.commitTs ∧
      e.commitTs < r.readTimestamp then
    (.blockedByPostWrite,
      s.setKeyLock r.cce ((s.keyLock r.cce).insertBlockingQueue r.req .readLock))
  else
    (.finished ⟨e.commitTs, e.payloadStatus,
      if e.payloadStatus = .normal then e.curPayload else none⟩, s)

def executeReadCc (s : CcShard K V) (r : ReadCc K) (blockedBy : BlockedBy) :
    Outcome (ReadResult V) × CcShard K V :=
  if blockedBy = .notBlocked ∧ (s.entries r.cce).payloadStatus = .unknown then (.fetching, s)
  else
    let locked := s.lockForRead r blockedBy
    match locked.1.2 with
    | .mvccReadMustWaitWrite => (.blockedByPostWrite, locked.2)
    | .noError => locked.2.readLocked r
    | .acquireLockBlocked => (.blockedByLock, locked.2)
    | err => (.error err, locked.2)

/-- A stale upload gets as far as the bookkeeping and no further. -/
theorem staleUpload_entry {cfg : ShardConfig} {recycleTs : Nat} {s : CcShard K V}
    {r : PostWriteCc K V} (upload : r.isUpload = true) (positive : 0 < r.commitTs)
    (stale : r.commitTs < (s.entries r.cce).commitTs) :
    (s.executePostWriteCc cfg recycleTs r).2.entries r.cce =
      if cfg.enableMvcc then (s.entries r.cce).archiveForMvcc recycleTs else s.entries r.cce := by
  have still : r.commitTs <
      (if cfg.enableMvcc then (s.entries r.cce).archiveForMvcc recycleTs
        else s.entries r.cce).commitTs := by
    split
    · rwa [(CcEntry.archiveForMvcc_frame _ _).1]
    · exact stale
  simp only [executePostWriteCc, upload, Bool.true_eq_false, false_and, ↓reduceIte, positive, still,
    setEntry, Function.update_self]

/-- **Stale uploads.** Discarding a stale upload leaves the entry and its readers
undisturbed exactly when there was no payload for the bookkeeping to move. -/
theorem staleUpload_undisturbed_iff (cfg : ShardConfig) (recycleTs : Nat) (s : CcShard K V)
    (r : PostWriteCc K V) (upload : r.isUpload = true) (positive : 0 < r.commitTs)
    (stale : r.commitTs < (s.entries r.cce).commitTs) :
    CcEntry.Undisturbed recycleTs (s.entries r.cce)
        ((s.executePostWriteCc cfg recycleTs r).2.entries r.cce) ↔
      cfg.enableMvcc = false ∨ (s.entries r.cce).payloadStatus = .unknown ∨
        (s.entries r.cce).curPayload = none := by
  rw [staleUpload_entry upload positive stale]
  cases cfg.enableMvcc with
  | false => simpa using CcEntry.Undisturbed.refl recycleTs _
  | true => simpa using CcEntry.archiveForMvcc_undisturbed_iff recycleTs (s.entries r.cce)

/-- An entry at version 20, and an upload that carries version 10. -/
def uploadedShard : CcShard Nat Nat :=
  ⟨fun _ => ⟨some 7, 20, .normal, 0, none⟩, fun _ => none, ∅, 0, 30, []⟩

def lateUpload : PostWriteCc Nat Nat :=
  ⟨⟨0, ⟨"t", .secondary⟩, 1⟩, true, 5, 10, false, some 3, false⟩

/-- With MVCC disabled the late upload changes nothing. -/
theorem staleUpload_undisturbed_without_mvcc :
    CcEntry.Undisturbed 15 (uploadedShard.entries lateUpload.cce)
      ((uploadedShard.executePostWriteCc ⟨false, false⟩ 15 lateUpload).2.entries lateUpload.cce) :=
  (staleUpload_undisturbed_iff ⟨false, false⟩ 15 uploadedShard lateUpload rfl (by decide)
    (by decide)).mpr (Or.inl rfl)

/-- With MVCC enabled it takes the payload of version 20 away: a read at 25 finds
a live version without a record. -/
theorem staleUpload_loses_payload :
    lateUpload.isUpload = true ∧ 0 < lateUpload.commitTs ∧
    lateUpload.commitTs < (uploadedShard.entries lateUpload.cce).commitTs ∧
    ((uploadedShard.entries lateUpload.cce).mvccGet 25 0).1 = ⟨some 7, .normal, 20⟩ ∧
    (((uploadedShard.executePostWriteCc ⟨true, false⟩ 15 lateUpload).2.entries
      lateUpload.cce).mvccGet 25 0).1 = ⟨none, .normal, 20⟩ ∧
    ¬ CcEntry.Undisturbed 15 (uploadedShard.entries lateUpload.cce)
      ((uploadedShard.executePostWriteCc ⟨true, false⟩ 15 lateUpload).2.entries lateUpload.cce) := by
  refine ⟨by decide, by decide, by decide, by decide, by decide, ?_⟩
  intro h
  have same := congrArg VersionRecord.payload h.current
  exact absurd same (by decide)

end CcShard

end TxService
