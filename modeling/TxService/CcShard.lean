import Mathlib.Data.List.AList
import TxService.NonBlockingLock
import TxService.VersionedEntry

/-!
# A shard: entries, their locks, and the transactions that hold them

An entry is known by its node group, table and key; a key without an entry is one nothing is known
of. Requests a lock re-executes wait in `ccQueue`.
-/

namespace TxService

/-- `TableName::IsMeta`. -/
def TableType.isMeta : TableType → Bool
  | .rangeBucket | .catalog | .rangePartition | .clusterConfig => true
  | .primary | .secondary | .uniqueSecondary => false

structure TableName where
  name : String
  type : TableType
  deriving DecidableEq, Repr

/-- The address of a cc entry. -/
structure Cce (K : Type) where
  ngId : NodeGroupId
  tableName : TableName
  key : K
  deriving DecidableEq, Repr

inductive CcErrorCode
  | noError
  | mvccReadForWriteConflict
  | mvccReadMustWaitWrite
  | acquireLockBlocked
  | acquireKeyLockFailedForRwConflict
  | acquireKeyLockFailedForWwConflict
  | validationFailedForVersionMismatch
  | validationFailedForConflictedTxs
  deriving DecidableEq, Repr

/-- What a shard remembers of a transaction's locks in one node group. -/
structure TxLockInfo (K : Type) where
  txCoordTerm : Int
  wlockTs : Nat
  cceList : List (Cce K)
  tableType : TableType

/-- `lock_holding_txs_`, its two levels as one map. -/
abbrev LockHoldingTxs (K : Type) := AList fun _ : NodeGroupId × TxNumber => TxLockInfo K

structure CcShard (K V : Type) where
  entries : Cce K → CcEntry V
  locks : Cce K → Option NonBlockingLock
  lockHoldingTxs : LockHoldingTxs K
  lastReadTs : Nat
  /-- `Now()`, the node's `ts_base_`. -/
  now : Nat
  ccQueue : List (Cce K × CcRequest)

namespace NonBlockingLock

/-- The switch of `ReleaseCceLock`: what was released, none if nothing was. -/
def unlock (l : NonBlockingLock) (txNumber : TxNumber) (lkType : LockType) :
    LockType × NonBlockingLock × List CcRequest :=
  match lkType with
  | .readLock =>
    let r := l.releaseReadLock txNumber
    (if r.1 then .readLock else .noLock, r.2)
  | .readIntent =>
    let r := l.releaseReadIntent txNumber
    (if r.1 then .readIntent else .noLock, r.2, [])
  | .writeLock =>
    let r := l.releaseWriteLock txNumber true
    (if r.1 then .writeLock else .noLock, r.2)
  | _ => l.clearTx txNumber

end NonBlockingLock

namespace LockHoldingTxs

variable {K : Type} [DecidableEq K]

/-- Registers a lock at shard time `now`. The transaction's record takes the table
type of the new lock, and its time if it is a write lock. -/
def upsert (txs : LockHoldingTxs K) (now : Nat) (txn : TxNumber) (txTerm : Int) (cce : Cce K)
    (isKeyWriteLock : Bool) (tableType : TableType) : LockHoldingTxs K :=
  let info := (txs.lookup (cce.ngId, txn)).getD ⟨txTerm, 0, [], .primary⟩
  txs.insert (cce.ngId, txn) { info with
    cceList := info.cceList.insert cce
    tableType := tableType
    wlockTs := if isKeyWriteLock then now else info.wlockTs }

/-- Forgets a lock, and the record with its last one. -/
def delete (txs : LockHoldingTxs K) (txn : TxNumber) (cce : Cce K) : LockHoldingTxs K :=
  match txs.lookup (cce.ngId, txn) with
  | none => txs
  | some info =>
    if info.cceList.erase cce = [] then txs.erase (cce.ngId, txn)
    else txs.insert (cce.ngId, txn) { info with cceList := info.cceList.erase cce }

end LockHoldingTxs

namespace CcShard

variable {K V : Type} [DecidableEq K]

/-- The lock of an entry; `GetOrCreateKeyLock` makes an empty one. -/
def keyLock (s : CcShard K V) (cce : Cce K) : NonBlockingLock := (s.locks cce).getD .reset

def setKeyLock (s : CcShard K V) (cce : Cce K) (l : NonBlockingLock) : CcShard K V :=
  { s with locks := Function.update s.locks cce (some l) }

def setEntry (s : CcShard K V) (cce : Cce K) (e : CcEntry V) : CcShard K V :=
  { s with entries := Function.update s.entries cce e }

/-- `ExecuteQueuedRequest` for each request a lock has granted. -/
def enqueue (s : CcShard K V) (cce : Cce K) (reqs : List CcRequest) : CcShard K V :=
  { s with ccQueue := s.ccQueue ++ reqs.map fun req => (cce, req) }

/-- The shard takes a re-enqueued request up again. -/
def dequeue (s : CcShard K V) (cce : Cce K) (req : CcRequest) : CcShard K V :=
  { s with ccQueue := s.ccQueue.erase (cce, req) }

def recycleKeyLock (s : CcShard K V) (cce : Cce K) : CcShard K V :=
  if (s.keyLock cce).isEmpty then { s with locks := Function.update s.locks cce none } else s

def updateLastReadTs (s : CcShard K V) (readTs : Nat) : CcShard K V :=
  { s with lastReadTs := max s.lastReadTs readTs }

/-- The time base only moves forward. -/
def updateTsBase (s : CcShard K V) (ts : Nat) : CcShard K V := { s with now := max s.now ts }

def upsertLockHoldingTx (s : CcShard K V) (txn : TxNumber) (txTerm : Int) (cce : Cce K)
    (isKeyWriteLock : Bool) (tableType : TableType) : CcShard K V :=
  { s with lockHoldingTxs := s.lockHoldingTxs.upsert s.now txn txTerm cce isKeyWriteLock tableType }

def deleteLockHoldingTx (s : CcShard K V) (txn : TxNumber) (cce : Cce K) : CcShard K V :=
  { s with lockHoldingTxs := s.lockHoldingTxs.delete txn cce }

/-- The timestamps below the write locks of the active transactions of a node
group. Transactions last seen on a meta table are skipped. -/
def activeTxTs (s : CcShard K V) (ccNgId : NodeGroupId) : List Nat :=
  s.lockHoldingTxs.entries.filterMap fun r =>
    if r.1.1 = ccNgId ∧ r.2.tableType.isMeta = false ∧ r.2.wlockTs ≠ 0 then some (r.2.wlockTs - 1)
    else none

/-- The checkpoint timestamp of a node group; with no active writer it is taken
from the clock, to which the time base is moved. -/
def activeTxMinTs (s : CcShard K V) (ccNgId : NodeGroupId) (clockTs : Nat) : Nat × CcShard K V :=
  match (s.activeTxTs ccNgId).min? with
  | some minTs => (minTs, s)
  | none => (max s.now clockTs - 1, s.updateTsBase clockTs)

/-- A write lock taken before a snapshot read's timestamp may still commit below it. -/
def mustWaitWrite (s : CcShard K V) (cce : Cce K) (readTs : Nat) : Bool :=
  (s.keyLock cce).hasWriteLock && decide ((s.keyLock cce).wlockTs < readTs)

def acquireCceKeyLock (s : CcShard K V) (cce : Cce K) (commitTs : Nat)
    (ccePayloadStatus : RecordStatus) (req : CcRequest) (txTerm : Int) (lockType : LockType)
    (ccOp : CcOperation) (isoLevel : IsolationLevel) (protocol : CcProtocol) (readTs : Nat)
    (tableType : TableType) : (LockType × CcErrorCode) × CcShard K V :=
  if isoLevel = .snapshot ∧ ccOp = .readForWrite ∧ readTs < commitTs then
    ((.noLock, .mvccReadForWriteConflict), s)
  else if isoLevel = .snapshot ∧ (ccOp = .read ∨ ccOp = .readSkIndex) ∧
      s.mustWaitWrite cce readTs = true then
    ((.noLock, .mvccReadMustWaitWrite),
      s.setKeyLock cce ((s.keyLock cce).insertBlockingQueue req .readLock))
  else if lockType = .noLock ∨
      (lockType ≠ .writeLock ∧ lockType ≠ .writeIntent ∧ ccePayloadStatus = .deleted) then
    ((.noLock, .noError), s)
  else
    let r := (s.keyLock cce).acquireLock req protocol lockType
    let s := s.setKeyLock cce r.2
    match r.1 with
    | .successful =>
      ((lockType, .noError),
        s.upsertLockHoldingTx req.txn txTerm cce (decide (lockType = .writeLock)) tableType)
    | .failed =>
      ((lockType, if lockType = .writeLock ∧ r.2.writeLkType = .noWritelock then
          .acquireKeyLockFailedForRwConflict else .acquireKeyLockFailedForWwConflict), s)
    | .blocked => ((lockType, .acquireLockBlocked), s)

def lockHandleForResumedRequest (s : CcShard K V) (cce : Cce K) (commitTs : Nat)
    (ccePayloadStatus : RecordStatus) (req : CcRequest) (txTerm : Int) (ccOp : CcOperation)
    (isoLevel : IsolationLevel) (protocol : CcProtocol) (readTs : Nat) (isCoveringKeys : Bool)
    (tableType : TableType) : (LockType × CcErrorCode) × CcShard K V :=
  let acquiredLock := deduceLockType ccOp isoLevel protocol isCoveringKeys
  if acquiredLock = .readLock ∧ ccePayloadStatus = .deleted then
    let r := (s.keyLock cce).releaseReadLock req.txn
    ((.noLock, .noError),
      (((s.setKeyLock cce r.2.1).enqueue cce r.2.2).recycleKeyLock cce).deleteLockHoldingTx
        req.txn cce)
  else if acquiredLock = .writeIntent ∧ isoLevel = .snapshot ∧ readTs < commitTs then
    let r := (s.keyLock cce).releaseWriteIntent req.txn
    ((.noLock, .mvccReadForWriteConflict),
      (((s.setKeyLock cce r.2.1).enqueue cce r.2.2).recycleKeyLock cce).deleteLockHoldingTx
        req.txn cce)
  else
    ((acquiredLock, .noError),
      s.upsertLockHoldingTx req.txn txTerm cce (decide (acquiredLock = .writeLock)) tableType)

def releaseCceLock (s : CcShard K V) (cce : Cce K) (txNumber : TxNumber) (lkType : LockType)
    (recycleLock : Bool) : CcShard K V :=
  match s.locks cce with
  | none => s
  | some lock =>
    let r := lock.unlock txNumber lkType
    let lock := if r.1 = .writeLock then r.2.1.setWLockTs 0 else r.2.1
    let s := (s.setKeyLock cce lock).enqueue cce r.2.2
    if r.1 = .noLock then s
    else
      let s := s.deleteLockHoldingTx txNumber cce
      if recycleLock then s.recycleKeyLock cce else s

/-- `ClearTx` on one of the transaction's entries. -/
def clearTxOn (txn : TxNumber) (s : CcShard K V) (cce : Cce K) : CcShard K V :=
  match s.locks cce with
  | none => s
  | some lock =>
    let r := lock.clearTx txn
    ((s.setKeyLock cce r.2.1).enqueue cce r.2.2).recycleKeyLock cce

/-- The entries a transaction is registered for, over all node groups. -/
def heldBy (s : CcShard K V) (txn : TxNumber) : List (Cce K) :=
  s.lockHoldingTxs.entries.flatMap fun r => if r.1.2 = txn then r.2.cceList else []

def clearTx (s : CcShard K V) (txn : TxNumber) : CcShard K V :=
  let cleared := (s.heldBy txn).foldl (clearTxOn txn) s
  { cleared with
    lockHoldingTxs := (s.lockHoldingTxs.keys.filter (·.2 = txn)).foldl
      (fun txs ngTx => txs.erase ngTx) s.lockHoldingTxs }

end CcShard

end TxService
