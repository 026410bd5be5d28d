import TxService.CcShard
import TxService.StandbyForward

/-!
# The requests of an object cc map

What each request does to an entry, to its lock structure, which is made when needed and recycled
when empty, and to the counts of objects and of buffered commands.
-/

namespace TxService

universe u

/-- An `ApplyCc` that waits in `queue_block_cmds_` for the object to change. -/
structure BlockedCmd (V : Type u) where
  txn : TxNumber
  ablePopBlockRequest : Option V → Bool

/-- An entry with its lock structure; without one the extra data is empty. -/
structure ObjectCcEntry (V : Type u) extends ObjectCce V where
  keyLock : Option NonBlockingLock
  queueBlockCmds : List (BlockedCmd V)

/-- What a request leaves at an entry, none if it removes it, and what it adds to the counters. -/
structure EntryEffect (V : Type u) where
  cce : Option (ObjectCcEntry V)
  normalObjSz : Int
  bufferedCmdCnt : Int

/-- What requests read from the map, the shard and the node. `persistent` is whether the
entry's version is in the store, which the checkpoint decides. -/
structure RequestContext (V : Type u) where
  ttlOf : V → Option Nat
  now : Nat
  clock : Nat
  schemaTs : Nat
  fetchTxn : TxNumber
  ccmHasFullEntries : Bool
  skipKv : Bool
  memoryFull : Bool
  subscribed : Bool
  leader : Bool
  standby : Bool
  persistent : Bool

structure ApplyCc (V : Type u) where
  req : CcRequest
  cmd : ObjectCommand V
  isReadOnly : Bool
  ignoreKvValue : Bool
  /-- The command's block operation is `Discard`. -/
  discard : Bool
  applyAndCommit : Bool
  ablePopBlockRequest : Option V → Bool
  isolation : IsolationLevel
  protocol : CcProtocol

/-- Where an `ApplyCc` goes on. -/
inductive ApplyBlockType
  | noBlocking
  | blockOnRead
  | blockOnWriteLock
  | blockOnFetch (lockAcquired : LockType)
  | blockOnCondition

/-- A record of an `UploadBatchCc`. -/
structure UploadRecord (V : Type u) where
  commitTs : Nat
  recStatus : RecordStatus
  object : V

variable {V : Type u}

def Dirty.isNonExistent : Dirty V → Bool
  | .nonExistent => true
  | _ => false

/-- How the requests adjust the number of objects. -/
def objSzChange (before after : RecordStatus) : Int :=
  if before = .normal ∧ after ≠ .normal then -1
  else if before ≠ .normal ∧ after = .normal then 1
  else 0

namespace EntryEffect

def keep (e : ObjectCcEntry V) : EntryEffect V := ⟨some e, 0, 0⟩

/-- A request goes on at the entry it has left. -/
def bind (c : EntryEffect V) (next : ObjectCcEntry V → EntryEffect V) : EntryEffect V :=
  match c.cce with
  | some e =>
    ⟨(next e).cce, c.normalObjSz + (next e).normalObjSz, c.bufferedCmdCnt + (next e).bufferedCmdCnt⟩
  | none => c

end EntryEffect

/-- The result of `ExecuteOn` on the object that `ObjectCce.execute` runs the command on. -/
def ObjectCce.execResult (e : ObjectCce V) (cmd : ObjectCommand V) : ExecResult :=
  match e.dirty, e.payloadStatus, e.curPayload with
  | .normal v, _, _ => cmd.executeOn v
  | _, .normal, some v => cmd.executeOn v
  | _, _, _ => .fail

namespace ObjectCcEntry

def initial : ObjectCcEntry V := ⟨⟨.initial, .nonExistent, none⟩, none, []⟩

/-- `KeyGapLockAndExtraData::IsEmpty`. -/
def isEmpty (e : ObjectCcEntry V) (lock : NonBlockingLock) : Bool :=
  lock.isEmpty && e.queueBlockCmds.isEmpty && e.bufferedCmds.isEmpty

def isFree (e : ObjectCcEntry V) (persistent : Bool) : Bool := e.keyLock.isNone && persistent

def getOrCreateKeyLock (e : ObjectCcEntry V) : NonBlockingLock := e.keyLock.getD .reset

def setKeyLock (e : ObjectCcEntry V) (lock : NonBlockingLock) : ObjectCcEntry V :=
  { e with keyLock := some lock }

def recycleKeyLock (e : ObjectCcEntry V) : ObjectCcEntry V :=
  match e.keyLock with
  | some lock =>
    if e.isEmpty lock then { e with keyLock := none, dirty := .nonExistent, forwardEntry := none }
    else e
  | none => e

def releaseCceLock (e : ObjectCcEntry V) (txn : TxNumber) (lkType : LockType) : ObjectCcEntry V :=
  match e.keyLock with
  | some lock =>
    let r := lock.unlock txn lkType
    let released := e.setKeyLock (if r.1 = .writeLock then r.2.1.setWLockTs 0 else r.2.1)
    if r.1 = .noLock then released else released.recycleKeyLock
  | none => e

/-- The read intent that keeps the entry while its record is fetched. -/
def acquireFetchIntent (e : ObjectCcEntry V) (fetchTxn : TxNumber) : ObjectCcEntry V :=
  e.setKeyLock (e.getOrCreateKeyLock.acquireReadIntent fetchTxn).2

def ownsWriteLock (e : ObjectCcEntry V) (txn : TxNumber) : Bool :=
  e.keyLock.any fun lock => lock.hasWriteLock && decide (lock.writeTxn = txn)

def pushBlockRequest (e : ObjectCcEntry V) (b : BlockedCmd V) : ObjectCcEntry V :=
  if e.keyLock.isSome then { e with queueBlockCmds := e.queueBlockCmds ++ [b] } else e

def popBlockRequest (e : ObjectCcEntry V) : ObjectCcEntry V :=
  { e with queueBlockCmds := e.queueBlockCmds.eraseP fun b => b.ablePopBlockRequest e.curPayload }

def abortBlockRequest (e : ObjectCcEntry V) (txid : TxNumber) : ObjectCcEntry V :=
  { e with queueBlockCmds := e.queueBlockCmds.eraseP fun b => decide (b.txn = txid) }

section
variable (ctx : RequestContext V) (r : ApplyCc V)

/-- `AcquireCceKeyLock` as `ApplyCc` calls it: with read timestamp 0, and a lock even on a
deleted record. -/
def acquireCceKeyLock (e : ObjectCcEntry V) (ccOp : CcOperation) :
    LockOpStatus × LockType × ObjectCcEntry V :=
  if r.isolation = .snapshot ∧ ccOp = .readForWrite ∧ 0 < e.commitTs then (.failed, .noLock, e)
  else
    let lockType := deduceLockType ccOp r.isolation r.protocol false
    if lockType = .noLock then (.successful, .noLock, e)
    else
      let acquired := e.getOrCreateKeyLock.acquireLock r.req r.protocol lockType
      (acquired.1, lockType, e.setKeyLock acquired.2)

def lockHandleForResumedRequest (e : ObjectCcEntry V) (ccOp : CcOperation) :
    LockOpStatus × LockType × ObjectCcEntry V :=
  let acquiredLock := deduceLockType ccOp r.isolation r.protocol false
  if acquiredLock = .writeIntent ∧ r.isolation = .snapshot ∧ 0 < e.commitTs then
    let released := e.setKeyLock (e.getOrCreateKeyLock.releaseWriteIntent r.req.txn).2.1
    (.failed, .noLock, released.recycleKeyLock)
  else (.successful, acquiredLock, e)

def checkDirtyStatus (e : ObjectCcEntry V) (ccOp : CcOperation) : Bool :=
  decide (ccOp ≠ .read) || e.ownsWriteLock r.req.txn

/-- `need_fetch_kv`: none if the record is to be fetched, else the entry and whether the command
overrides the record in the store. -/
def needFetchKv (e : ObjectCcEntry V) (ccOp : CcOperation) : Option (ObjectCcEntry V × Bool) :=
  if e.payloadStatus = .unknown ∧
      (!e.checkDirtyStatus r ccOp || e.keyLock.isNone || e.dirty.isNonExistent) then
    if ctx.ccmHasFullEntries || ctx.skipKv then
      some ({ e with toObjectEntry := e.setCommitTsPayloadStatus 1 .deleted }, false)
    else if r.ignoreKvValue then some (e, true)
    else none
  else some (e, false)

/-- Commands that still wait for a record that has expired in the store are dropped. -/
def dropExpiredCommands (e : ObjectCcEntry V) : EntryEffect V :=
  if e.bufferedCmds ≠ [] ∧ e.payloadStatus = .deleted ∧ e.commitTs = 1 then
    ⟨some { e with bufferedCmds := [] }.recycleKeyLock, 0, -e.bufferedCmds.length⟩
  else .keep e

/-- What follows `ExecuteOn`: the command waits for the object to change, gives up its lock, or is
committed at once if it need not be logged. `left` is the entry with the command executed. -/
def afterExecution (e left : ObjectCcEntry V) (result : ExecResult) : EntryEffect V :=
  match result with
  | .block =>
    .keep ((left.pushBlockRequest ⟨r.req.txn, r.ablePopBlockRequest⟩).releaseCceLock r.req.txn
      .writeLock)
  | .unlock => .keep (left.releaseCceLock r.req.txn .writeLock)
  | .fail | .read | .write =>
    if r.applyAndCommit then
      let released := left.releaseCceLock r.req.txn .writeLock
      let woken := if result = .write then released.popBlockRequest else released
      ⟨some woken, objSzChange e.payloadStatus woken.payloadStatus, 0⟩
    else .keep left

/-- A write command under the write lock. -/
def executeLocked (e : ObjectCcEntry V) (expired : Bool) : EntryEffect V :=
  let f := e.toObjectCce.setForwardEntry ctx.subscribed
  if expired && r.cmd.proceedOnExistentObject && !r.cmd.proceedOnNonExistentObject then
    let left := { e with toObjectCce := (f.retire r.applyAndCommit ctx.clock).cce }
    if r.applyAndCommit then
      ⟨some (left.releaseCceLock r.req.txn .writeLock), if e.payloadStatus = .normal then -1 else 0, 0⟩
    else .keep left
  else
    let f := if expired || f.objectNotExist then f.createDirtyPayloadFromCommand r.cmd else f
    let executed := f.execute r.cmd r.applyAndCommit expired ctx.clock
    afterExecution r e { e with toObjectCce := executed.cce } (f.execResult r.cmd)

/-- What follows once the request has its first lock. -/
def process (e : ObjectCcEntry V) (ccOp : CcOperation) (acquiredLock : LockType)
    (overrideKvVal : Bool) : EntryEffect V :=
  let e := if overrideKvVal then { e with dirty := .deleted } else e
  let expired := e.ttlExpired ctx.ttlOf ctx.now
  if expired && r.isReadOnly then .keep e
  else
    let reset := e.ttlReset ctx.ttlOf r.cmd ctx.now
    let e :=
      if e.checkDirtyStatus r ccOp then
        { e with toObjectCce := e.createDirtyPayloadFromPendingCommand }
      else e
    if r.isReadOnly then
      if r.applyAndCommit = true ∧ acquiredLock ≠ .noLock then
        .keep (e.releaseCceLock r.req.txn acquiredLock)
      else .keep e
    else if acquiredLock = .writeLock then e.executeLocked ctx r expired
    else if e.runs r.cmd expired reset then
      match e.acquireCceKeyLock r .write with
      | (.successful, _, locked) => locked.executeLocked ctx r expired
      | (_, _, waiting) => .keep waiting
    else if r.applyAndCommit then .keep (e.releaseCceLock r.req.txn acquiredLock)
    else .keep e

def firstOp : CcOperation := if r.isReadOnly then .read else .readForWrite

/-- The first lock is acquired, and the request goes on if it has it. -/
def acquireAndProcess (lockOp ccOp : CcOperation) (overrideKvVal : Bool) (e : ObjectCcEntry V) :
    EntryEffect V :=
  match e.acquireCceKeyLock r lockOp with
  | (.successful, acquiredLock, locked) => locked.process ctx r ccOp acquiredLock overrideKvVal
  | (_, _, waiting) => .keep waiting

/-- A request that waited for its lock. -/
def resume (ccOp : CcOperation) (e : ObjectCcEntry V) : EntryEffect V :=
  match e.needFetchKv ctx r ccOp with
  | none => .keep e
  | some (found, overrideKvVal) =>
    match found.lockHandleForResumedRequest r ccOp with
    | (.successful, acquiredLock, locked) => locked.process ctx r ccOp acquiredLock overrideKvVal
    | (_, _, left) => .keep left

/-- `Execute(ApplyCc)`, from where the request has come so far. -/
def executeApplyCc (blockType : ApplyBlockType) (e : ObjectCcEntry V) : EntryEffect V :=
  match blockType with
  | .noBlocking =>
    if r.discard then .keep (e.abortBlockRequest r.req.txn).recycleKeyLock
    else
      match e.needFetchKv ctx r (firstOp r) with
      | none => .keep (e.acquireFetchIntent ctx.fetchTxn)
      | some (found, overrideKvVal) =>
        found.dropExpiredCommands.bind (acquireAndProcess ctx r (firstOp r) (firstOp r) overrideKvVal)
  | .blockOnRead => e.resume ctx r (firstOp r)
  | .blockOnWriteLock => e.resume ctx r .write
  | .blockOnFetch lockAcquired => e.process ctx r (firstOp r) lockAcquired false
  | .blockOnCondition => e.acquireAndProcess ctx r .write (firstOp r) false

end

/-- The transaction's object is committed, or taken back if the timestamp is 0. The list of
buffered commands is cleared. -/
def executePostWriteCc (ctx : RequestContext V) (txn : TxNumber) (commitTs : Nat)
    (e : ObjectCcEntry V) : EntryEffect V :=
  if e.ownsWriteLock txn then
    let committed := { e with toObjectCce := (e.toObjectCce.executePostWriteCc commitTs).1 }
    let left := (committed.releaseCceLock txn .writeLock).popBlockRequest
    let change := objSzChange e.payloadStatus committed.payloadStatus
    if left.payloadStatus = .unknown ∧ left.isFree ctx.persistent then ⟨none, change, 0⟩
    else ⟨some left, change, 0⟩
  else .keep e

/-- The number of objects is adjusted by the status from before the commands. -/
def executeUploadTxCommandsCc (txn : TxNumber) (c : TxnCmd V) (e : ObjectCcEntry V) : EntryEffect V :=
  if e.ownsWriteLock txn then
    let committed :=
      if 0 < c.newVersion ∧ e.commitTs ≤ c.objVersion then
        { e with toObjectEntry := e.emplaceAndCommitBufferedTxnCommand c }
      else e
    ⟨some (committed.releaseCceLock txn .writeLock),
      objSzChange e.payloadStatus e.payloadStatus,
      committed.bufferedCmds.length - e.bufferedCmds.length⟩
  else .keep e

/-- An unknown record is missing, or is fetched. -/
def prepareForward (ctx : RequestContext V) (m : ForwardRequest V) (e : ObjectCcEntry V) :
    ObjectCcEntry V :=
  if e.payloadStatus = .unknown then
    if m.hasOverwrite ∨ m.objectVersion = 1 ∨ ctx.ccmHasFullEntries then
      { e with toObjectEntry := e.setCommitTsPayloadStatus 1 .deleted }
    else if ctx.standby then e.acquireFetchIntent ctx.fetchTxn
    else e
  else e

/-- The message as the buffered list holds it. -/
def forwardedCmd (m : ForwardRequest V) : TxnCmd V :=
  ⟨m.objectVersion, m.commitTs, m.hasOverwrite, m.cmdList⟩

/-- `Execute(KeyObjectStandbyForwardCc)`. Only commands that are applied directly adjust the
number of objects. -/
def executeStandbyForwardCc (ctx : RequestContext V) (m : ForwardRequest V)
    (e : ObjectCcEntry V) : EntryEffect V :=
  if m.commitTs ≤ e.commitTs then .keep e
  else
    let e := e.prepareForward ctx m
    if (m.objectVersion = e.commitTs ∨ m.hasOverwrite) ∧ e.bufferedCmds.isEmpty then
      let payload := m.cmdList.foldl TxCommand.commit e.curPayload
      let applied := { e.toObjectEntry with curPayload := payload }
      ⟨some { e with
          toObjectEntry := applied.setCommitTsPayloadStatus m.commitTs (statusOf payload) },
        objSzChange e.payloadStatus (statusOf payload), 0⟩
    else
      let committed := { e.setKeyLock e.getOrCreateKeyLock with
        toObjectEntry := e.emplaceAndCommitBufferedTxnCommand (forwardedCmd m) }
      ⟨some (if committed.bufferedCmds.isEmpty then committed.recycleKeyLock else committed), 0,
        committed.bufferedCmds.length - e.bufferedCmds.length⟩

/-- The record of an `UploadBatchCc` at its entry. The number of objects is adjusted before the
buffered commands are committed, and the lock structure is not recycled. -/
def executeUploadBatchCc (row : UploadRecord V) (e : ObjectCcEntry V) : EntryEffect V :=
  if row.commitTs ≤ e.commitTs then .keep e
  else
    let payload := if row.recStatus = .normal then some row.object else none
    let filled :=
      { e.toObjectEntry with curPayload := payload }.setCommitTsPayloadStatus row.commitTs row.recStatus
    let committed :=
      { filled with
        bufferedCmds := filled.bufferedCmds.dropWhile fun c => decide (c.newVersion ≤ row.commitTs)
        }.commitBufferedCommands row.commitTs
    ⟨some { e with toObjectEntry := committed }, objSzChange e.payloadStatus row.recStatus,
      committed.bufferedCmds.length - e.bufferedCmds.length⟩

/-- Commands on an unknown record start its fetch, and every command needs the lock structure. -/
def prepareReplay (ctx : RequestContext V) (c : TxnCmd V) (e : ObjectCcEntry V) : ObjectCcEntry V :=
  let e :=
    if c.ignorePreviousVersion = false ∧ e.payloadStatus = .unknown ∧
        e.keyLock.all NonBlockingLock.isEmpty then
      e.acquireFetchIntent ctx.fetchTxn
    else e
  e.setKeyLock e.getOrCreateKeyLock

/-- A write lock is that of the transaction the log record is from. -/
def releaseReplayed (e : ObjectCcEntry V) : ObjectCcEntry V :=
  match e.keyLock with
  | some lock =>
    if lock.hasWriteLock then
      { e with dirty := .nonExistent, forwardEntry := none }.releaseCceLock lock.writeTxn .writeLock
    else e
  | none => e

/-- A command list of a `ReplayLogCc` at its entry. A list that is not newer than the entry is
discarded with the lock structure in place. -/
def executeReplayLogCc (ctx : RequestContext V) (c : TxnCmd V) (e : ObjectCcEntry V) : EntryEffect V :=
  let e := e.prepareReplay ctx c
  if e.commitTs < c.newVersion then
    let committed := { e with toObjectEntry := e.emplaceAndCommitBufferedTxnCommand c }
    let left := if committed.bufferedCmds.isEmpty then committed.recycleKeyLock else committed
    ⟨some left.releaseReplayed, objSzChange e.payloadStatus e.payloadStatus,
      committed.bufferedCmds.length - e.bufferedCmds.length⟩
  else .keep e

/-- `BackFill` with the record that was fetched. A fetch that failed leaves nothing to keep. -/
def executeBackFill (ctx : RequestContext V) (commitTs : Nat) (status : RecordStatus)
    (record : Option V) (e : ObjectCcEntry V) : EntryEffect V :=
  if 1 < commitTs ∧ commitTs < ctx.schemaTs then .keep e
  else
    let e := e.releaseCceLock ctx.fetchTxn .readIntent
    if status = .unknown then
      if e.isFree ctx.persistent then ⟨none, 0, 0⟩ else .keep e
    else if e.payloadStatus = .unknown then
      let filled :=
        { e with toObjectEntry := e.backFill ctx.schemaTs ctx.leader commitTs status record }
      ⟨some (if e.bufferedCmds ≠ [] ∧ filled.bufferedCmds = [] then filled.recycleKeyLock else filled),
        if filled.payloadStatus = .normal then 1 else 0,
        filled.bufferedCmds.length - e.bufferedCmds.length⟩
    else .keep e

/-- `MarkClean`, and `ClearLocks` with it: the entry goes with everything that waits on it. -/
def clean (e : ObjectCcEntry V) : EntryEffect V :=
  ⟨none, if e.payloadStatus = .normal then -1 else 0,
    if e.keyLock.isSome then -e.bufferedCmds.length else 0⟩

end ObjectCcEntry

end TxService
