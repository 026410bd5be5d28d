import Mathlib.Data.Finset.Card
import Mathlib.Data.Finset.Erase
import Mathlib.Data.Finset.Insert
import TxService.Protocol

/-!
# The lock of one cc entry

An operation that may wake waiters also returns the requests that `ExecuteQueuedRequest` puts back
into the shard's queue, in that order. The circular queue of waiters is a list.
-/

namespace TxService

/-- A `CcRequestBase`: the lock reads its transaction only, the identity tells
two requests of one transaction apart. -/
structure CcRequest where
  txn : TxNumber
  id : Nat
  deriving DecidableEq, Repr

inductive WriteLockType
  | noWritelock
  | writeLock
  | writeIntent
  deriving DecidableEq, Repr

structure LockQueueEntry where
  req : CcRequest
  lkType : LockType
  deriving DecidableEq, Repr

structure NonBlockingLock where
  readIntentions : Finset TxNumber
  readLocks : Finset TxNumber
  readCnt : Int
  writeLkType : WriteLockType
  writeTxn : TxNumber
  wlockTs : Nat
  blockingQueue : List LockQueueEntry
  deriving DecidableEq

namespace NonBlockingLock

/-- The state `Reset` leaves. -/
def reset : NonBlockingLock := ⟨∅, ∅, 0, .noWritelock, 0, 0, []⟩

def noReadLockConflict (l : NonBlockingLock) (txNumber : TxNumber) : Bool :=
  if 0 < l.readCnt then false
  else decide (l.readLocks = ∅) || decide (l.readLocks = {txNumber})

def noWriteLockConflict (l : NonBlockingLock) (txNumber : TxNumber) : Bool :=
  decide (l.writeLkType ≠ .writeLock) || decide (l.writeTxn = txNumber)

def noWriteConflict (l : NonBlockingLock) (txn : TxNumber) : Bool :=
  decide (l.writeLkType = .noWritelock) || decide (l.writeTxn = txn)

def upgradeLock (l : NonBlockingLock) (txNumber : TxNumber) (lockType : LockType) :
    NonBlockingLock :=
  let l := match lockType with
    | .writeLock => { l with writeTxn := txNumber, writeLkType := .writeLock }
    | .writeIntent => { l with writeTxn := txNumber, writeLkType := .writeIntent }
    | _ => l
  { l with
    readIntentions := l.readIntentions.erase txNumber
    readLocks := l.readLocks.erase txNumber }

/-- The effect shared by a direct and a queued grant of the read lock. -/
def addReadLock (l : NonBlockingLock) (txNumber : TxNumber) : NonBlockingLock :=
  { l with
    readLocks := insert txNumber l.readLocks
    readIntentions := l.readIntentions.erase txNumber }

/-- The conflict test `TryPopBlockingQueue` makes for the request at the head. -/
def grantable (l : NonBlockingLock) (e : LockQueueEntry) : Bool :=
  match e.lkType with
  | .writeLock => l.noWriteConflict e.req.txn && l.noReadLockConflict e.req.txn
  | .writeIntent => l.noWriteConflict e.req.txn
  | .readLock => l.noWriteLockConflict e.req.txn
  | _ => true

def grant (l : NonBlockingLock) (e : LockQueueEntry) : NonBlockingLock :=
  match e.lkType with
  | .writeLock => l.upgradeLock e.req.txn .writeLock
  | .writeIntent => l.upgradeLock e.req.txn .writeIntent
  | .readLock => l.addReadLock e.req.txn
  | _ => l

/-- The loop of `TryPopBlockingQueue` over the waiters that are left: a grant
dequeues the head and re-executes it, the first conflict ends the loop. -/
def popLoop (l : NonBlockingLock) : List LockQueueEntry → NonBlockingLock × List CcRequest
  | [] => ({ l with blockingQueue := [] }, [])
  | e :: rest =>
    if l.grantable e then
      let r := popLoop (l.grant e) rest
      (r.1, e.req :: r.2)
    else ({ l with blockingQueue := e :: rest }, [])

def tryPopBlockingQueue (l : NonBlockingLock) : NonBlockingLock × List CcRequest :=
  l.popLoop l.blockingQueue

def enqueue (l : NonBlockingLock) (req : CcRequest) (lockType : LockType) : NonBlockingLock :=
  { l with blockingQueue := l.blockingQueue ++ [⟨req, lockType⟩] }

def acquireWriteLock (l : NonBlockingLock) (req : CcRequest) (protocol : CcProtocol) :
    Bool × NonBlockingLock :=
  if l.writeLkType = .writeLock ∧ l.writeTxn = req.txn then (true, l)
  else if l.noWriteConflict req.txn && l.noReadLockConflict req.txn then
    (true, l.upgradeLock req.txn .writeLock)
  else if protocol = .locking ∨ protocol = .occRead then (false, l.enqueue req .writeLock)
  else (false, l)

/-- A read lock passes a queue that is empty or headed by a write intent. -/
def noBlockingQueueConflict (l : NonBlockingLock) : Bool :=
  match l.blockingQueue with
  | [] => true
  | e :: _ => decide (e.lkType = .writeIntent)

def acquireReadLockFast (l : NonBlockingLock) (txNumber : TxNumber) : Bool × NonBlockingLock :=
  if l.noWriteLockConflict txNumber && l.noBlockingQueueConflict then
    (true, { l with readCnt := l.readCnt + 1 })
  else (false, l)

def releaseReadLockFast (l : NonBlockingLock) : Bool × NonBlockingLock × List CcRequest :=
  (true, { l with readCnt := l.readCnt - 1 }.tryPopBlockingQueue)

def acquireReadLock (l : NonBlockingLock) (req : CcRequest) : Bool × NonBlockingLock :=
  if req.txn ∈ l.readLocks ∨ (l.writeLkType ≠ .noWritelock ∧ l.writeTxn = req.txn) then (true, l)
  else if l.noWriteLockConflict req.txn && l.noBlockingQueueConflict then
    (true, l.addReadLock req.txn)
  else (false, l.enqueue req .readLock)

def releaseReadLock (l : NonBlockingLock) (txNumber : TxNumber) :
    Bool × NonBlockingLock × List CcRequest :=
  if txNumber ∈ l.readLocks then
    (true, { l with readLocks := l.readLocks.erase txNumber }.tryPopBlockingQueue)
  else (false, l, [])

/-- The write slot emptied by a release or by `ClearTx`. -/
def dropWrite (l : NonBlockingLock) : NonBlockingLock :=
  { l with writeLkType := .noWritelock, writeTxn := 0 }

/-- `ccs = false` is the null shard of the unit tests: nobody is woken. -/
def releaseWriteLock (l : NonBlockingLock) (txNumber : TxNumber) (ccs : Bool) :
    Bool × NonBlockingLock × List CcRequest :=
  if l.writeLkType ≠ .writeLock ∨ l.writeTxn ≠ txNumber then (false, l, [])
  else if ccs = false then (true, l.dropWrite, [])
  else (true, l.dropWrite.tryPopBlockingQueue)

def acquireWriteIntent (l : NonBlockingLock) (req : CcRequest) (protocol : CcProtocol) :
    Bool × NonBlockingLock :=
  if l.writeLkType ≠ .noWritelock ∧ l.writeTxn = req.txn then (true, l)
  else if l.noWriteConflict req.txn && decide (l.blockingQueue = []) then
    (true, l.upgradeLock req.txn .writeIntent)
  else if protocol ≠ .occ then (false, l.enqueue req .writeIntent)
  else (false, l)

def downgradeWriteLock (l : NonBlockingLock) (txNumber : TxNumber) :
    NonBlockingLock × List CcRequest :=
  if l.writeLkType ≠ .writeLock ∨ l.writeTxn ≠ txNumber then (l, [])
  else { l with writeLkType := .writeIntent }.tryPopBlockingQueue

def releaseWriteIntent (l : NonBlockingLock) (txNumber : TxNumber) :
    Bool × NonBlockingLock × List CcRequest :=
  if l.writeLkType ≠ .writeIntent ∨ l.writeTxn ≠ txNumber then (false, l, [])
  else (true, l.dropWrite.tryPopBlockingQueue)

def acquireReadIntent (l : NonBlockingLock) (txNumber : TxNumber) : Bool × NonBlockingLock :=
  if txNumber ∈ l.readLocks ∨ txNumber ∈ l.readIntentions ∨
      (l.writeLkType ≠ .noWritelock ∧ l.writeTxn = txNumber) then (false, l)
  else (true, { l with readIntentions := insert txNumber l.readIntentions })

def releaseReadIntent (l : NonBlockingLock) (txNumber : TxNumber) : Bool × NonBlockingLock :=
  (decide (txNumber ∈ l.readIntentions),
    { l with readIntentions := l.readIntentions.erase txNumber })

def acquireLock (l : NonBlockingLock) (req : CcRequest) (ccProtocol : CcProtocol)
    (lockType : LockType) : LockOpStatus × NonBlockingLock :=
  match lockType with
  | .noLock => (.successful, l)
  | .readIntent => (.successful, (l.acquireReadIntent req.txn).2)
  | .readLock =>
    let r := l.acquireReadLock req
    (if r.1 then .successful else .blocked, r.2)
  | .writeIntent =>
    let r := l.acquireWriteIntent req ccProtocol
    (if r.1 then .successful else if ccProtocol = .occ then .failed else .blocked, r.2)
  | .writeLock =>
    let r := l.acquireWriteLock req ccProtocol
    (if r.1 then .successful else if ccProtocol = .occ then .failed else .blocked, r.2)

def insertBlockingQueue (l : NonBlockingLock) (req : CcRequest) (lockType : LockType) :
    NonBlockingLock :=
  { l with blockingQueue := ⟨req, lockType⟩ :: l.blockingQueue }

def isEmpty (l : NonBlockingLock) : Bool :=
  decide (l.readIntentions = ∅) && decide (l.readLocks = ∅) && decide (l.readCnt = 0) &&
    decide (l.writeLkType = .noWritelock) && decide (l.blockingQueue = [])

def hasWriteLock (l : NonBlockingLock) : Bool := decide (l.writeLkType = .writeLock)

/-- Clears the first kind of lock found, in the order read lock, read intent,
write lock or intent, and says which one it was. -/
def clearTx (l : NonBlockingLock) (txNumber : TxNumber) :
    LockType × NonBlockingLock × List CcRequest :=
  let rl := l.releaseReadLock txNumber
  if rl.1 then (.readLock, rl.2)
  else
    let ri := l.releaseReadIntent txNumber
    if ri.1 then (.readIntent, ri.2, [])
    else if l.writeLkType ≠ .noWritelock ∧ l.writeTxn = txNumber then
      (if l.writeLkType = .writeLock then .writeLock else .writeIntent,
        l.dropWrite.tryPopBlockingQueue)
    else (.noLock, l, [])

def setWLockTs (l : NonBlockingLock) (ts : Nat) : NonBlockingLock := { l with wlockTs := ts }

/-- The aborted requests, in queue order, and the lock without them. -/
def abortQueueRequest (l : NonBlockingLock) (txid : TxNumber) : NonBlockingLock × List CcRequest :=
  ({ l with blockingQueue := l.blockingQueue.filter fun e => decide (e.req.txn ≠ txid) },
    (l.blockingQueue.filter fun e => decide (e.req.txn = txid)).map (·.req))

def abortAllQueuedRequests (l : NonBlockingLock) : NonBlockingLock × List CcRequest :=
  ({ l with blockingQueue := [] }, l.blockingQueue.map (·.req))

def findQueueRequest (l : NonBlockingLock) (txid : TxNumber) : Bool :=
  l.blockingQueue.any fun e => decide (e.req.txn = txid)

def searchLock (l : NonBlockingLock) (txn : TxNumber) : LockType :=
  if l.writeLkType ≠ .noWritelock ∧ l.writeTxn = txn then
    if l.writeLkType = .writeLock then .writeLock else .writeIntent
  else if txn ∈ l.readLocks then .readLock
  else if txn ∈ l.readIntentions then .readIntent
  else .noLock

end NonBlockingLock

end TxService
