import Mathlib.Logic.Basic

/-! The vocabulary of `cc_protocol.h`, `tx_record.h` and `type.h`: what a request
asks of a cc entry, under which protocol and isolation level, what the lock
answers, and what is known of a record. -/

namespace TxService

abbrev TxNumber := Nat

abbrev NodeGroupId := Nat

inductive TableType
  | primary
  | secondary
  | uniqueSecondary
  | catalog
  | rangePartition
  | rangeBucket
  | clusterConfig
  deriving DecidableEq, Repr

inductive CcProtocol
  | occ
  | occRead
  | locking
  deriving DecidableEq, Repr

inductive CcOperation
  | read
  | readForWrite
  | write
  | readSkIndex
  deriving DecidableEq, Repr

inductive IsolationLevel
  | readCommitted
  | snapshot
  | repeatableRead
  | serializable
  deriving DecidableEq, Repr

inductive LockType
  | noLock
  | readIntent
  | readLock
  | writeIntent
  | writeLock
  deriving DecidableEq, Repr

inductive LockOpStatus
  | successful
  | failed
  | blocked
  deriving DecidableEq, Repr

inductive RecordStatus
  | normal
  | unknown
  | deleted
  | remoteUnknown
  | versionUnknown
  | baseVersionMiss
  | archiveVersionMiss
  | invalid
  | nonExistent
  | uncreated
  deriving DecidableEq, Repr

/-- `LockTypeUtil::DeduceLockType`. -/
def deduceLockType (ccOp : CcOperation) (isoLevel : IsolationLevel) (ccProtocol : CcProtocol)
    (isCoveringKeys : Bool) : LockType :=
  match ccOp with
  | .readSkIndex =>
    if isoLevel = .snapshot ∨ (isoLevel = .readCommitted ∧ isCoveringKeys = true) then .noLock
    else .readLock
  | .readForWrite => .writeIntent
  | .write => .writeLock
  | .read =>
    match isoLevel with
    | .readCommitted | .snapshot => .noLock
    | .repeatableRead | .serializable =>
      if ccProtocol = .locking then .readLock else .readIntent

end TxService
