import Mathlib.Data.List.Basic

/-!
# Schema changes

`UpsertTableOp`: the object is taken from a pool (or new), set up by a request or from a prepare
or commit log, driven through its sub-operations and put back. The node stays leader.
-/

namespace TxService.UpsertTable

inductive OperationType where
  | createTable
  | dropTable
  | truncateTable
  | update
  deriving DecidableEq

/-- `op_`: the sub-operation whose result is awaited; `pooled` when the object is not in use. -/
inductive Stage where
  | pooled
  | lockClusterConfig
  | acquireAllIntent
  | prepareLog
  | postAllIntent
  | unlockClusterConfig
  | upsertKvTable
  | sequenceDataLog
  | resetSequenceRecord
  | acquireAllLock
  | commitLog
  | cleanCcm
  | postAllLock
  | cleanLog
  deriving DecidableEq

/-- `PostWriteType` of `post_all_lock_op_`. -/
inductive PostWriteType where
  | postCommit
  | downgradeLock
  deriving DecidableEq

inductive UpsertResult where
  | succeeded
  | failed
  | unverified
  deriving DecidableEq

/-- The result of a sub-operation. Intents give the commit and the last validation timestamp of
each node group, or a number of failures; `unknown` is a log write without a clear answer. -/
inductive SubResult where
  | success
  | error
  | unknown
  | deadlock
  | acquired (results : List (Nat × Nat))
  | refused (failures : Nat)
  deriving DecidableEq

/-- What a use of the object has done, in order. -/
inductive Event where
  | prepareLogged (commitTs : Nat)
  | kvFailed
  | commitLogged (commitTs : Nat)
  | postCommitted (commitTs : Nat)
  | cleanLogged
  | told (result : UpsertResult)
  deriving DecidableEq

/-- `tx_op_failed_ts_`. -/
def txOpFailedTs : Nat := 0

/-- The settings of the data store. -/
structure StoreConfig where
  skipKv : Bool
  sharedStorage : Bool

/-- The operation with the timestamps of its transaction. -/
structure UpsertTableOp where
  op : Stage
  opType : OperationType
  -- the dirty schema has an auto increment column
  hasAutoIncrement : Bool
  -- `prepare_log_op_.hd_result_.IsFinished()`
  prepareLogFinished : Bool
  -- `acquire_all_intent_op_.fail_cnt_`
  intentFailCnt : Nat
  writeType : PostWriteType
  isForceFinished : Bool
  commitTs : Nat
  commitTsBound : Nat
  deriving DecidableEq

structure Forwarded where
  op : UpsertTableOp
  events : List Event

/-- Go on with the sub-operation of another stage, or with the same one again. -/
def UpsertTableOp.goto (w : UpsertTableOp) (stage : Stage) : UpsertTableOp := { w with op := stage }

/-- The end of the operation: the caller is answered, the object goes back to the pool. -/
def UpsertTableOp.finish (w : UpsertTableOp) (result : UpsertResult) : Forwarded :=
  ⟨w.goto .pooled, [.told result]⟩

/-- The last branch of `clean_log_op_`. -/
def UpsertTableOp.result (w : UpsertTableOp) : UpsertResult :=
  if w.commitTs = txOpFailedTs then .failed
  else if w.isForceFinished then .unverified
  else .succeeded

/-- `ForceToFinish`. -/
def UpsertTableOp.forceToFinish (w : UpsertTableOp) : Forwarded :=
  let w := { w with isForceFinished := true }
  w.finish w.result

def UpsertTableOp.afterLockClusterConfig (w : UpsertTableOp) : SubResult → Option Forwarded
  | .error =>
    if w.prepareLogFinished then some w.forceToFinish
    else some { w with commitTs := txOpFailedTs }.forceToFinish
  | .success =>
    if w.prepareLogFinished then some ⟨w.goto .acquireAllLock, []⟩
    -- the counter is reset when the intents are requested
    else some ⟨{ w with op := .acquireAllIntent, intentFailCnt := 0 }, []⟩
  | _ => none

/-- The timestamps of one node group. -/
def intentTs (r : Nat × Nat) : Nat := max (r.1 + 1) (r.2 + 1)

def UpsertTableOp.afterAcquireAllIntent (w : UpsertTableOp) : SubResult → Option Forwarded
  | .refused failures => some ⟨{ w with
      op := .postAllLock
      intentFailCnt := failures + 1
      commitTs := txOpFailedTs }, []⟩
  | .acquired results =>
    let bound := (results.map intentTs).foldl max w.commitTsBound
    some ⟨{ w with
      op := .prepareLog
      commitTsBound := bound
      commitTs := (results.map intentTs).foldl max (bound + 1) }, []⟩
  | _ => none

def UpsertTableOp.afterPrepareLog (w : UpsertTableOp) : SubResult → Option Forwarded
  | .unknown => some ⟨w, []⟩
  | .error => some ⟨{ w with
      op := .postAllLock
      prepareLogFinished := true
      commitTs := txOpFailedTs }, []⟩
  | .success => some ⟨{ w with op := .postAllIntent, prepareLogFinished := true },
      [.prepareLogged w.commitTs]⟩
  | _ => none

def UpsertTableOp.afterPostAllIntent (w : UpsertTableOp) : SubResult → Option Forwarded
  | .error => some ⟨w, []⟩
  | .success =>
    match w.opType with
    | .dropTable | .truncateTable | .update => some ⟨w.goto .acquireAllLock, []⟩
    | .createTable => some ⟨w.goto .unlockClusterConfig, []⟩
  | _ => none

/-- The release of a local read lock is asserted not to fail; the code after the assertion does
not look at the result. -/
def UpsertTableOp.afterUnlockClusterConfig (w : UpsertTableOp) : SubResult → Option Forwarded
  | .error | .success => some ⟨w.goto .upsertKvTable, []⟩
  | _ => none

def UpsertTableOp.afterUpsertKvTable (w : UpsertTableOp) : SubResult → Option Forwarded
  | .error =>
    match w.opType with
    | .dropTable | .truncateTable | .update => some ⟨w, []⟩
    | .createTable => some ⟨{ w with op := .commitLog, commitTs := txOpFailedTs }, [.kvFailed]⟩
  | .success =>
    match w.opType with
    | .dropTable | .truncateTable => some ⟨w.goto .cleanCcm, []⟩
    | .update => some ⟨w.goto .postAllLock, []⟩
    | .createTable =>
      if w.hasAutoIncrement then some ⟨w.goto .sequenceDataLog, []⟩
      else some ⟨w.goto .lockClusterConfig, []⟩
  | _ => none

/-- A sub-operation that is repeated until it succeeds. -/
def UpsertTableOp.retryUntil (w : UpsertTableOp) (stage : Stage) : SubResult → Option Forwarded
  | .error => some ⟨w, []⟩
  | .success => some ⟨w.goto stage, []⟩
  | _ => none

def UpsertTableOp.afterSequenceDataLog (w : UpsertTableOp) : SubResult → Option Forwarded :=
  w.retryUntil .resetSequenceRecord

def UpsertTableOp.afterResetSequenceRecord (w : UpsertTableOp) : SubResult → Option Forwarded :=
  w.retryUntil .lockClusterConfig

def UpsertTableOp.afterAcquireAllLock (w : UpsertTableOp) : SubResult → Option Forwarded
  | .deadlock => some ⟨{ w with op := .postAllLock, writeType := .downgradeLock }, []⟩
  | .error => some ⟨w, []⟩
  | .success => some ⟨w.goto .commitLog, []⟩
  | _ => none

/-- The stage that follows the commit log. -/
def UpsertTableOp.committedStage (c : StoreConfig) (w : UpsertTableOp) : Stage :=
  match w.opType with
  | .truncateTable => if ¬ c.skipKv ∧ ¬ c.sharedStorage then .cleanCcm else .upsertKvTable
  | .dropTable | .update => .upsertKvTable
  | .createTable => .postAllLock

def UpsertTableOp.afterCommitLog (c : StoreConfig) (w : UpsertTableOp) : SubResult → Option Forwarded
  | .error => some ⟨w, []⟩
  | .success => some ⟨w.goto (w.committedStage c), [.commitLogged w.commitTs]⟩
  | _ => none

def UpsertTableOp.afterCleanCcm (w : UpsertTableOp) : SubResult → Option Forwarded :=
  w.retryUntil .postAllLock

/-- A lock that was downgraded after a deadlock is acquired again. -/
def UpsertTableOp.afterPostAllLock (w : UpsertTableOp) : SubResult → Option Forwarded
  | .error =>
    if 0 < w.intentFailCnt then some (w.finish .failed)
    else some ⟨w, []⟩
  | .success =>
    let posted := match w.writeType with
      | .postCommit => [Event.postCommitted w.commitTs]
      | .downgradeLock => []
    if 0 < w.intentFailCnt then
      some ⟨(w.finish .failed).op, posted ++ (w.finish .failed).events⟩
    else
      match w.writeType with
      | .downgradeLock => some ⟨{ w with writeType := .postCommit, op := .acquireAllLock }, posted⟩
      | .postCommit => some ⟨w.goto .cleanLog, posted⟩
  | _ => none

def UpsertTableOp.afterCleanLog (w : UpsertTableOp) : SubResult → Option Forwarded
  | .error => some ⟨w, []⟩
  | .success => some ⟨(w.finish w.result).op, .cleanLogged :: (w.finish w.result).events⟩
  | _ => none

/-- `UpsertTableOp::Forward` with the result of the awaited sub-operation. -/
def UpsertTableOp.forward (c : StoreConfig) (w : UpsertTableOp) (r : SubResult) : Option Forwarded :=
  match w.op with
  | .pooled => none
  | .lockClusterConfig => w.afterLockClusterConfig r
  | .acquireAllIntent => w.afterAcquireAllIntent r
  | .prepareLog => w.afterPrepareLog r
  | .postAllIntent => w.afterPostAllIntent r
  | .unlockClusterConfig => w.afterUnlockClusterConfig r
  | .upsertKvTable => w.afterUpsertKvTable r
  | .sequenceDataLog => w.afterSequenceDataLog r
  | .resetSequenceRecord => w.afterResetSequenceRecord r
  | .acquireAllLock => w.afterAcquireAllLock r
  | .commitLog => w.afterCommitLog c r
  | .cleanCcm => w.afterCleanCcm r
  | .postAllLock => w.afterPostAllLock r
  | .cleanLog => w.afterCleanLog r

/-- How a use begins: by a request of a transaction with its timestamp bound, or by recovery from
the last log of the schema change. -/
inductive Start where
  | request (commitTsBound : Nat)
  | prepareSchema (commitTs : Nat)
  | commitSchema (commitTs : Nat)
  deriving DecidableEq

/-- A schema change to do. The timestamp of a prepare log is that of the new schema; a commit log
without one rejects the new table. -/
structure Request where
  opType : OperationType
  hasAutoIncrement : Bool
  start : Start
  versioned : start ≠ .prepareSchema txOpFailedTs
  rejects : start = .commitSchema txOpFailedTs → opType = .createTable
  deriving DecidableEq

/-- `Reset`: the failures of `acquire_all_intent_op_` stay as they are. -/
def UpsertTableOp.reset (w : UpsertTableOp) (r : Request) : UpsertTableOp where
  op := .lockClusterConfig
  opType := r.opType
  hasAutoIncrement := r.hasAutoIncrement
  prepareLogFinished := false
  intentFailCnt := w.intentFailCnt
  writeType := .postCommit
  isForceFinished := false
  commitTs := 0
  commitTsBound := 0

/-- The set-up of a use with its first `Forward`, and the logs that are already written. -/
def UpsertTableOp.begin (c : StoreConfig) (w : UpsertTableOp) (r : Request) : Forwarded :=
  match r.start with
  | .request bound => ⟨{ w.reset r with commitTsBound := bound }, []⟩
  | .prepareSchema commitTs => ⟨{ w.reset r with
      op := .postAllIntent
      prepareLogFinished := true
      commitTs := commitTs }, [.prepareLogged commitTs]⟩
  | .commitSchema commitTs => ⟨{ w.reset r with
      op := (w.reset r).committedStage c
      commitTs := commitTs }, [.commitLogged commitTs]⟩

structure Use where
  request : Request
  events : List Event
  deriving DecidableEq

/-- One object, its current use and the uses that have ended. -/
structure SchemaOps where
  op : UpsertTableOp
  use : Use
  ended : List Use
  deriving DecidableEq

inductive Action where
  | start (request : Request)
  | forward (result : SubResult)
  deriving DecidableEq

def SchemaOps.next (c : StoreConfig) (s : SchemaOps) : Action → Option SchemaOps
  | .start r =>
    if s.op.op = .pooled then
      let f := s.op.begin c r
      some { s with op := f.op, use := ⟨r, f.events⟩ }
    else none
  | .forward result => (s.op.forward c result).map fun f =>
    let use := { s.use with events := s.use.events ++ f.events }
    { op := f.op
      use := use
      ended := if f.op.op = .pooled then s.ended ++ [use] else s.ended }

def Request.empty : Request := ⟨.createTable, false, .request 0, nofun, nofun⟩

/-- An object that has not been used. -/
def SchemaOps.initial : SchemaOps where
  op := ⟨.pooled, .createTable, false, false, 0, .postCommit, false, 0, 0⟩
  use := ⟨.empty, []⟩
  ended := []

/-- The prepare log of the schema change is written, by this use or before it. -/
def Use.Prepared (u : Use) : Prop :=
  (∃ ts, .prepareLogged ts ∈ u.events) ∨ ∃ ts, u.request.start = .commitSchema ts

/-- The version of the new schema. -/
def Use.NewSchema (u : Use) (ts : Nat) : Prop :=
  ts ≠ txOpFailedTs ∧ (.prepareLogged ts ∈ u.events ∨ u.request.start = .commitSchema ts)

/-- The data store step failed and the commit log says so. -/
def Use.Rejected (u : Use) : Prop :=
  u.request.opType = .createTable ∧
    ([.kvFailed, .commitLogged txOpFailedTs].Sublist u.events ∨
      u.request.start = .commitSchema txOpFailedTs)

/-- What holds of a use that has ended. -/
structure Use.Complete (u : Use) : Prop where
  /-- After the prepare log the operation ends with `PostCommit` on all node groups and the clean
  log. -/
  finished : u.Prepared → ∃ ts r, (u.NewSchema ts ∨ ts = txOpFailedTs) ∧
    [.postCommitted ts, .cleanLogged, .told r].IsSuffix u.events
  rejected : u.Prepared → .postCommitted txOpFailedTs ∈ u.events → u.Rejected
  succeeded : .told .succeeded ∈ u.events ↔ ∃ ts, u.NewSchema ts ∧ .postCommitted ts ∈ u.events

def Start.recovers : Start → Bool
  | request _ => false
  | prepareSchema _ | commitSchema _ => true

/-- An object that is used for recovery has no failures of an earlier use, and the second lock on
the cluster config does not fail. -/
def SchemaOps.Permits (s : SchemaOps) : Action → Prop
  | .start r => r.start.recovers = true → s.op.intentFailCnt = 0
  | .forward result => s.op.op = .lockClusterConfig → result = .error →
    s.op.prepareLogFinished = false

instance (s : SchemaOps) : (a : Action) → Decidable (s.Permits a)
  | .start r => inferInstanceAs (Decidable (r.start.recovers = true → s.op.intentFailCnt = 0))
  | .forward result => inferInstanceAs (Decidable (s.op.op = .lockClusterConfig → result = .error →
      s.op.prepareLogFinished = false))

end TxService.UpsertTable
