import Mathlib.Algebra.Ring.Nat
import TxService.DataSyncScan

/-!
# The life of a data sync task

`DataSync` scans in rounds and hands each to a flush worker; the last to call
`PostProcessDataSyncTask` decides whether the task is completed or put back.
-/

namespace TxService

inductive Partition
  | range
  | hash
  deriving DecidableEq, Repr

/-- Where the worker of a task is, and after that who has the task. `drained` keeps the memory
usage of the vectors that have not been handed over. -/
inductive TaskPlace
  | queued
  | scanning
  | scanned (memUsage : Nat) (drained : Bool)
  | allocated (memUsage : Nat) (drained : Bool)
  | drained (leftover : Option Nat)
  | left
  | splitting
  | ending
  | failing
  | completed
  deriving DecidableEq, Repr

inductive TxmState
  | none
  | active
  | committed
  | aborted
  deriving DecidableEq, Repr

inductive SyncErrorCode
  | requestedTableNotExists
  | requestedNodeNotLeader
  | dataStoreErr
  | ngTermChanged
  deriving DecidableEq, Repr

/-- `flushWork` lists the memory usages of the flush tasks that are not done, `completions` what
the status of the task has been told, no code for `SetFinish`. `retries` counts the scans that
failed, so that the task was put back. -/
structure SyncTask where
  partition : Partition
  isDirty : Bool := false
  duringSplitRange : Bool := false
  exportBaseTableItems : Bool := false
  forwardCache : Bool := false
  hasFilter : Bool := false
  isStandbyNodeCkpt : Bool := false
  nodeGroupTerm : Int := 1
  syncTsAdjustable : Bool := false
  dataSyncTs : Nat
  /-- Of the range, or of the table on the core of the worker. -/
  lastSyncTs : Nat := 0
  flightTaskCnt : Int := 0
  ckptErr : Option CkptErrorCode := none
  place : TaskPlace := .queued
  flushWork : List Nat := []
  uploads : Nat := 0
  txm : TxmState := .none
  completions : List (Option SyncErrorCode) := []
  retries : Nat := 0
  deriving DecidableEq, Repr

/-- The outcome of `CalculateRangeUpdate`. -/
inductive RangeUpdate
  | failed
  | unchanged
  | split
  deriving DecidableEq, Repr

/-- What `DataSync` finds before it scans the records. -/
structure SyncStart where
  entryExists : Bool := true
  ownsRange : Bool := true
  latestPendingTs : Nat := 0
  isLeader : Bool := true
  txInit : Bool := true
  catalogReadError : Bool := false
  catalogNormal : Bool := true
  indexExists : Bool := true
  bucketReadError : Bool := false
  ownsBucket : Bool := true
  deltaScanError : Bool := false
  changedSlices : Bool := true
  rangeUpdate : RangeUpdate := .unchanged
  deriving DecidableEq, Repr

/-- What a round of the scan returns. `uploads` is the number of node groups that the cache is
sent to. -/
structure SyncScan where
  failed : Bool := false
  bucketInfos : Bool := true
  uploads : Nat := 0
  scanCnt : Nat
  memUsage : Nat
  drained : Bool
  deriving DecidableEq, Repr

inductive SyncAction
  | dataSync (found : SyncStart)
  | scan (round : SyncScan)
  | allocate
  | handOver
  | flushLeft
  | endScan
  | flush (i : Nat) (succ : Bool)
  | uploaded
  | updateStoreSlice (stored isLeader : Bool)
  | ckptEnd (ok catalogExists : Bool)
  | fail (leaderTerm standbyNodeTerm : Int)
  | splitFlushRange (partitionId ok : Bool)
  deriving DecidableEq, Repr

namespace SyncTask

def setFinish (t : SyncTask) : SyncTask :=
  { t with completions := t.completions ++ [none], place := .completed }

def setError (t : SyncTask) (e : SyncErrorCode) : SyncTask :=
  { t with completions := t.completions ++ [some e], place := .completed }

/-- To the front of the queue. -/
def putBack (t : SyncTask) : SyncTask := { t with place := .queued }

def commitTx (t : SyncTask) : SyncTask := { t with txm := .committed }

def abortTx (t : SyncTask) : SyncTask := { t with txm := .aborted }

def updateLastDataSyncTs (t : SyncTask) : SyncTask :=
  if t.lastSyncTs < t.dataSyncTs then { t with lastSyncTs := t.dataSyncTs } else t

def adjustSyncTs (t : SyncTask) (latestPendingTs : Nat) : SyncTask :=
  if t.syncTsAdjustable then
    { t with dataSyncTs := max latestPendingTs t.dataSyncTs, syncTsAdjustable := false }
  else t

def alreadySynced (t : SyncTask) : Bool := decide (t.dataSyncTs ≤ t.lastSyncTs) && !t.isDirty

def beginScan (t : SyncTask) : SyncTask :=
  { t with flightTaskCnt := t.flightTaskCnt + 1, place := .scanning }

/-- The delta sizes of the slices, and whether the range is to be split. -/
def scanDeltaSize (t : SyncTask) (found : SyncStart) : SyncTask :=
  if found.deltaScanError then (if t.duringSplitRange then t else t.abortTx).putBack
  else if !t.exportBaseTableItems && !found.changedSlices then
    (if t.duringSplitRange then t else t.commitTx.updateLastDataSyncTs).setFinish
  else if t.duringSplitRange then t.beginScan
  else
    match found.rangeUpdate with
    | .failed => t.abortTx.setError .dataStoreErr
    | .unchanged => t.beginScan
    | .split => { t with place := .splitting }

def startTx (t : SyncTask) : SyncTask := { t with txm := .active }

def lockRange (t : SyncTask) (found : SyncStart) : SyncTask :=
  if !found.txInit then t.putBack
  else if !found.catalogNormal then t.startTx.abortTx.setError .dataStoreErr
  else if found.catalogReadError then t.startTx.abortTx.putBack
  else if !found.indexExists then t.startTx.commitTx.setFinish
  else if found.bucketReadError then t.startTx.abortTx.putBack
  else if !found.ownsBucket then t.startTx.abortTx.setError .dataStoreErr
  else t.startTx.scanDeltaSize found

def dataSyncRange (t : SyncTask) (found : SyncStart) : SyncTask :=
  if t.duringSplitRange then t.scanDeltaSize found
  else if !found.entryExists then t.setError .requestedTableNotExists
  else if !found.ownsRange then t.setError .requestedNodeNotLeader
  else
    let t := t.adjustSyncTs found.latestPendingTs
    if t.alreadySynced then t.setFinish
    else if !found.isLeader then t.setError .requestedNodeNotLeader
    else t.lockRange found

def dataSyncHash (t : SyncTask) (found : SyncStart) : SyncTask :=
  if !found.entryExists then t.setError .requestedTableNotExists
  else
    let t := t.adjustSyncTs found.latestPendingTs
    if t.alreadySynced then t.setFinish
    else if !found.isLeader then t.setError .requestedNodeNotLeader
    else if !found.txInit then t.putBack
    else if !found.catalogNormal then t.startTx.abortTx.setError .requestedTableNotExists
    else if found.catalogReadError then t.startTx.abortTx.putBack
    else t.startTx.beginScan

def dataSync (t : SyncTask) (found : SyncStart) : SyncTask :=
  match t.partition with
  | .range => t.dataSyncRange found
  | .hash => t.dataSyncHash found

/-- The first error is kept. The last caller goes on with the task; an error of the scan puts it
back, with the error. -/
def postProcess (t : SyncTask) (err : Option CkptErrorCode) : SyncTask :=
  let t :=
    { t with
      flightTaskCnt := t.flightTaskCnt - 1
      ckptErr := if t.ckptErr = none then err else t.ckptErr }
  if t.flightTaskCnt = 0 then
    match t.ckptErr with
    | none => { t with place := .ending }
    | some .scanError =>
      { (if t.duringSplitRange then t else t.abortTx).putBack with retries := t.retries + 1 }
    | some .flushError => { t with place := .failing }
  else t

/-- What follows the update of the slices, also when it has been given up. -/
def finishRange (t : SyncTask) : SyncTask :=
  (if t.duringSplitRange then t else t.commitTx.updateLastDataSyncTs).setFinish

/-- Slices are written to the store only for a task that is not of a split. -/
def updateStoreSlice (t : SyncTask) (stored isLeader : Bool) : SyncTask :=
  if t.duringSplitRange || stored then t.finishRange
  else if isLeader then t
  else (t.setError .requestedNodeNotLeader).finishRange

def ckptEnd (t : SyncTask) (ok catalogExists : Bool) : SyncTask :=
  let t := t.commitTx
  if !ok then t.setError .dataStoreErr
  else if catalogExists && decide (t.dataSyncTs ≠ 2 ^ 64 - 1) && !t.hasFilter then
    t.updateLastDataSyncTs.setFinish
  else t.setFinish

/-- The error code of a failed flush. -/
def flushErrorCode (t : SyncTask) (leaderTerm standbyNodeTerm : Int) : SyncErrorCode :=
  match t.partition with
  | .range => if leaderTerm ≤ 0 then .requestedNodeNotLeader else .dataStoreErr
  | .hash =>
    if (if t.isStandbyNodeCkpt then leaderTerm else standbyNodeTerm) ≠ t.nodeGroupTerm then
      .ngTermChanged
    else .dataStoreErr

def fail (t : SyncTask) (leaderTerm standbyNodeTerm : Int) : SyncTask :=
  (if t.duringSplitRange then t else t.abortTx).setError (t.flushErrorCode leaderTerm standbyNodeTerm)

def splitFlushRange (t : SyncTask) (partitionId ok : Bool) : SyncTask :=
  if partitionId && ok then t.updateLastDataSyncTs.setFinish.commitTx
  else t.abortTx.setError .dataStoreErr

def addFlushWork (t : SyncTask) (memUsage : Nat) : SyncTask :=
  { t with flightTaskCnt := t.flightTaskCnt + 1, flushWork := t.flushWork ++ [memUsage] }

def leave (t : SyncTask) (err : Option CkptErrorCode) : SyncTask :=
  { t with place := .left }.postProcess err

def sendCache (t : SyncTask) (uploads : Nat) : SyncTask :=
  { t with flightTaskCnt := t.flightTaskCnt + uploads, uploads := t.uploads + uploads }

def scan (t : SyncTask) (round : SyncScan) : SyncTask :=
  match t.partition with
  | .range =>
    if round.failed then t.leave (some .scanError)
    else { t with place := .scanned round.memUsage round.drained }
  | .hash =>
    if round.failed || t.forwardCache && !round.bucketInfos then t.leave (some .scanError)
    else
      let t := if t.forwardCache then t.sendCache round.uploads else t
      if round.scanCnt = 0 then { t with place := .drained none }
      else { t with place := .scanned round.memUsage round.drained }

/-- The loop is left when a flush task has failed. -/
def handOver (t : SyncTask) (memUsage : Nat) (drained : Bool) : SyncTask :=
  if t.ckptErr = some .flushError then
    { t with
      place := .drained (match t.partition with | .range => none | .hash => some memUsage) }
  else { t.addFlushWork memUsage with place := if drained then .drained none else .scanning }

/-- The last vectors of a hash-partitioned table. -/
def flushLeft (t : SyncTask) (memUsage : Nat) : SyncTask :=
  if t.ckptErr = none then { t.addFlushWork memUsage with place := .drained none }
  else { t with place := .drained none }

def step (t : SyncTask) : SyncAction → Option SyncTask
  | .dataSync found => if t.place = .queued then some (t.dataSync found) else none
  | .scan round => if t.place = .scanning then some (t.scan round) else none
  | .allocate =>
    match t.place with
    | .scanned memUsage drained => some { t with place := .allocated memUsage drained }
    | _ => none
  | .handOver =>
    match t.place with
    | .allocated memUsage drained => some (t.handOver memUsage drained)
    | _ => none
  | .flushLeft =>
    match t.place with
    | .drained (some memUsage) => some (t.flushLeft memUsage)
    | _ => none
  | .endScan => if t.place = .drained none then some (t.leave none) else none
  | .flush i succ =>
    if i < t.flushWork.length then
      some ({ t with flushWork := t.flushWork.eraseIdx i }.postProcess
        (if succ then none else some .flushError))
    else none
  | .uploaded =>
    if t.uploads = 0 then none else some ({ t with uploads := t.uploads - 1 }.postProcess none)
  | .updateStoreSlice stored isLeader =>
    if t.place = .ending ∧ t.partition = .range then some (t.updateStoreSlice stored isLeader)
    else none
  | .ckptEnd ok catalogExists =>
    if t.place = .ending ∧ t.partition = .hash then some (t.ckptEnd ok catalogExists) else none
  | .fail leaderTerm standbyNodeTerm =>
    if t.place = .failing then some (t.fail leaderTerm standbyNodeTerm) else none
  | .splitFlushRange partitionId ok =>
    if t.place = .splitting then some (t.splitFlushRange partitionId ok) else none

def Step (t : SyncTask) (a : SyncAction) (u : SyncTask) : Prop := t.step a = some u

end SyncTask

end TxService
