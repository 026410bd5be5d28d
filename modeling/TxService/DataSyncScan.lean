import TxService.CheckpointExport
import TxService.KeyCursor

/-!
# The scan of a data sync

`Execute(DataSyncScanCc)` goes over the entries of one core in slots, between which the map may
change; `LocalCcShards::DataSync` loops over it.
-/

namespace TxService

universe u v w

open KeyCursor

/-- An entry in the order of the map, with the page it lies on. -/
structure CcItem (K : Type v) (E : Type w) where
  key : K
  page : Nat
  entry : E

/-- The entries of a core in order, and `last_dirty_commit_ts_` of each page. -/
structure PagedMap (K : Type v) (E : Type w) [LinearOrder K] where
  items : List (CcItem K E)
  lastDirtyCommitTs : Nat → Nat
  sorted : Sorted CcItem.key items

inductive ScanError
  | logNotTruncatable
  | taskExpired
  deriving DecidableEq, Repr

/-- `accumulated_scan_cnt_` is the length of the first vector. -/
structure DataSyncScanCc (K : Type v) (V : Type u) where
  dataSyncTs : Nat
  previousCkptTs : Nat
  scanBatchSize : Nat
  includePersistedData : Bool
  filterLambda : Option (K → Bool)
  pausePos : Option K
  drained : Bool
  vecs : CkptVecs K V
  scanHeapIsFull : Bool
  err : Option ScanError

/-- What the scan does with an entry, and how it leaves it. -/
inductive SyncVisit (K : Type v) (V : Type u) (E : Type w)
  | pass (entry : E)
  | keepLog
  | ckpt (entry : E) (rows : CkptVecs K V → CkptVecs K V)

/-- A slot: what it went by, what is left, and what the round has exported. -/
structure ScanSlot (K : Type v) (V : Type u) (E : Type w) where
  seen : List (CcItem K E)
  rest : List (CcItem K E)
  vecs : CkptVecs K V
  replayCmdsNotnull : Bool := false
  isScanMemFull : Bool := false

/-- The rows of a round as they are handed to a flush worker; archive rows and moves name
their keys by their place in the first vector. -/
structure FlushDataTask (K : Type v) (V : Type u) where
  dataSyncVec : List (FlushRecord K V)
  archiveVec : List (Option K × ArchiveFlushRecord V)
  mvBaseVec : List (Option K)

inductive CkptErrorCode
  | scanError
  | flushError
  deriving DecidableEq, Repr

inductive SyncPhase
  | scanning
  | scanned
  | left
  deriving DecidableEq, Repr

/-- The loop of `DataSync`: a round is being scanned, has been scanned, or the loop has
been left. -/
structure DataSync (K : Type v) (V : Type u) where
  scanCc : DataSyncScanCc K V
  phase : SyncPhase
  pendingFlushWork : List (FlushDataTask K V)
  noTruncateLog : Bool
  ckptErr : Option CkptErrorCode

section
variable {K : Type v} {V : Type u} {E : Type w}

namespace ScanSlot

def goBy (s : ScanSlot K V E) (gone rest : List (CcItem K E)) : ScanSlot K V E :=
  { s with seen := s.seen ++ gone, rest := rest }

def keepLog (s : ScanSlot K V E) : ScanSlot K V E := { s with replayCmdsNotnull := true }

def add (s : ScanSlot K V E) (rows : CkptVecs K V → CkptVecs K V) : ScanSlot K V E :=
  { s with vecs := rows s.vecs }

/-- The loop of a slot. There is one element of `heapFull` for each iteration it has time
for: whether the scan heap is full by then. -/
def scan (visit : CcItem K E → SyncVisit K V E) (skip : Nat → Bool) (scanBatchSize : Nat) :
    List Bool → ScanSlot K V E → ScanSlot K V E
  | [], s => s
  | full :: heapFull, s =>
    match s.rest with
    | [] => s
    | x :: rest =>
      if scanBatchSize ≤ s.vecs.ckptVec.length then s
      else if skip x.page then
        scan visit skip scanBatchSize heapFull
          (s.goBy (s.rest.takeWhile fun y => y.page = x.page)
            (s.rest.dropWhile fun y => y.page = x.page))
      else
        match visit x with
        | .pass entry =>
          scan visit skip scanBatchSize heapFull (s.goBy [{ x with entry := entry }] rest)
        | .keepLog =>
          scan visit skip scanBatchSize heapFull (s.goBy [x] rest).keepLog
        | .ckpt entry rows =>
          if full then { s with rest := { x with entry := entry } :: rest, isScanMemFull := true }
          else
            scan visit skip scanBatchSize heapFull
              ((s.goBy [{ x with entry := entry }] rest).add rows)

end ScanSlot

def DataSyncScanCc.wants (req : DataSyncScanCc K V) (key : K) : Bool :=
  match req.filterLambda with
  | none => true
  | some filter => filter key

namespace CcEntry

def needCkpt (e : CcEntry V) : Bool :=
  !e.isPersistent && (e.payloadStatus == .normal || e.payloadStatus == .deleted)

/-- With MVCC the versions that no transaction can see are dropped first. -/
def collected (e : CcEntry V) (mvccEnabled : Bool) (recycleTs : Nat) : CcEntry V :=
  if mvccEnabled then e.kickOutArchiveRecords recycleTs else e

def syncRows (e : CcEntry V) (key : K) (req : DataSyncScanCc K V) (mvccEnabled : Bool)
    (recycleTs : Nat) (vecs : CkptVecs K V) : CkptVecs K V :=
  (e.exportForCkpt key vecs req.dataSyncTs recycleTs mvccEnabled
    ⟨req.includePersistedData, false, false⟩).1

/-- `Execute(DataSyncScanCc)` at an entry that keeps its versions. -/
def visit (mvccEnabled : Bool) (recycleTs : Nat) (req : DataSyncScanCc K V)
    (x : CcItem K (CcEntry V)) : SyncVisit K V (CcEntry V) :=
  let e := x.entry.collected mvccEnabled recycleTs
  if req.wants x.key && (e.needCkpt || req.includePersistedData) then
    .ckpt e (e.syncRows x.key req mvccEnabled recycleTs)
  else .pass e

end CcEntry

namespace DataSyncScanCc

/-- Pages that have no updates since the last data sync. -/
def skips (req : DataSyncScanCc K V) (lastDirtyCommitTs : Nat → Nat) (page : Nat) : Bool :=
  lastDirtyCommitTs page ≤ req.previousCkptTs && !req.includePersistedData

/-- What a slot leaves of the request, and whether its round is finished; otherwise the
request is put into the queue again. -/
def afterSlot (req : DataSyncScanCc K V) (s : ScanSlot K V E) : DataSyncScanCc K V × Bool :=
  let req := { req with
    vecs := s.vecs
    err := if s.replayCmdsNotnull then some .logNotTruncatable else req.err }
  match s.rest with
  | [] => ({ req with pausePos := none, drained := true }, true)
  | x :: _ =>
    let req := { req with pausePos := some x.key }
    if s.isScanMemFull then ({ req with scanHeapIsFull := true }, true)
    else (req, req.scanBatchSize ≤ s.vecs.ckptVec.length)

def reset (req : DataSyncScanCc K V) : DataSyncScanCc K V :=
  { req with vecs := ⟨[], [], []⟩, err := none, scanHeapIsFull := false }

variable [LinearOrder K]

def slot (req : DataSyncScanCc K V) (visit : DataSyncScanCc K V → CcItem K E → SyncVisit K V E)
    (m : PagedMap K E) (heapFull : List Bool) : ScanSlot K V E :=
  ScanSlot.scan (visit req) (req.skips m.lastDirtyCommitTs) req.scanBatchSize heapFull
    { seen := [], rest := onward CcItem.key m.items req.pausePos, vecs := req.vecs }

/-- The entry the request paused at has been kicked out. -/
def expired (req : DataSyncScanCc K V) (m : PagedMap K E) : Bool :=
  req.pausePos.isSome && (onward CcItem.key m.items req.pausePos).isEmpty

/-- `Execute(DataSyncScanCc)`. -/
def execute (req : DataSyncScanCc K V)
    (visit : DataSyncScanCc K V → CcItem K E → SyncVisit K V E) (m : PagedMap K E)
    (heapFull : List Bool) : DataSyncScanCc K V × Bool :=
  if req.drained then (req, true)
  else if req.expired m then
    ({ req with err := some .taskExpired }, true)
  else req.afterSlot (req.slot visit m heapFull)

end DataSyncScanCc

/-- Rows whose entry is null are in the store already. -/
def CkptVecs.flushDataTask (vecs : CkptVecs K V) : FlushDataTask K V :=
  let dataSyncVec := vecs.ckptVec.filter fun row => row.hasCce
  { dataSyncVec := dataSyncVec
    archiveVec := vecs.akvVec.map fun row => (dataSyncVec[row.keyIndex]?.map FlushRecord.key, row)
    mvBaseVec := vecs.mvBaseVec.map fun i => dataSyncVec[i]?.map FlushRecord.key }

namespace DataSync

def start (dataSyncTs previousCkptTs scanBatchSize : Nat) (forwardCache : Bool)
    (filterLambda : Option (K → Bool)) : DataSync K V where
  scanCc :=
    { dataSyncTs := dataSyncTs, previousCkptTs := previousCkptTs, scanBatchSize := scanBatchSize
      includePersistedData := forwardCache, filterLambda := filterLambda, pausePos := none
      drained := false, vecs := ⟨[], [], []⟩, scanHeapIsFull := false, err := none }
  phase := .scanning
  pendingFlushWork := []
  noTruncateLog := false
  ckptErr := none

def executed (d : DataSync K V) (result : DataSyncScanCc K V × Bool) : DataSync K V :=
  { d with scanCc := result.1, phase := if result.2 then .scanned else .scanning }

/-- The body of the loop after a round. `scan_data_drained` is set to true first, and
corrected only when there is something to flush. -/
def afterRound (d : DataSync K V) (flushError : Bool) : DataSync K V :=
  if d.scanCc.err = some .taskExpired then { d with phase := .left, ckptErr := some .scanError }
  else
    let d := { d with noTruncateLog := d.noTruncateLog || d.scanCc.err == some ScanError.logNotTruncatable }
    if d.scanCc.vecs.ckptVec.isEmpty then { d with scanCc := d.scanCc.reset, phase := .left }
    else if flushError then { d with phase := .left, ckptErr := some .flushError }
    else
      { d with
        scanCc := d.scanCc.reset
        phase := if d.scanCc.drained then .left else .scanning
        pendingFlushWork := d.pendingFlushWork ++ [d.scanCc.vecs.flushDataTask] }

end DataSync

end

end TxService
