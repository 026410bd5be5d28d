import Mathlib.Data.List.Nodup
import Mathlib.Data.List.Perm.Basic
import TxService.ByteReader

/-!
# The log replay service

`RecoveryService` accepts one stream for each log group of a recovering node group. A failed replay
closes the streams of its node group and term and queues the request again.
-/

namespace TxService.RecoveryService

abbrev StreamId := Nat

structure ConnectionInfo where
  logGroupId : Nat
  ccNgId : Nat
  ccNgTerm : Int
  replayStartTs : Nat
  recovering : Bool
  recoveryError : Bool
  deriving DecidableEq

/-- A replay request; `-1` stands for all log groups. -/
structure ReplayLogTask where
  ccNgId : Nat
  ccNgTerm : Int
  logGroup : Int
  replayStartTs : Nat
  queuedClock : Nat
  deriving DecidableEq

/-- `inbound_connections_` in the order in which it is walked. -/
structure InboundConnections where
  entries : List (StreamId × ConnectionInfo)
  distinct : (entries.map Prod.fst).Nodup

structure Service where
  inboundConnections : InboundConnections
  replayLogQueue : List ReplayLogTask
  delayedReplayQueue : List ReplayLogTask
  -- the streams that were closed, in order
  closedStreams : List StreamId

namespace InboundConnections

def find (c : InboundConnections) (id : StreamId) : Option ConnectionInfo :=
  (c.entries.find? fun e => e.1 = id).map Prod.snd

theorem find_of_mem (c : InboundConnections) {id : StreamId} {info : ConnectionInfo}
    (mem : (id, info) ∈ c.entries) : c.find id = some info := by
  have found : (c.entries.find? fun e => e.1 = id).isSome = true := by
    rw [List.find?_isSome]
    exact ⟨_, mem, decide_eq_true rfl⟩
  obtain ⟨e, he⟩ := Option.isSome_iff_exists.mp found
  have same : e = (id, info) := by
    refine List.inj_on_of_nodup_map c.distinct (List.mem_of_find?_eq_some he) mem ?_
    simpa using List.find?_some he
  rw [find, he, same]
  rfl

end InboundConnections

namespace Service

def replayLog (s : Service) (ccNgId : Nat) (ccNgTerm : Int) (logGroup : Int) (replayStartTs : Nat)
    (delayedRequest : Bool) (clock : Nat) : Service :=
  if delayedRequest then
    { s with delayedReplayQueue :=
        s.delayedReplayQueue ++ [⟨ccNgId, ccNgTerm, logGroup, replayStartTs, clock⟩] }
  else { s with replayLogQueue := s.replayLogQueue ++ [⟨ccNgId, ccNgTerm, logGroup, replayStartTs, 0⟩] }

/-- The loop of `WaitAndClearRequests` over the connections; none when the assertion fails. -/
def closeStreams (errorNodeGroupId : Nat) (errorTerm : Int) :
    List (StreamId × ConnectionInfo) → Nat → List StreamId → Option (Nat × List StreamId)
  | [], replayStartTs, closed => some (replayStartTs, closed)
  | (id, info) :: rest, replayStartTs, closed =>
    if replayStartTs = 0 ∨ replayStartTs = info.replayStartTs then
      closeStreams errorNodeGroupId errorTerm rest info.replayStartTs
        (if info.ccNgId = errorNodeGroupId ∧ info.ccNgTerm = errorTerm then closed ++ [id] else closed)
    else none

/-- `WaitAndClearRequests` once the requests on the fly are done. -/
def waitAndClearRequests (s : Service) (streamId : StreamId) (recoveryError : Bool) (clock : Nat) :
    Option Service :=
  if recoveryError then
    match s.inboundConnections.find streamId with
    | none => some s
    | some info => do
      let (replayStartTs, closed) ←
        closeStreams info.ccNgId info.ccNgTerm s.inboundConnections.entries 0 s.closedStreams
      pure ({ s with closedStreams := closed }.replayLog info.ccNgId info.ccNgTerm (-1) replayStartTs true
        clock)
  else some s

end Service

open Service

/-- The streams of a node group and term. -/
def streamsOf (g : Nat) (t : Int) (conns : List (StreamId × ConnectionInfo)) : List StreamId :=
  (conns.filter fun e => e.2.ccNgId = g ∧ e.2.ccNgTerm = t).map Prod.fst

theorem closeStreams_last {g : Nat} {t : Int} (conns : List (StreamId × ConnectionInfo)) (id : StreamId)
    (info : ConnectionInfo) {ts ts' : Nat} {closed closed' : List StreamId}
    (h : closeStreams g t (conns ++ [(id, info)]) ts closed = some (ts', closed')) :
    ts' = info.replayStartTs := by
  induction conns generalizing ts closed with
  | nil =>
    simp only [List.nil_append, closeStreams, Option.ite_none_right_eq_some, Option.some.injEq,
      Prod.mk.injEq] at h
    exact h.2.1.symm
  | cons e conns ih =>
    obtain ⟨-, rest⟩ := Option.ite_none_right_eq_some.mp h
    exact ih rest

/-- Connections with one timestamp pass the assertion, and those of the node group and term are closed. -/
theorem closeStreams_same {g : Nat} {t : Int} {start : Nat} (conns : List (StreamId × ConnectionInfo))
    (same : ∀ e ∈ conns, e.2.replayStartTs = start) {ts : Nat} (first : ts = 0 ∨ ts = start)
    (closed : List StreamId) :
    closeStreams g t conns ts closed =
      some (if conns = [] then ts else start, closed ++ streamsOf g t conns) := by
  induction conns generalizing ts closed with
  | nil => simp [closeStreams, streamsOf]
  | cons e conns ih =>
    obtain ⟨id, info⟩ := e
    rw [List.forall_mem_cons] at same
    have here : info.replayStartTs = start := same.1
    rw [closeStreams, here, if_pos first, ih same.2 (.inr rfl)]
    by_cases mine : info.ccNgId = g ∧ info.ccNgTerm = t
    · simp [streamsOf, mine]
    · simp [streamsOf, mine]

/-- The error of a stream closes the streams of its node group and term, each once, and queues the
replay of that term from its own start; no assertion fails. -/
def RetriedFromOwnStart (s : Service) (id : StreamId) (info : ConnectionInfo) (clock : Nat) : Prop :=
  ∃ t, s.waitAndClearRequests id true clock = some t ∧
    t.closedStreams = s.closedStreams ++ streamsOf info.ccNgId info.ccNgTerm s.inboundConnections.entries ∧
    t.delayedReplayQueue =
      s.delayedReplayQueue ++ [⟨info.ccNgId, info.ccNgTerm, -1, info.replayStartTs, clock⟩] ∧
    t.replayLogQueue = s.replayLogQueue

/-- The retry is right in every order of the table exactly when all connections, of whatever node group
and term, have the replay start of the failed one. -/
theorem retried_from_own_start_iff (s : Service) {id : StreamId} {info : ConnectionInfo}
    (mem : (id, info) ∈ s.inboundConnections.entries) (clock : Nat) :
    (∀ order : InboundConnections, order.entries.Perm s.inboundConnections.entries →
      RetriedFromOwnStart { s with inboundConnections := order } id info clock) ↔
    ∀ e ∈ s.inboundConnections.entries, e.2.replayStartTs = info.replayStartTs := by
  constructor
  · rintro every ⟨id', other⟩ he
    obtain ⟨front, back, split⟩ := List.append_of_mem he
    have perm : (front ++ back ++ [(id', other)]).Perm s.inboundConnections.entries := by
      rw [split, List.append_assoc]
      have moved : (back ++ [(id', other)]).Perm ([(id', other)] ++ back) := List.perm_append_comm
      exact moved.append_left front
    let order : InboundConnections :=
      ⟨front ++ back ++ [(id', other)], (perm.map Prod.fst).nodup_iff.mpr s.inboundConnections.distinct⟩
    obtain ⟨t, cleared, -, queued, -⟩ := every order perm
    have found : order.find id = some info := order.find_of_mem (perm.mem_iff.mpr mem)
    simp only [waitAndClearRequests, if_true, found] at cleared
    obtain ⟨⟨ts, closed⟩, walked, result⟩ := Option.bind_eq_some_iff.mp cleared
    cases result
    have last := closeStreams_last (front ++ back) id' other walked
    simp only [replayLog, if_true, List.append_cancel_left_eq, List.cons.injEq, ReplayLogTask.mk.injEq,
      and_true, true_and] at queued
    exact last.symm.trans queued
  · intro same order perm
    have found : order.find id = some info := order.find_of_mem (perm.mem_iff.mpr mem)
    have same' : ∀ e ∈ order.entries, e.2.replayStartTs = info.replayStartTs :=
      fun e he => same e (perm.mem_iff.mp he)
    have nonempty : order.entries ≠ [] := List.ne_nil_of_mem (perm.mem_iff.mpr mem)
    unfold RetriedFromOwnStart waitAndClearRequests
    simp only [if_true, found, closeStreams_same order.entries same' (.inl rfl), if_neg nonempty]
    exact ⟨_, rfl, rfl, rfl, rfl⟩

/-- Streams of log groups of node groups, by group, term and replay start. -/
def streams (conns : List (Nat × Int × Nat)) : Service where
  inboundConnections :=
    { entries := conns.zipIdx.map fun x => (x.2, ⟨x.2, x.1.1, x.1.2.1, x.1.2.2, true, true⟩)
      distinct := by
        rw [List.map_map]
        exact (List.nodup_range' (s := 0) (n := conns.length)).sublist (by simp [Function.comp_def, List.zipIdx_map_snd]) }
  replayLogQueue := []
  delayedReplayQueue := []
  closedStreams := []

theorem retried_from_own_start_one_group :
    RetriedFromOwnStart (streams [(1, 5, 100), (1, 5, 100)]) 0 ⟨0, 1, 5, 100, true, true⟩ 7 :=
  (retried_from_own_start_iff (streams [(1, 5, 100), (1, 5, 100)]) (by decide) 7).mpr (by decide)
    (streams [(1, 5, 100), (1, 5, 100)]).inboundConnections (List.Perm.refl _)

/-- With the streams of two node groups the assertion fails, or the replay of one is queued with the
start of the other, which is later. -/
theorem retried_from_start_of_other_group :
    (streams [(1, 5, 100), (2, 3, 300)]).waitAndClearRequests 0 true 7 = none ∧
      ((streams [(1, 5, 0), (2, 3, 300)]).waitAndClearRequests 0 true 7).map Service.delayedReplayQueue =
        some [⟨1, 5, -1, 300, 7⟩] := by
  decide

open ByteReader

/-- What stands before the first occurrence of some bytes. -/
def cutAt (mark : Bytes) : Bytes → Option Bytes
  | [] => if mark = [] then some [] else none
  | b :: rest => if mark.isPrefixOf (b :: rest) then some [] else (cutAt mark rest).map (b :: ·)

/-- `GetBaseTableNameSV`: the name up to `*$$`, or else up to `*~~`. -/
def getBaseTableName (name : Bytes) : Bytes :=
  match cutAt [42, 36, 36] name with
  | some base => base
  | none => (cutAt [42, 126, 126] name).getD name

/-- A base table with the byte of its engine. -/
structure BaseTable where
  name : Bytes
  engine : UInt8
  deriving DecidableEq

structure ReplayMessage where
  splitRangeOpBlobs : List Bytes

/-- The first pass reads the engine before the name. -/
def collectTable : Reader BaseTable := do
  let tableNameLen ← readByte
  let tableEngine ← readByte
  let tableName ← readBytes tableNameLen.toNat
  pure ⟨getBaseTableName tableName, tableEngine⟩

/-- The pass that replays the splits reads the name before the engine. -/
def replayTable : Reader BaseTable := do
  let tableNameLen ← readByte
  let tableName ← readBytes tableNameLen.toNat
  let tableEngine ← readByte
  pure ⟨getBaseTableName tableName, tableEngine⟩

/-- `range_split_tables`, from the first message. -/
def rangeSplitTables : List ReplayMessage → Option (List BaseTable)
  | [] => some []
  | first :: _ => first.splitRangeOpBlobs.mapM fun blob => (collectTable.run blob).map Prod.fst

/-- The base tables of the splits that are replayed. -/
def replayedTables (msgs : List ReplayMessage) : Option (List BaseTable) :=
  (msgs.flatMap ReplayMessage.splitRangeOpBlobs).mapM fun blob => (replayTable.run blob).map Prod.fst

/-- Both passes find the same tables. -/
def RecognisedConsistently (msgs : List ReplayMessage) : Prop :=
  ∃ collected replayed, rangeSplitTables msgs = some collected ∧ replayedTables msgs = some replayed ∧
    ∀ table, table ∈ collected ↔ table ∈ replayed

/-- A blob begins with the length of a table name, the name and the engine. -/
structure SplitRangeRecord where
  tableName : Bytes
  tableEngine : UInt8
  splitRangeOp : Bytes
  fits : tableName.length < 256

namespace SplitRangeRecord

def blob (r : SplitRangeRecord) : Bytes :=
  UInt8.ofNat r.tableName.length :: (r.tableName ++ r.tableEngine :: r.splitRangeOp)

def table (r : SplitRangeRecord) : BaseTable := ⟨getBaseTableName r.tableName, r.tableEngine⟩

/-- The record whose bytes are rotated by one: the first byte of the name is the engine, and the engine
the last byte of the name. -/
def rotated (r : SplitRangeRecord) : SplitRangeRecord where
  tableName := (r.tableName ++ [r.tableEngine]).tail
  tableEngine := (r.tableName ++ [r.tableEngine]).headD 0
  splitRangeOp := r.splitRangeOp
  fits := by simpa using r.fits

theorem nameLen (r : SplitRangeRecord) : (UInt8.ofNat r.tableName.length).toNat = r.tableName.length :=
  UInt8.toNat_ofNat_of_lt' r.fits

theorem replayTable_blob (r : SplitRangeRecord) : (replayTable.run r.blob).map Prod.fst = some r.table := by
  have name := reads_bytes r.tableName (r.tableEngine :: r.splitRangeOp)
  simp only [replayTable, blob, run_bind, readByte_cons, Option.bind_some, r.nameLen, name]
  rfl

theorem collectTable_blob (r : SplitRangeRecord) :
    (collectTable.run r.blob).map Prod.fst = some r.rotated.table := by
  obtain ⟨first, name, bytes⟩ : ∃ first name, r.tableName ++ [r.tableEngine] = first :: name :=
    List.exists_cons_of_ne_nil (by simp)
  have length : (UInt8.ofNat r.tableName.length).toNat = name.length := by
    have := congrArg List.length bytes
    rw [r.nameLen]
    simpa using this
  have whole : r.tableName ++ r.tableEngine :: r.splitRangeOp = first :: (name ++ r.splitRangeOp) := by
    rw [List.append_cons, bytes, List.cons_append]
  have read := reads_bytes name r.splitRangeOp
  simp only [collectTable, blob, run_bind, readByte_cons, Option.bind_some, whole, length, read, rotated,
    bytes]
  rfl

end SplitRangeRecord

theorem mapM_blobs (read : Reader BaseTable) (table : SplitRangeRecord → BaseTable)
    (reads : ∀ r : SplitRangeRecord, (read.run r.blob).map Prod.fst = some (table r))
    (records : List SplitRangeRecord) :
    (records.map SplitRangeRecord.blob).mapM (fun blob => (read.run blob).map Prod.fst) =
      some (records.map table) := by
  induction records with
  | nil => rfl
  | cons r records ih => simp [reads, ih]

/-- A batch whose split range records are all in its first message. -/
def inFirstMessage (records : List SplitRangeRecord) (later : Nat) : List ReplayMessage :=
  ⟨records.map SplitRangeRecord.blob⟩ :: List.replicate later ⟨[]⟩

theorem replayedTables_inFirstMessage (records : List SplitRangeRecord) (later : Nat) :
    replayedTables (inFirstMessage records later) = some (records.map SplitRangeRecord.table) := by
  have nothing : (List.replicate later (⟨[]⟩ : ReplayMessage)).flatMap ReplayMessage.splitRangeOpBlobs = [] := by
    simp
  unfold replayedTables inFirstMessage
  rw [List.flatMap_cons, nothing, List.append_nil]
  exact mapM_blobs _ _ SplitRangeRecord.replayTable_blob records

theorem recognised_iff (records : List SplitRangeRecord) (later : Nat) :
    RecognisedConsistently (inFirstMessage records later) ↔
      ∀ table, table ∈ records.map (fun r => r.rotated.table) ↔ table ∈ records.map SplitRangeRecord.table := by
  have collected : rangeSplitTables (inFirstMessage records later) =
      some (records.map fun r => r.rotated.table) := mapM_blobs _ _ SplitRangeRecord.collectTable_blob records
  have replayed := replayedTables_inFirstMessage records later
  constructor
  · rintro ⟨c, p, hc, hp, same⟩
    rw [collected] at hc
    rw [replayed] at hp
    cases hc
    cases hp
    exact same
  · intro same
    exact ⟨_, _, collected, replayed, same⟩

/-- The tables that the first pass collects are those of the records with their bytes rotated by one.
When no table name begins with the engine byte of a record, both passes agree on records without a name
only. -/
theorem split_tables_recognised_iff (records : List SplitRangeRecord) (later : Nat) :
    (RecognisedConsistently (inFirstMessage records later) ↔
      ∀ table, (∃ r ∈ records, r.rotated.table = table) ↔ ∃ r ∈ records, r.table = table) ∧
    ((∀ r ∈ records, ∀ r' ∈ records, r.tableName.head? ≠ some r'.tableEngine) →
      (RecognisedConsistently (inFirstMessage records later) ↔ ∀ r ∈ records, r.tableName = [])) := by
  have iff := recognised_iff records later
  simp only [List.mem_map] at iff
  refine ⟨iff, fun named => iff.trans ⟨fun same r hr => ?_, fun unnamed table => ?_⟩⟩
  · cases name : r.tableName with
    | nil => rfl
    | cons b rest =>
      obtain ⟨r', hr', tables⟩ := (same r.rotated.table).mp ⟨r, hr, rfl⟩
      have engine : r'.tableEngine = b := by
        have := congrArg BaseTable.engine tables
        simpa [SplitRangeRecord.table, SplitRangeRecord.rotated, name] using this
      exact absurd (by rw [name, engine]; rfl) (named r hr r' hr')
  · refine exists_congr fun r => and_congr_right fun hr => ?_
    have same : r.rotated.table = r.table := by
      simp [SplitRangeRecord.table, SplitRangeRecord.rotated, unnamed r hr]
    rw [same]

theorem split_tables_recognised_unnamed :
    RecognisedConsistently (inFirstMessage [⟨[], 1, [7], by decide⟩] 1) :=
  ((split_tables_recognised_iff [⟨[], 1, [7], by decide⟩] 1).2 (by decide)).mpr (by decide)

/-- The table `t1` of the engine 1. -/
def splitOfT1 : SplitRangeRecord := ⟨[116, 49], 1, [], by decide⟩

/-- A split of `t1` is replayed, but the first pass collects the table `1` and a byte more, with the
letter `t` for its engine. -/
theorem splitting_table_collected_wrong :
    rangeSplitTables (inFirstMessage [splitOfT1] 0) = some [⟨[49, 1], 116⟩] ∧
      replayedTables (inFirstMessage [splitOfT1] 0) = some [⟨[116, 49], 1⟩] := by
  decide

end TxService.RecoveryService
