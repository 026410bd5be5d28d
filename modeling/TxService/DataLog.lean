import TxService.LogBlob
import TxService.LogRequest

/-!
# The data log

`FillDataLogRequest` writes the records of a write set into blobs. The replay takes a record for
inserts and updates only.
-/

namespace TxService

open ByteReader

/-- The operations a write set can hold. -/
inductive OperationType
  | update
  | delete
  | insert
  | upsert
  deriving DecidableEq, Repr

def OperationType.toByte : OperationType → UInt8
  | .update => 1
  | .delete => 2
  | .insert => 3
  | .upsert => 4

def OperationType.ofByte : UInt8 → Option OperationType
  | 1 => some .update
  | 2 => some .delete
  | 3 => some .insert
  | 4 => some .upsert
  | _ => none

/-- The operations the replay takes a record for. -/
def OperationType.replaysRecord (op : OperationType) : Bool :=
  op = .insert || op = .update

/-- Only a delete may come without a record. -/
structure WriteSetEntry (K R : Type) where
  cceAddr : CcEntryAddr
  key : K
  op : OperationType
  record : Option R
  /-- The node groups of `forward_addr_`, where the key is written as well. -/
  forwardNgs : List NodeGroupId
  hasRecord : op ≠ .delete → record.isSome

structure DataWriteSet (K R : Type) where
  tables : List (LogTable × List (WriteSetEntry K R))
  distinct : (tables.map Prod.fst).Nodup

/-- What the replay of a record is given. -/
structure KeyRecord (K R : Type) where
  key : K
  op : OperationType
  record : Option R
  deriving DecidableEq, Repr

variable {K R : Type}

def WriteSetEntry.keyRecord (entry : WriteSetEntry K R) : KeyRecord K R :=
  ⟨entry.key, entry.op, if entry.op = .delete then none else entry.record⟩

def WriteSetEntry.nodeGroups (entry : WriteSetEntry K R) : List NodeGroupId :=
  entry.cceAddr.nodeGroupId :: entry.forwardNgs

def DataWriteSet.tablesOf (wset : DataWriteSet K R) (ng : NodeGroupId) :
    List (LogTable × List (WriteSetEntry K R)) :=
  TxService.tablesOf WriteSetEntry.nodeGroups ng wset.tables

section
variable (keys : Codec K) (records : Codec R)

def WriteSetEntry.append (entry : WriteSetEntry K R) (blob : Bytes) : Bytes :=
  let blob := blob ++ keys.encode entry.key ++ [entry.op.toByte]
  if entry.op ≠ .delete then
    match entry.record with
    | some record => blob ++ records.encode record
    | none => blob
  else blob

def dataBlob (tables : List (LogTable × List (WriteSetEntry K R))) : Bytes :=
  tableBlob false (fun blob entry => entry.append keys records blob) tables

/-- `none` when two keys of a node group were locked in different terms. The terms of
forward addresses are not looked at. -/
def fillDataLogRequest (wset : DataWriteSet K R) (readLockNgTerms : List CcEntryAddr) :
    Option LogRequest := do
  let addrs := wset.tables.flatMap fun table => table.2.map (·.cceAddr)
  let terms ← ShardTerms.addAll (fun _ => none) addrs
  let terms ← terms.addAll readLockNgTerms
  pure {
    nodeTerms := terms
    nodeTxnLogs := fun ng =>
      match organizeByNodeGroup WriteSetEntry.nodeGroups wset.tables ng with
      | [] => none
      | tables => some (dataBlob keys records tables) }

/-- The record is read into one that is thrown away. -/
def passOver (reads : Bool) : Reader Unit :=
  if reads then do
    let _ ← records.read
    pure ()
  else pure ()

/-- Which keys a replay installs: those sharded to its core whose range is not known to
have moved to another node group. -/
structure Placement (K : Type) where
  onCore : K → Bool
  owned : K → Bool

def Placement.installs (place : Placement K) (key : K) : Bool :=
  place.onCore key && place.owned key

/-- What stands in front of a record. -/
structure OpHead (K : Type) where
  key : K
  op : OperationType
  deriving DecidableEq, Repr

def readOpHead : Reader (OpHead K) := do
  let key ← keys.read
  let opVal ← readByte
  let op ← StateT.lift (OperationType.ofByte opVal)
  pure ⟨key, op⟩

def takeRecord (head : OpHead K) : Reader (KeyRecord K R) :=
  if head.op.replaysRecord then do
    let record ← records.read
    pure ⟨head.key, head.op, some record⟩
  else pure ⟨head.key, head.op, none⟩

def replayOp (place : Placement K) (head : OpHead K) : Reader (Option (KeyRecord K R)) :=
  if !place.onCore head.key then do
    passOver records head.op.replaysRecord
    pure none
  else if !place.owned head.key then do
    passOver records (head.op ≠ .delete)
    pure none
  else do
    let found ← takeRecord records head
    pure (some found)

def readKeyRecord (place : Placement K) : Reader (Option (KeyRecord K R)) := do
  let head ← readOpHead keys
  replayOp records place head

def replayRecords (place : Placement K) (content : Bytes) : Option (List (KeyRecord K R)) :=
  (readAll (readKeyRecord keys records place) content).map fun found => found.filterMap id

/-- A core that replays the keys it installs finds the tables and in each its entries, in
order and with all they were written with. -/
def ReplaysRecords (place : Placement K) (blob : Bytes)
    (tables : List (LogTable × List (WriteSetEntry K R))) : Prop :=
  Recovers false (fun entries content => replayRecords keys records place content =
      some ((entries.filter fun entry => place.installs entry.key).map WriteSetEntry.keyRecord))
    blob tables

def WriteSetEntry.recordBytes (entry : WriteSetEntry K R) : Bytes :=
  if entry.op = .delete then [] else (entry.record.map records.encode).getD []

def WriteSetEntry.headBytes (entry : WriteSetEntry K R) : Bytes :=
  keys.encode entry.key ++ [entry.op.toByte]

def WriteSetEntry.encode (entry : WriteSetEntry K R) : Bytes :=
  entry.headBytes keys ++ entry.recordBytes records

theorem WriteSetEntry.append_eq (entry : WriteSetEntry K R) (blob : Bytes) :
    entry.append keys records blob = blob ++ entry.encode keys records := by
  by_cases deleted : entry.op = .delete
  · simp [WriteSetEntry.append, WriteSetEntry.encode, WriteSetEntry.headBytes,
      WriteSetEntry.recordBytes, deleted]
  · cases found : entry.record <;>
      simp [WriteSetEntry.append, WriteSetEntry.encode, WriteSetEntry.headBytes,
        WriteSetEntry.recordBytes, deleted, found]

/-- How much room an entry takes. -/
def WriteSetEntry.size (entry : WriteSetEntry K R) : Nat :=
  (keys.encode entry.key).length + 1 + (entry.recordBytes records).length

theorem length_flatMap_encode (entries : List (WriteSetEntry K R)) :
    (entries.flatMap (WriteSetEntry.encode keys records)).length =
      (entries.map (WriteSetEntry.size keys records)).sum := by
  have entry : ∀ entry : WriteSetEntry K R,
      (entry.encode keys records).length = entry.size keys records := by
    intro entry
    simp only [WriteSetEntry.encode, WriteSetEntry.headBytes, WriteSetEntry.size,
      List.length_append, List.length_singleton]
  simp only [List.length_flatMap, entry]

/-- The length fields hold the lengths: one byte that of the name, four bytes that of the entries,
which `AddWrite` keeps far below. -/
def HasRoom (table : LogTable × List (WriteSetEntry K R)) : Prop :=
  table.1.name.length < capacity 1 ∧
    (table.2.map (WriteSetEntry.size keys records)).sum < capacity 4

/-- What the log and its parser are made for: a data table without upserts. -/
def FitsDataLog (table : LogTable × List (WriteSetEntry K R)) : Prop :=
  table.1.type.isData ∧ ∀ entry ∈ table.2, entry.op ≠ .upsert

variable {keys records}

@[simp] theorem OperationType.ofByte_toByte (op : OperationType) :
    OperationType.ofByte op.toByte = some op := by
  cases op <;> rfl

theorem reads_op (op : OperationType) :
    Reads (StateT.lift (OperationType.ofByte op.toByte) : Reader OperationType) [] op := by
  intro tail
  rw [OperationType.ofByte_toByte]
  rfl

variable {entry : WriteSetEntry K R}

/-- With a record, what is passed over is what was written. -/
theorem reads_passOver {reads : Bool} (agrees : reads = decide (entry.op ≠ .delete)) :
    Reads (passOver records reads) (entry.recordBytes records) () := by
  subst agrees
  by_cases deleted : entry.op = .delete
  · simp only [passOver, WriteSetEntry.recordBytes, deleted, ne_eq, not_true_eq_false,
      decide_false, if_true, Bool.false_eq_true, if_false]
    exact Reads.pure ()
  · obtain ⟨record, found⟩ := Option.isSome_iff_exists.mp (entry.hasRecord deleted)
    simp only [passOver, WriteSetEntry.recordBytes, deleted, found, ne_eq, not_false_eq_true,
      decide_true, if_true, if_false, Option.map_some, Option.getD_some]
    exact (records.reads record).map

theorem OperationType.replaysRecord_eq {op : OperationType} (noUpsert : op ≠ .upsert) :
    op.replaysRecord = decide (op ≠ .delete) := by
  cases op with
  | upsert => exact absurd rfl noUpsert
  | update | delete | insert => rfl

def WriteSetEntry.head (entry : WriteSetEntry K R) : OpHead K := ⟨entry.key, entry.op⟩

theorem reads_opHead (entry : WriteSetEntry K R) :
    Reads (readOpHead keys) (entry.headBytes keys) entry.head :=
  (keys.reads entry.key).bind ((reads_byte entry.op.toByte).bind (reads_op entry.op).map)

theorem reads_takeRecord (noUpsert : entry.op ≠ .upsert) :
    Reads (takeRecord records entry.head) (entry.recordBytes records) entry.keyRecord := by
  have agrees := OperationType.replaysRecord_eq noUpsert
  simp only [takeRecord, WriteSetEntry.head, agrees, WriteSetEntry.keyRecord,
    WriteSetEntry.recordBytes]
  by_cases deleted : entry.op = .delete
  · simp only [deleted, ne_eq, not_true_eq_false, decide_false, Bool.false_eq_true, if_false,
      if_true]
    exact Reads.pure _
  · obtain ⟨record, found⟩ := Option.isSome_iff_exists.mp (entry.hasRecord deleted)
    simp only [deleted, found, ne_eq, not_false_eq_true, decide_true, if_true, if_false,
      Option.map_some, Option.getD_some]
    exact (records.reads record).map

theorem reads_replayOp (place : Placement K) (noUpsert : entry.op ≠ .upsert) :
    Reads (replayOp records place entry.head) (entry.recordBytes records)
      (if place.installs entry.key then some entry.keyRecord else none) := by
  cases onCore : place.onCore entry.key with
  | false =>
    simp only [replayOp, WriteSetEntry.head, Placement.installs, onCore]
    exact (reads_passOver (OperationType.replaysRecord_eq noUpsert)).map
  | true =>
    cases owned : place.owned entry.key with
    | false =>
      simp only [replayOp, WriteSetEntry.head, Placement.installs, onCore, owned]
      exact (reads_passOver rfl).map
    | true =>
      simp only [replayOp, WriteSetEntry.head, Placement.installs, onCore, owned]
      exact (reads_takeRecord noUpsert).map

theorem reads_keyRecord (place : Placement K) (noUpsert : entry.op ≠ .upsert) :
    Reads (readKeyRecord keys records place) (entry.encode keys records)
      (if place.installs entry.key then some entry.keyRecord else none) :=
  (reads_opHead entry).bind (reads_replayOp place noUpsert)

/-- A replay that installs every key. -/
def Placement.everything : Placement K := ⟨fun _ => true, fun _ => true⟩

theorem readKeyRecord_exact {tail rest : Bytes}
    (h : (readKeyRecord keys records .everything).run (entry.encode keys records ++ tail) =
      some (some entry.keyRecord, rest)) :
    entry.op ≠ .upsert ∧ rest = tail := by
  have noUpsert : entry.op ≠ .upsert := by
    intro upsert
    rw [readKeyRecord, WriteSetEntry.encode, List.append_assoc, (reads_opHead entry).run_bind,
      WriteSetEntry.head, upsert] at h
    obtain ⟨found, _⟩ := Prod.mk.inj (Option.some.inj h)
    have noRecord : none = entry.keyRecord.record :=
      congrArg KeyRecord.record (Option.some.inj found)
    have hasRecord := entry.hasRecord (by rw [upsert]; decide)
    simp [WriteSetEntry.keyRecord, upsert] at noRecord
    simp [← noRecord] at hasRecord
  have read : (readKeyRecord keys records .everything).run (entry.encode keys records ++ tail) =
      some (some entry.keyRecord, tail) := reads_keyRecord .everything noUpsert tail
  rw [h] at read
  exact ⟨noUpsert, (Prod.mk.inj (Option.some.inj read)).2⟩

theorem WriteSetEntry.encode_ne_nil (entry : WriteSetEntry K R) :
    entry.encode keys records ≠ [] := by
  simp [WriteSetEntry.encode, WriteSetEntry.headBytes]

theorem replayRecords_encode (place : Placement K) {entries : List (WriteSetEntry K R)}
    (noUpserts : ∀ entry ∈ entries, entry.op ≠ .upsert) :
    replayRecords keys records place (entries.flatMap (WriteSetEntry.encode keys records)) =
      some ((entries.filter fun entry => place.installs entry.key).map
        WriteSetEntry.keyRecord) := by
  have read : readAll (readKeyRecord keys records place)
      (entries.flatMap (WriteSetEntry.encode keys records)) =
      some (entries.map fun entry =>
        if place.installs entry.key then some entry.keyRecord else none) := by
    apply readAll_flatMap
    · intro entry mem
      exact reads_keyRecord place (noUpserts entry mem)
    · exact WriteSetEntry.encode_ne_nil
  rw [replayRecords, read, Option.map_some, filterMap_select]

theorem readKeyRecord_local : Local (readKeyRecord keys records .everything) := by
  have head : Local (readOpHead keys) := keys.readsLocally.bind fun _ =>
    readByte_local.bind fun _ => (lift_local _).bind fun _ => Local.pure _
  have take : ∀ head : OpHead K, Local (takeRecord records head) := by
    intro head
    unfold takeRecord
    split
    · exact records.readsLocally.bind fun _ => Local.pure _
    · exact Local.pure _
  exact head.bind fun head => (take head).bind fun _ => Local.pure _

theorem readKeyRecord_isSome {bytes rest : Bytes} {found : Option (KeyRecord K R)}
    (h : (readKeyRecord keys records .everything).run bytes = some (found, rest)) :
    found.isSome := by
  obtain ⟨_, _, _, h⟩ := run_bind_some h
  obtain ⟨_, _, _, h⟩ := run_bind_some h
  cases h
  rfl

theorem records_covered {entries : List (WriteSetEntry K R)} {m : Nat}
    (h : replayRecords keys records .everything
        ((entries.flatMap (WriteSetEntry.encode keys records)).take m) =
      some ((entries.filter fun entry => Placement.everything.installs entry.key).map
        WriteSetEntry.keyRecord)) :
    (entries.flatMap (WriteSetEntry.encode keys records)).length ≤ m ∧
      ∀ entry ∈ entries, entry.op ≠ .upsert := by
  have installs : (entries.filter fun entry => Placement.everything.installs entry.key) = entries :=
    List.filter_true entries
  rw [installs] at h
  obtain ⟨found, read, eq⟩ := Option.map_eq_some_iff.mp h
  have all := readUpTo_forall (fun _ _ _ => readKeyRecord_isSome) read
  have matched : List.Forall₂ (fun (entry : WriteSetEntry K R) a => a = some entry.keyRecord)
      entries found := by
    rw [eq_map_some_of_filterMap all eq, List.map_map, List.forall₂_map_right_iff,
      List.forall₂_same]
    intro entry _
    rfl
  apply readUpTo_take readKeyRecord_local _ read matched
  rintro entry a tail rest rfl run
  exact readKeyRecord_exact run

variable {tables : List (LogTable × List (WriteSetEntry K R))}

theorem dataBlob_eq : dataBlob keys records tables = tables.flatMap fun table =>
    table.1.encode false (table.2.flatMap (WriteSetEntry.encode keys records)) :=
  tableBlob_eq fun blob entry => entry.append_eq keys records blob

theorem TableType.parsed_data {type : TableType} :
    type.parsed false = some type ↔ type.isData := by
  cases type <;> decide

theorem dataBlob_replays (room : ∀ table ∈ tables, HasRoom keys records table)
    (fits : ∀ table ∈ tables, FitsDataLog table) (place : Placement K) :
    ReplaysRecords keys records place (dataBlob keys records tables) tables := by
  rw [ReplaysRecords, dataBlob_eq]
  apply recovers_of_fits
  · intro table mem
    obtain ⟨name, short⟩ := room table mem
    rw [← length_flatMap_encode] at short
    exact ⟨name, TableType.parsed_data.mpr (fits table mem).1, short⟩
  · intro table mem
    exact replayRecords_encode place (fits table mem).2

/-- A blob that gives back every record is one of data tables without upserts. -/
theorem fits_of_replaysRecords
    (h : ReplaysRecords keys records .everything (dataBlob keys records tables) tables) :
    ∀ table ∈ tables, FitsDataLog table := by
  rw [ReplaysRecords, dataBlob_eq] at h
  have all := fits_of_recovers (fun _ _ => records_covered) h
  intro table mem
  obtain ⟨⟨-, data, -⟩, noUpserts⟩ := all table mem
  exact ⟨TableType.parsed_data.mp data, noUpserts⟩

/-- The blob of a node group holds the entries written to it, forward writes included. -/
theorem fillDataLogRequest_blob {wset : DataWriteSet K R} {readLockNgTerms : List CcEntryAddr}
    {request : LogRequest} {ng : NodeGroupId} {blob : Bytes}
    (filled : fillDataLogRequest keys records wset readLockNgTerms = some request)
    (logged : request.nodeTxnLogs ng = some blob) :
    blob = dataBlob keys records (wset.tablesOf ng) := by
  obtain ⟨_, _, filled⟩ := Option.bind_eq_some_iff.mp filled
  obtain ⟨_, _, filled⟩ := Option.bind_eq_some_iff.mp filled
  cases filled
  simp only [organizeByNodeGroup_eq _ wset.distinct ng] at logged
  rw [DataWriteSet.tablesOf]
  split at logged
  · cases logged
  · cases logged
    rfl

/-- When the length fields hold the lengths, a node group's blob gives every core back the tables
and, in order, the entries it installs, if and only if they are data tables without upserts. -/
theorem data_log_round_trip_iff {wset : DataWriteSet K R} {readLockNgTerms : List CcEntryAddr}
    {request : LogRequest} {ng : NodeGroupId} {blob : Bytes}
    (filled : fillDataLogRequest keys records wset readLockNgTerms = some request)
    (logged : request.nodeTxnLogs ng = some blob)
    (room : ∀ table ∈ wset.tablesOf ng, HasRoom keys records table) :
    (∀ place : Placement K, ReplaysRecords keys records place blob (wset.tablesOf ng)) ↔
      ∀ table ∈ wset.tablesOf ng, FitsDataLog table := by
  rw [fillDataLogRequest_blob filled logged]
  constructor
  · intro all
    exact fits_of_replaysRecords (all .everything)
  · intro fits place
    exact dataBlob_replays room fits place

end

def writeOf (op : OperationType) : DataWriteSet UInt8 UInt8 where
  tables := [(⟨[116], .primary, .eloqSql⟩,
    [{ cceAddr := ⟨0, 1⟩, key := 5, op := op, record := some 9, forwardNgs := [2],
       hasRecord := fun _ => rfl }])]
  distinct := by simp

/-- An update reaches the node group its key is forwarded to. -/
theorem update_round_trip :
    ∃ request blob, fillDataLogRequest Codec.byte Codec.byte (writeOf .update) [] = some request ∧
      request.nodeTxnLogs 2 = some blob ∧
      ∀ place, ReplaysRecords Codec.byte Codec.byte place blob ((writeOf .update).tablesOf 2) := by
  have filled : ∃ request, fillDataLogRequest Codec.byte Codec.byte (writeOf .update) [] =
      some request ∧ (request.nodeTxnLogs 2).isSome := ⟨_, rfl, rfl⟩
  obtain ⟨request, filled, logged⟩ := filled
  obtain ⟨blob, logged⟩ := Option.isSome_iff_exists.mp logged
  have room : ∀ table ∈ (writeOf .update).tablesOf 2, HasRoom Codec.byte Codec.byte table := by
    intro table mem
    cases mem with
    | head => exact ⟨by decide, by decide⟩
    | tail _ mem => cases mem
  refine ⟨request, blob, filled, logged, (data_log_round_trip_iff filled logged room).mpr ?_⟩
  intro table mem
  cases mem with
  | head => exact ⟨by decide, by decide⟩
  | tail _ mem => cases mem

/-- The record of an upsert is written and not read: it is taken for the next key. -/
theorem upsert_record_is_left :
    ∃ request blob, fillDataLogRequest Codec.byte Codec.byte (writeOf .upsert) [] = some request ∧
      request.nodeTxnLogs 0 = some blob ∧
      ¬ ReplaysRecords Codec.byte Codec.byte .everything blob ((writeOf .upsert).tablesOf 0) := by
  refine ⟨_, _, rfl, rfl, ?_⟩
  intro replays
  have fits := fits_of_replaysRecords replays _ List.mem_cons_self
  exact fits.2 _ List.mem_cons_self rfl

end TxService
