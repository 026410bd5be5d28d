import TxService.ByteReader
import TxService.Protocol

/-!
# Log blobs

A blob is a sequence of tables, each a header, a length and its entries; `ParseDataLogCc` makes one
`ReplayLogCc` of each. A read past the end is not defined and gives no result here.
-/

namespace TxService

open ByteReader

inductive TableEngine
  | none
  | eloqSql
  | eloqKv
  | eloqDoc
  deriving DecidableEq, Repr

def TableEngine.toByte : TableEngine → UInt8
  | .none => 0
  | .eloqSql => 1
  | .eloqKv => 2
  | .eloqDoc => 3

def TableEngine.ofByte : UInt8 → Option TableEngine
  | 0 => some .none
  | 1 => some .eloqSql
  | 2 => some .eloqKv
  | 3 => some .eloqDoc
  | _ => .none

def TableType.toByte : TableType → UInt8
  | .primary => 0
  | .secondary => 1
  | .uniqueSecondary => 2
  | .catalog => 3
  | .rangePartition => 4
  | .rangeBucket => 5
  | .clusterConfig => 6

/-- Meta tables should not be in a data log; the parser has no type for them. -/
def TableType.ofByte : UInt8 → Option TableType
  | 0 => some .primary
  | 1 => some .secondary
  | 2 => some .uniqueSecondary
  | _ => .none

def TableType.isData : TableType → Bool
  | .primary | .secondary | .uniqueSecondary => true
  | _ => false

structure LogTable where
  name : Bytes
  type : TableType
  engine : TableEngine
  deriving DecidableEq, Repr

/-- What a `ReplayLogCc` is reset with. -/
structure ReplayLog where
  table : LogTable
  content : Bytes
  deriving DecidableEq, Repr

/-- The length of the name is cut to one byte, and the name with it. -/
def LogTable.header (onKeyObject : Bool) (table : LogTable) : Bytes :=
  natLE 1 table.name.length ++ table.name.take (table.name.length % capacity 1) ++
    [table.engine.toByte] ++ (if onKeyObject then [] else [table.type.toByte])

/-- The loop over the tables of a node group; `append` writes one entry. -/
def tableBlob {E : Type} (onKeyObject : Bool) (append : Bytes → E → Bytes)
    (tables : List (LogTable × List E)) : Bytes :=
  tables.foldl (fun blob table =>
    withLength 4 (blob ++ table.1.header onKeyObject) fun blob => table.2.foldl append blob) []

def readTableType (onKeyObject : Bool) : Reader TableType :=
  if onKeyObject then pure .primary
  else do
    let type ← readByte
    StateT.lift (TableType.ofByte type)

def readHeader (onKeyObject : Bool) : Reader LogTable := do
  let nameLen ← readLE 1
  let name ← readBytes nameLen
  let engine ← readByte
  let engine ← StateT.lift (TableEngine.ofByte engine)
  let type ← readTableType onKeyObject
  pure ⟨name, type, engine⟩

def readTable (onKeyObject : Bool) : Reader ReplayLog := do
  let table ← readHeader onKeyObject
  let kvLen ← readLE 4
  let content ← readBytes kvLen
  pure ⟨table, content⟩

def parseBlob (onKeyObject : Bool) (blob : Bytes) : Option (List ReplayLog) :=
  readAll (readTable onKeyObject) blob

@[simp] theorem TableEngine.ofByte_toByte (engine : TableEngine) :
    TableEngine.ofByte engine.toByte = some engine := by
  cases engine <;> rfl

theorem TableType.ofByte_toByte (type : TableType) :
    TableType.ofByte type.toByte = if type.isData then some type else .none := by
  cases type <;> rfl

/-- The type the parser gives a table. -/
def TableType.parsed (onKeyObject : Bool) (type : TableType) : Option TableType :=
  if onKeyObject then some .primary else if type.isData then some type else .none

theorem readTableType_run (onKeyObject : Bool) (type : TableType) (tail : Bytes) :
    (readTableType onKeyObject).run ((if onKeyObject then [] else [type.toByte]) ++ tail) =
      (type.parsed onKeyObject).map (·, tail) := by
  cases onKeyObject with
  | true => rfl
  | false =>
    have lifted : (readTableType false).run (type.toByte :: tail) =
        (TableType.ofByte type.toByte).map (·, tail) := by
      show (TableType.ofByte type.toByte).bind (fun a => some (a, tail)) = _
      cases TableType.ofByte type.toByte <;> rfl
    simpa [TableType.parsed, TableType.ofByte_toByte] using lifted

theorem reads_engine (engine : TableEngine) :
    Reads (StateT.lift (TableEngine.ofByte engine.toByte) : Reader TableEngine) [] engine := by
  intro tail
  rw [TableEngine.ofByte_toByte]
  rfl

theorem readHeader_run (onKeyObject : Bool) (table : LogTable) (tail : Bytes) :
    (readHeader onKeyObject).run (table.header onKeyObject ++ tail) =
      (table.type.parsed onKeyObject).map fun type =>
        (⟨table.name.take (table.name.length % capacity 1), type, table.engine⟩, tail) := by
  have nameLen := reads_natLE 1 table.name.length
  have name := reads_bytes (table.name.take (table.name.length % capacity 1))
  rw [List.length_take_of_le (Nat.mod_le _ _)] at name
  simp only [readHeader, LogTable.header, List.append_assoc]
  rw [nameLen.run_bind, name.run_bind, (reads_byte _).run_bind,
    ← List.nil_append ((if onKeyObject then [] else [table.type.toByte]) ++ tail),
    (reads_engine _).run_bind, run_bind, readTableType_run]
  cases table.type.parsed onKeyObject <;> rfl

theorem readTable_local (onKeyObject : Bool) : Local (readTable onKeyObject) := by
  have type : Local (readTableType onKeyObject) := by
    cases onKeyObject with
    | true => exact Local.pure _
    | false => exact readByte_local.bind fun _ => lift_local _
  have header : Local (readHeader onKeyObject) :=
    (readLE_local 1).bind fun _ => (readBytes_local _).bind fun _ => readByte_local.bind fun _ =>
      (lift_local _).bind fun _ => type.bind fun _ => Local.pure _
  exact header.bind fun _ => (readLE_local 4).bind fun _ => (readBytes_local _).bind fun _ =>
    Local.pure _

/-- A table as it stands in a blob. -/
def LogTable.encode (onKeyObject : Bool) (table : LogTable) (body : Bytes) : Bytes :=
  table.header onKeyObject ++ natLE 4 body.length ++ body

section
variable {onKeyObject : Bool} {table : LogTable} {body : Bytes}

theorem LogTable.encode_ne_nil : table.encode onKeyObject body ≠ [] := by
  simp [LogTable.encode, LogTable.header, natLE]

theorem reads_table (short : table.name.length < capacity 1)
    (typed : table.type.parsed onKeyObject = some table.type) (fits : body.length < capacity 4) :
    Reads (readTable onKeyObject) (table.encode onKeyObject body) ⟨table, body⟩ := by
  have header : Reads (readHeader onKeyObject) (table.header onKeyObject) table := by
    intro tail
    rw [readHeader_run, typed, Nat.mod_eq_of_lt short, List.take_length]
    rfl
  have kvLen := reads_natLE 4 body.length
  rw [Nat.mod_eq_of_lt fits] at kvLen
  rw [LogTable.encode, List.append_assoc]
  exact header.bind (kvLen.bind (reads_bytes body).map)

/-- What the parser takes off the front of a table under its own name: as much of the
body as its length field says. -/
theorem readTable_exact {tail rest : Bytes} {replay : ReplayLog}
    (h : (readTable onKeyObject).run (table.encode onKeyObject body ++ tail) = some (replay, rest))
    (same : replay.table = table) :
    table.name.length < capacity 1 ∧ table.type.parsed onKeyObject = some table.type ∧
      replay.content = body.take (body.length % capacity 4) ∧
      rest = body.drop (body.length % capacity 4) ++ tail := by
  rw [LogTable.encode, List.append_assoc, List.append_assoc] at h
  obtain ⟨parsed, mid, header, h⟩ := run_bind_some h
  rw [readHeader_run] at header
  obtain ⟨type, typed, eq⟩ := Option.map_eq_some_iff.mp header
  cases eq
  rw [(reads_natLE 4 body.length).run_bind] at h
  obtain ⟨content, after, read, h⟩ := run_bind_some h
  cases h
  have le := Nat.mod_le body.length (capacity 4)
  have enough : ¬ (body ++ tail).length < body.length % capacity 4 := by
    rw [List.length_append]
    omega
  simp only [readBytes, StateT.run, if_neg enough, Option.some.injEq, Prod.mk.injEq] at read
  rw [List.take_append_of_le_length le, List.drop_append_of_le_length le] at read
  have name := congrArg LogTable.name same
  have short : table.name.length % capacity 1 = table.name.length := by
    have length := congrArg List.length name
    rwa [List.length_take_of_le (Nat.mod_le _ _)] at length
  exact ⟨short ▸ Nat.mod_lt _ (by decide), typed.trans (congrArg (some ·.type) same), read.1.symm, read.2.symm⟩

end

section
variable {E : Type} {onKeyObject : Bool} {encode : E → Bytes} {tables : List (LogTable × List E)}

theorem tableBlob_eq {append : Bytes → E → Bytes}
    (appends : ∀ blob entry, append blob entry = blob ++ encode entry) :
    tableBlob onKeyObject append tables =
      tables.flatMap fun table => table.1.encode onKeyObject (table.2.flatMap encode) := by
  have step : append = fun blob entry => blob ++ encode entry := funext₂ appends
  have entries : ∀ (table : LogTable × List E) (start : Bytes),
      table.2.foldl append start = start ++ table.2.flatMap encode := by
    intro table start
    rw [step, List.foldl_append_eq_append, List.flatMap_def]
  simp only [tableBlob, withLength_append (entries _), List.append_assoc]
  rw [List.foldl_append_eq_append, List.nil_append, List.flatMap_def]
  simp only [LogTable.encode, List.append_assoc]

/-- The tables are found again, each with a content that is good for it. -/
def Recovers (onKeyObject : Bool) (good : List E → Bytes → Prop) (blob : Bytes)
    (tables : List (LogTable × List E)) : Prop :=
  ∃ replays, parseBlob onKeyObject blob = some replays ∧
    List.Forall₂ (fun table replay => replay.table = table.1 ∧ good table.2 replay.content)
      tables replays

/-- What a table's header and length field can hold. -/
def LogTable.Fits (onKeyObject : Bool) (table : LogTable) (size : Nat) : Prop :=
  table.name.length < capacity 1 ∧ table.type.parsed onKeyObject = some table.type ∧ size < capacity 4

variable {good : List E → Bytes → Prop}

theorem recovers_of_fits
    (fits : ∀ table ∈ tables, table.1.Fits onKeyObject (table.2.flatMap encode).length)
    (each : ∀ table ∈ tables, good table.2 (table.2.flatMap encode)) :
    Recovers onKeyObject good
      (tables.flatMap fun table => table.1.encode onKeyObject (table.2.flatMap encode)) tables := by
  refine ⟨tables.map fun table => ⟨table.1, table.2.flatMap encode⟩, ?_, ?_⟩
  · apply readAll_flatMap
    · intro table mem
      obtain ⟨name, typed, short⟩ := fits table mem
      exact reads_table name typed short
    · intro table
      exact LogTable.encode_ne_nil
  · rw [List.forall₂_map_right_iff, List.forall₂_same]
    intro table mem
    exact ⟨rfl, each table mem⟩

/-- If the beginning of a table's entries is good only when it is all of them, tables that
are found again had fitting headers and lengths. -/
theorem fits_of_recovers {fits : List E → Prop}
    (covered : ∀ entries m, good entries ((entries.flatMap encode).take m) →
      (entries.flatMap encode).length ≤ m ∧ fits entries)
    (h : Recovers onKeyObject good
      (tables.flatMap fun table => table.1.encode onKeyObject (table.2.flatMap encode)) tables) :
    ∀ table ∈ tables,
      table.1.Fits onKeyObject (table.2.flatMap encode).length ∧ fits table.2 := by
  obtain ⟨replays, parsed, matched⟩ := h
  refine readAll_exact (readTable_local onKeyObject) ?_ parsed matched
  intro table replay tail rest found run
  obtain ⟨name, typed, content, left⟩ := readTable_exact run found.1
  obtain ⟨all, fits⟩ := covered table.2 _ (content ▸ found.2)
  have whole := Nat.le_antisymm (Nat.mod_le _ _) all
  constructor
  · rw [LogTable.Fits, ← whole]
    exact ⟨⟨name, typed, Nat.mod_lt _ (by decide)⟩, fits⟩
  · rw [left, whole, List.drop_length, List.nil_append]

end

end TxService
