import TxService.LogBlob
import TxService.LogRequest

/-!
# The command log of object tables

`FillCommandLogRequest` writes the commands of a transaction into blobs, and `ParseDataLogCc` and
`ObjectCcMap` read them back.
-/

namespace TxService

open ByteReader

/-- The table of an object is always a primary one, so its type is not logged. -/
structure ObjectTable where
  name : Bytes
  engine : TableEngine
  deriving DecidableEq, Repr

def ObjectTable.toLogTable (table : ObjectTable) : LogTable :=
  ⟨table.name, .primary, table.engine⟩

structure CmdSetEntry (K : Type) where
  cceAddr : CcEntryAddr
  objKey : K
  objectVersion : UInt64
  objectModified : Bool
  cmdStrList : List Bytes
  ignorePreviousVersion : Bool
  /-- Where the key is written as well while its bucket migrates. -/
  forwardAddr : Option CcEntryAddr

structure CmdSet (K : Type) where
  tables : List (ObjectTable × List (CmdSetEntry K))
  distinct : (tables.map Prod.fst).Nodup

/-- What the replay of a key is given. -/
structure KeyCommands (K : Type) where
  key : K
  objVersion : UInt64
  ignorePreviousVersion : Bool
  cmdList : List Bytes
  deriving DecidableEq, Repr

variable {K : Type}

def CmdSetEntry.keyCommands (entry : CmdSetEntry K) : KeyCommands K :=
  ⟨entry.objKey, entry.objectVersion, entry.ignorePreviousVersion, entry.cmdStrList⟩

def CmdSetEntry.addrs (entry : CmdSetEntry K) : List CcEntryAddr :=
  entry.cceAddr :: entry.forwardAddr.toList

def CmdSetEntry.nodeGroups (entry : CmdSetEntry K) : List NodeGroupId :=
  entry.addrs.map (·.nodeGroupId)

/-- Entries without a successful command are not logged. -/
def CmdSet.successful (set : CmdSet K) : List (ObjectTable × List (CmdSetEntry K)) :=
  set.tables.map fun table => (table.1, table.2.filter (·.objectModified))

def CmdSet.tablesOf (set : CmdSet K) (ng : NodeGroupId) :
    List (ObjectTable × List (CmdSetEntry K)) :=
  TxService.tablesOf CmdSetEntry.nodeGroups ng set.successful

section
variable (keys : Codec K)

def CmdSetEntry.append (entry : CmdSetEntry K) (blob : Bytes) : Bytes :=
  let blob := blob ++ keys.encode entry.objKey ++ natLE 8 entry.objectVersion.toNat
  withLength 4 blob fun blob =>
    let blob := blob ++ natLE 1 entry.ignorePreviousVersion.toNat
    let blob := blob ++ natLE 2 entry.cmdStrList.length
    entry.cmdStrList.foldl (fun blob cmd => blob ++ (natLE 4 cmd.length ++ cmd)) blob

def commandBlob (tables : List (ObjectTable × List (CmdSetEntry K))) : Bytes :=
  tableBlob true (fun blob entry => entry.append keys blob)
    (tables.map fun table => (table.1.toLogTable, table.2))

/-- `none` when two keys of a node group were locked in different terms. -/
def fillCommandLogRequest (set : CmdSet K) (readLockNgTerms : List CcEntryAddr) :
    Option LogRequest := do
  let addrs := set.successful.flatMap fun table => table.2.flatMap (·.addrs)
  let terms ← ShardTerms.addAll (fun _ => none) addrs
  let terms ← terms.addAll readLockNgTerms
  pure {
    nodeTerms := terms
    nodeTxnLogs := fun ng =>
      match organizeByNodeGroup CmdSetEntry.nodeGroups set.successful ng with
      | [] => none
      | tables => some (commandBlob keys tables) }

def readCmd : Reader Bytes := do
  let cmdLen ← readLE 4
  readBytes cmdLen

/-- What stands in front of the commands on a key. -/
structure CmdHead (K : Type) where
  key : K
  objVersion : Nat
  cmdsLen : Nat
  deriving DecidableEq, Repr

def readCmdHead : Reader (CmdHead K) := do
  let key ← keys.read
  let objVersion ← readLE 8
  let cmdsLen ← readLE 4
  pure ⟨key, objVersion, cmdsLen⟩

def readCommands (head : CmdHead K) : Reader (KeyCommands K) := do
  let ignorePreviousVersion ← readLE 1
  let cmdCnt ← readLE 2
  let cmdList ← readMany readCmd cmdCnt
  pure ⟨head.key, UInt64.ofNat head.objVersion, ignorePreviousVersion != 0, cmdList⟩

/-- Keys of other node groups and other cores are passed over by their length. -/
def readKeyCommands (mine : K → Bool) : Reader (Option (KeyCommands K)) := do
  let head ← readCmdHead keys
  if mine head.key then do
    let commands ← readCommands head
    pure (some commands)
  else do
    skipBytes head.cmdsLen
    pure none

def replayKeys (mine : K → Bool) (content : Bytes) : Option (List (KeyCommands K)) :=
  (readAll (readKeyCommands keys mine) content).map fun found => found.filterMap id

/-- A core that replays the keys it owns finds the tables and in each its entries, in
order and with all they were written with. -/
def ReplaysCommands (mine : K → Bool) (blob : Bytes)
    (tables : List (ObjectTable × List (CmdSetEntry K))) : Prop :=
  Recovers true (fun entries content => replayKeys keys mine content =
      some ((entries.filter fun entry => mine entry.objKey).map CmdSetEntry.keyCommands))
    blob (tables.map fun table => (table.1.toLogTable, table.2))

def CmdSetEntry.commands (entry : CmdSetEntry K) : Bytes :=
  natLE 1 entry.ignorePreviousVersion.toNat ++ natLE 2 entry.cmdStrList.length ++
    entry.cmdStrList.flatMap fun cmd => natLE 4 cmd.length ++ cmd

def CmdSetEntry.headBytes (entry : CmdSetEntry K) : Bytes :=
  keys.encode entry.objKey ++ natLE 8 entry.objectVersion.toNat ++ natLE 4 entry.commands.length

def CmdSetEntry.encode (entry : CmdSetEntry K) : Bytes :=
  entry.headBytes keys ++ entry.commands

theorem CmdSetEntry.append_eq (entry : CmdSetEntry K) (blob : Bytes) :
    entry.append keys blob = blob ++ entry.encode keys := by
  have appends : ∀ start : Bytes,
      entry.cmdStrList.foldl (fun blob cmd => blob ++ (natLE 4 cmd.length ++ cmd))
        (start ++ natLE 1 entry.ignorePreviousVersion.toNat ++ natLE 2 entry.cmdStrList.length) =
      start ++ entry.commands := by
    intro start
    simp only [List.foldl_append_eq_append, CmdSetEntry.commands, List.flatMap_def,
      List.append_assoc]
  simp only [CmdSetEntry.append]
  rw [withLength_append appends]
  simp only [CmdSetEntry.encode, CmdSetEntry.headBytes, List.append_assoc]

/-- The keys and commands of a table. -/
def keyCommandsBytes (entries : List (CmdSetEntry K)) : Bytes :=
  entries.flatMap (CmdSetEntry.encode keys)

/-- How much room an entry takes. -/
def CmdSetEntry.size (entry : CmdSetEntry K) : Nat :=
  (keys.encode entry.objKey).length + 15 + (entry.cmdStrList.map fun cmd => 4 + cmd.length).sum

theorem length_keyCommandsBytes (entries : List (CmdSetEntry K)) :
    (keyCommandsBytes keys entries).length = (entries.map (CmdSetEntry.size keys)).sum := by
  have entry : ∀ entry : CmdSetEntry K, (entry.encode keys).length = entry.size keys := by
    intro entry
    simp only [CmdSetEntry.encode, CmdSetEntry.headBytes, CmdSetEntry.commands, CmdSetEntry.size,
      List.length_append, length_natLE, List.length_flatMap]
    omega
  simp only [keyCommandsBytes, List.length_flatMap, entry]

/-- What the fields of the format can hold: a byte for the length of a table's name, two
for the number of commands on a key, four for the size of the table's entries. -/
def FitsCommandLog (table : ObjectTable × List (CmdSetEntry K)) : Prop :=
  table.1.name.length < capacity 1 ∧ (∀ entry ∈ table.2, entry.cmdStrList.length < capacity 2) ∧
    (table.2.map (CmdSetEntry.size keys)).sum < capacity 4

variable {keys}

theorem reads_cmd {cmd : Bytes} (short : cmd.length < capacity 4) :
    Reads readCmd (natLE 4 cmd.length ++ cmd) cmd := by
  have cmdLen := reads_natLE 4 cmd.length
  rw [Nat.mod_eq_of_lt short] at cmdLen
  exact cmdLen.bind (reads_bytes cmd)

theorem readCmd_exact (cmd tail rest : Bytes)
    (h : readCmd.run (natLE 4 cmd.length ++ cmd ++ tail) = some (cmd, rest)) : rest = tail := by
  rw [List.append_assoc, readCmd, (reads_natLE 4 cmd.length).run_bind] at h
  exact readBytes_exact (Nat.mod_le _ _) h

def CmdSetEntry.head (entry : CmdSetEntry K) : CmdHead K :=
  ⟨entry.objKey, entry.objectVersion.toNat, entry.commands.length⟩

variable {entry : CmdSetEntry K}

theorem reads_cmdHead (short : entry.commands.length < capacity 4) :
    Reads (readCmdHead keys) (entry.headBytes keys) entry.head := by
  have version := reads_natLE 8 entry.objectVersion.toNat
  have bounded : entry.objectVersion.toNat < capacity 8 := entry.objectVersion.toNat_lt
  rw [Nat.mod_eq_of_lt bounded] at version
  have cmdsLen := reads_natLE 4 entry.commands.length
  rw [Nat.mod_eq_of_lt short] at cmdsLen
  rw [CmdSetEntry.headBytes, List.append_assoc]
  exact (keys.reads entry.objKey).bind (version.bind cmdsLen.map)

theorem reads_commands (few : entry.cmdStrList.length < capacity 2)
    (short : entry.commands.length < capacity 4) :
    Reads (readCommands entry.head) entry.commands entry.keyCommands := by
  have flag := reads_natLE 1 entry.ignorePreviousVersion.toNat
  have count := reads_natLE 2 entry.cmdStrList.length
  rw [Nat.mod_eq_of_lt few] at count
  have cmds : Reads (readMany readCmd entry.cmdStrList.length)
      (entry.cmdStrList.flatMap fun cmd => natLE 4 cmd.length ++ cmd)
      (entry.cmdStrList.map id) := by
    apply reads_many
    intro cmd mem
    apply reads_cmd
    have le := length_encode_le (fun cmd : Bytes => natLE 4 cmd.length ++ cmd) mem
    simp only [CmdSetEntry.commands, List.length_append] at short le
    omega
  rw [List.map_id] at cmds
  have value : entry.keyCommands = ⟨entry.objKey, UInt64.ofNat entry.objectVersion.toNat,
      entry.ignorePreviousVersion.toNat % capacity 1 != 0, entry.cmdStrList⟩ := by
    cases flag : entry.ignorePreviousVersion <;> simp [CmdSetEntry.keyCommands, flag, capacity]
  rw [CmdSetEntry.commands, List.append_assoc, value]
  exact flag.bind (count.bind cmds.map)

theorem reads_keyCommands (mine : K → Bool) (few : entry.cmdStrList.length < capacity 2)
    (short : entry.commands.length < capacity 4) :
    Reads (readKeyCommands keys mine) (entry.encode keys)
      (if mine entry.objKey then some entry.keyCommands else none) := by
  apply (reads_cmdHead short).bind
  by_cases owned : mine entry.objKey
  · simp only [CmdSetEntry.head, owned, if_true]
    exact (reads_commands few short).map
  · simp only [CmdSetEntry.head, owned, Bool.false_eq_true, if_false]
    exact (reads_skip entry.commands).map

theorem readKeyCommands_exact {tail rest : Bytes}
    (h : (readKeyCommands keys fun _ => true).run (entry.encode keys ++ tail) =
      some (some entry.keyCommands, rest)) :
    entry.cmdStrList.length < capacity 2 ∧ rest = tail := by
  obtain ⟨head, body, heads, h⟩ := run_bind_some h
  obtain ⟨commands, after, read, h⟩ := run_bind_some h
  cases h
  simp only [CmdSetEntry.encode, CmdSetEntry.headBytes, CmdSetEntry.commands, List.append_assoc,
    readCmdHead] at heads
  rw [(keys.reads _).run_bind, (reads_natLE 8 _).run_bind, (reads_natLE 4 _).run_bind] at heads
  cases heads
  rw [readCommands, (reads_natLE 1 _).run_bind, (reads_natLE 2 _).run_bind] at read
  obtain ⟨cmds, after, read, h⟩ := run_bind_some read
  obtain ⟨found, left⟩ := Prod.mk.inj (Option.some.inj h)
  have same : cmds = entry.cmdStrList := congrArg KeyCommands.cmdList found
  have count := readMany_length read
  rw [← count, same, left] at read
  rw [same] at count
  exact ⟨by rw [count]; exact Nat.mod_lt _ (by decide), readMany_exact readCmd_exact read⟩

theorem CmdSetEntry.encode_ne_nil (entry : CmdSetEntry K) : entry.encode keys ≠ [] := by
  simp [CmdSetEntry.encode, CmdSetEntry.headBytes, natLE]

theorem replayKeys_keyCommandsBytes (mine : K → Bool) {entries : List (CmdSetEntry K)}
    (few : ∀ entry ∈ entries, entry.cmdStrList.length < capacity 2)
    (short : (keyCommandsBytes keys entries).length < capacity 4) :
    replayKeys keys mine (keyCommandsBytes keys entries) =
      some ((entries.filter fun entry => mine entry.objKey).map CmdSetEntry.keyCommands) := by
  have read : readAll (readKeyCommands keys mine) (keyCommandsBytes keys entries) =
      some (entries.map fun entry =>
        if mine entry.objKey then some entry.keyCommands else none) := by
    apply readAll_flatMap
    · intro entry mem
      apply reads_keyCommands mine (few entry mem)
      have le : (entry.encode keys).length ≤ (keyCommandsBytes keys entries).length :=
        length_encode_le _ mem
      have part : entry.commands.length ≤ (entry.encode keys).length := by
        simp only [CmdSetEntry.encode, List.length_append]
        omega
      omega
    · exact CmdSetEntry.encode_ne_nil
  rw [replayKeys, read, Option.map_some, filterMap_select]

theorem readKeyCommands_local : Local (readKeyCommands keys fun _ => true) := by
  have cmd : Local readCmd := (readLE_local 4).bind fun _ => readBytes_local _
  have head : Local (readCmdHead keys) := keys.readsLocally.bind fun _ =>
    (readLE_local 8).bind fun _ => (readLE_local 4).bind fun _ => Local.pure _
  have commands : ∀ head : CmdHead K, Local (readCommands head) := fun _ =>
    (readLE_local 1).bind fun _ => (readLE_local 2).bind fun _ =>
      (readMany_local cmd _).bind fun _ => Local.pure _
  exact head.bind fun head => (commands head).bind fun _ => Local.pure _

/-- A replay that passes over no key finds something for each one it reads. -/
theorem readKeyCommands_isSome {bytes rest : Bytes} {found : Option (KeyCommands K)}
    (h : (readKeyCommands keys fun _ => true).run bytes = some (found, rest)) : found.isSome := by
  obtain ⟨_, _, _, h⟩ := run_bind_some h
  obtain ⟨_, _, _, h⟩ := run_bind_some h
  cases h
  rfl

theorem keyCommandsBytes_covered {entries : List (CmdSetEntry K)} {m : Nat}
    (h : replayKeys keys (fun _ => true) ((keyCommandsBytes keys entries).take m) =
      some ((entries.filter fun _ => true).map CmdSetEntry.keyCommands)) :
    (keyCommandsBytes keys entries).length ≤ m ∧
      ∀ entry ∈ entries, entry.cmdStrList.length < capacity 2 := by
  rw [List.filter_true] at h
  obtain ⟨found, read, eq⟩ := Option.map_eq_some_iff.mp h
  have all := readUpTo_forall (fun _ _ _ => readKeyCommands_isSome) read
  have matched : List.Forall₂ (fun (entry : CmdSetEntry K) a => a = some entry.keyCommands)
      entries found := by
    rw [eq_map_some_of_filterMap all eq, List.map_map, List.forall₂_map_right_iff,
      List.forall₂_same]
    intro entry _
    rfl
  apply readUpTo_take readKeyCommands_local _ read matched
  rintro entry a tail rest rfl run
  exact readKeyCommands_exact run

variable {tables : List (ObjectTable × List (CmdSetEntry K))}

theorem commandBlob_eq : commandBlob keys tables =
    (tables.map fun table => (table.1.toLogTable, table.2)).flatMap fun table =>
      table.1.encode true (table.2.flatMap (CmdSetEntry.encode keys)) :=
  tableBlob_eq fun blob entry => entry.append_eq keys blob

theorem commandBlob_replays (fits : ∀ table ∈ tables, FitsCommandLog keys table)
    (mine : K → Bool) : ReplaysCommands keys mine (commandBlob keys tables) tables := by
  rw [ReplaysCommands, commandBlob_eq]
  apply recovers_of_fits
  · simp only [List.forall_mem_map]
    intro table mem
    obtain ⟨name, _, short⟩ := fits table mem
    rw [← length_keyCommandsBytes] at short
    exact ⟨name, rfl, short⟩
  · simp only [List.forall_mem_map]
    intro table mem
    obtain ⟨_, few, short⟩ := fits table mem
    rw [← length_keyCommandsBytes] at short
    exact replayKeys_keyCommandsBytes mine few short

/-- A blob that gives back every key was within the format. -/
theorem fits_of_replaysCommands
    (h : ReplaysCommands keys (fun _ => true) (commandBlob keys tables) tables) :
    ∀ table ∈ tables, FitsCommandLog keys table := by
  rw [ReplaysCommands, commandBlob_eq] at h
  have all := fits_of_recovers (fun _ _ => keyCommandsBytes_covered) h
  simp only [List.forall_mem_map] at all
  intro table mem
  obtain ⟨⟨name, _, short⟩, few⟩ := all table mem
  exact ⟨name, few, length_keyCommandsBytes keys table.2 ▸ short⟩

theorem fillCommandLogRequest_blob {set : CmdSet K} {readLockNgTerms : List CcEntryAddr}
    {request : LogRequest} {ng : NodeGroupId} {blob : Bytes}
    (filled : fillCommandLogRequest keys set readLockNgTerms = some request)
    (logged : request.nodeTxnLogs ng = some blob) :
    blob = commandBlob keys (set.tablesOf ng) := by
  have distinct : (set.successful.map Prod.fst).Nodup := by
    have same : set.successful.map Prod.fst = set.tables.map Prod.fst := by
      simp [CmdSet.successful]
    rw [same]
    exact set.distinct
  obtain ⟨_, _, filled⟩ := Option.bind_eq_some_iff.mp filled
  obtain ⟨_, _, filled⟩ := Option.bind_eq_some_iff.mp filled
  cases filled
  simp only [organizeByNodeGroup_eq _ distinct ng] at logged
  rw [CmdSet.tablesOf]
  split at logged
  · cases logged
  · cases logged
    rfl

/-- A node group's blob gives every core back the tables and, in order, the entries it
owns, if and only if each table's name, command counts and length fit their fields. -/
theorem command_log_round_trip_iff {set : CmdSet K} {readLockNgTerms : List CcEntryAddr}
    {request : LogRequest} {ng : NodeGroupId} {blob : Bytes}
    (filled : fillCommandLogRequest keys set readLockNgTerms = some request)
    (logged : request.nodeTxnLogs ng = some blob) :
    (∀ mine : K → Bool, ReplaysCommands keys mine blob (set.tablesOf ng)) ↔
      ∀ table ∈ set.tablesOf ng, FitsCommandLog keys table := by
  rw [fillCommandLogRequest_blob filled logged]
  constructor
  · intro all
    exact fits_of_replaysCommands (all fun _ => true)
  · intro fits mine
    exact commandBlob_replays fits mine

end

def commandsOn (key : UInt8) (cmds : List Bytes) : CmdSet UInt8 where
  tables := [(⟨[116], .eloqKv⟩,
    [{ cceAddr := ⟨0, 1⟩, objKey := key, objectVersion := 7, objectModified := true,
       cmdStrList := cmds, ignorePreviousVersion := false, forwardAddr := none }])]
  distinct := by simp

theorem commandsOn_round_trip :
    ∃ request blob, fillCommandLogRequest Codec.byte (commandsOn 5 [[1, 2], []]) [] = some request ∧
      request.nodeTxnLogs 0 = some blob ∧
      ∀ mine, ReplaysCommands Codec.byte mine blob ((commandsOn 5 [[1, 2], []]).tablesOf 0) := by
  have filled : ∃ request, fillCommandLogRequest Codec.byte (commandsOn 5 [[1, 2], []]) [] =
      some request ∧ (request.nodeTxnLogs 0).isSome := ⟨_, rfl, rfl⟩
  obtain ⟨request, filled, logged⟩ := filled
  obtain ⟨blob, logged⟩ := Option.isSome_iff_exists.mp logged
  refine ⟨request, blob, filled, logged, (command_log_round_trip_iff filled logged).mpr ?_⟩
  intro table mem
  cases mem with
  | head => exact ⟨by decide, by decide, by decide⟩
  | tail _ mem => cases mem

/-- The count of 65536 commands is written as zero. -/
theorem command_count_wraps :
    ∃ request blob,
      fillCommandLogRequest Codec.byte (commandsOn 5 (List.replicate 65536 [1])) [] = some request ∧
      request.nodeTxnLogs 0 = some blob ∧
      ¬ ReplaysCommands Codec.byte (fun _ => true) blob
        ((commandsOn 5 (List.replicate 65536 [1])).tablesOf 0) := by
  refine ⟨_, _, rfl, rfl, ?_⟩
  intro replays
  have fits := fits_of_replaysCommands replays _ List.mem_cons_self
  have few : (List.replicate 65536 ([1] : Bytes)).length < capacity 2 :=
    fits.2.1 _ List.mem_cons_self
  rw [List.length_replicate] at few
  exact absurd few (by decide)

end TxService
