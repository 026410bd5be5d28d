import TxService.ArchiveKeys
import TxService.OrderedMerge

/-!
# The stream of a range data sync

A round of the scan is merged with what was left of the round before, and the keys up to the least
of the last keys of the cores are flushed.
-/

namespace TxService

open OrderedMerge

universe u v w

section
variable {K : Type v} {A : Type w} [LinearOrder K] (key : A → K)

/-- The loop over the priority queue, which has the head of every vector. -/
def mergeLoop (dedup : Bool) : Nat → List (List A) → List A → List A
  | 0, _, output => output
  | n + 1, vecs, output =>
    match popMin key vecs with
    | none => output
    | some (top, rest) =>
      mergeLoop dedup n rest
        (if !dedup || output.getLast?.all (fun last => decide (key last ≠ key top)) then
          output ++ [top] else output)

def mergeSortedVectors (vecs : List (List A)) (dedup : Bool) : List A :=
  mergeLoop key dedup vecs.flatten.length vecs []

variable {key}

theorem mergeLoop_eq (n : Nat) (vecs : List (List A)) (output : List A) :
    mergeLoop key false n vecs output = output ++ merge key n vecs := by
  induction n generalizing vecs output with
  | zero => simp [mergeLoop, merge]
  | succ n ih =>
    unfold mergeLoop merge
    split
    · simp [*]
    · simp [*]

theorem mergeSortedVectors_perm (vecs : List (List A)) :
    (mergeSortedVectors key vecs false).Perm vecs.flatten := by
  rw [mergeSortedVectors, mergeLoop_eq]
  exact merge_perm _ vecs rfl

theorem mergeSortedVectors_ordered {vecs : List (List A)}
    (ordered : ∀ vec ∈ vecs, Ordered key vec) : Ordered key (mergeSortedVectors key vecs false) := by
  rw [mergeSortedVectors, mergeLoop_eq]
  exact merge_ordered _ vecs rfl ordered

end

/-- What a core returns in a round. Archive rows and moves stand in the order of their records. -/
structure CoreRound (K : Type v) (V : Type u) where
  vecs : CkptVecs K V
  drained : Bool
  archivesNamed : ∀ row ∈ vecs.akvVec, row.keyIndex < vecs.ckptVec.length
  archivesOrdered : (vecs.akvVec.map ArchiveFlushRecord.keyIndex).Pairwise (· ≤ ·)
  movesNamed : ∀ i ∈ vecs.mvBaseVec, i < vecs.ckptVec.length
  movesOrdered : vecs.mvBaseVec.Pairwise (· ≤ ·)

/-- Records, archive rows and moved keys of a round, or what is left of one. -/
structure SyncVecs (K : Type v) (V : Type u) where
  dataSyncVec : List (FlushRecord K V)
  archiveVec : List (K × ArchiveFlushRecord V)
  mvBaseVec : List K

/-- Rows that name their record by its place, with its key. -/
def keyed {K : Type v} {V : Type u} {B : Type w} (records : List (FlushRecord K V)) (place : B → Nat)
    (rows : List B) (named : ∀ row ∈ rows, place row < records.length) : List (K × B) :=
  rows.attach.map fun row => ((records.get ⟨place row.1, named row.1 row.2⟩).key, row.1)

/-- The places name records among the first, in order. -/
def Placed (places : List Nat) (records : Nat) : Prop :=
  (∀ i ∈ places, i < records) ∧ places.Pairwise (· ≤ ·)

theorem Placed.append {places new : List Nat} {records more : Nat} (h : Placed places records)
    (here : ∀ i ∈ new, i = records) (own : 0 < more ∨ new = []) :
    Placed (places ++ new) (records + more) := by
  refine ⟨fun i mem => ?_, List.pairwise_append.mpr ⟨h.2, ?_, fun i mem j mem' => ?_⟩⟩
  · obtain old | mem := List.mem_append.mp mem
    · have := h.1 i old
      omega
    · have := here i mem
      have := own.resolve_right (List.ne_nil_of_mem mem)
      omega
  · refine List.pairwise_of_forall_mem_list fun i mem j mem' => ?_
    rw [here i mem, here j mem']
  · have := h.1 i mem
    have := here j mem'
    omega

theorem Added.placed {K : Type v} {V : Type u} {key : K} {start out : CkptVecs K V} {tail : List K}
    {rows : List (ArchiveFlushRecord V)} {moves : List Nat} (h : Added key start out tail rows moves)
    (archived : Placed (start.akvVec.map ArchiveFlushRecord.keyIndex) start.ckptVec.length)
    (moved : Placed start.mvBaseVec start.ckptVec.length) :
    Placed (out.akvVec.map ArchiveFlushRecord.keyIndex) out.ckptVec.length ∧
      Placed out.mvBaseVec out.ckptVec.length := by
  have length : out.ckptVec.length = start.ckptVec.length + tail.length := by
    simpa using congrArg List.length h.keys
  rw [h.archived, h.moved, length, List.map_append]
  refine ⟨archived.append h.rowsAt ?_, moved.append h.movesAt ?_⟩
  · exact h.own.imp (fun one => by simp [one]) fun none_ => by simp [none_.2.1]
  · exact h.own.imp (fun one => by simp [one]) fun none_ => none_.2.2

namespace RoundExport

variable {K : Type v} {V : Type u} {r : RoundExport K V}

theorem placed_exportEntries (req : ExportRequest) (entries : List (K × CcEntry V))
    (archived : Placed (r.vecs.akvVec.map ArchiveFlushRecord.keyIndex) r.vecs.ckptVec.length)
    (moved : Placed r.vecs.mvBaseVec r.vecs.ckptVec.length) :
    Placed ((r.exportEntries req entries).vecs.akvVec.map ArchiveFlushRecord.keyIndex)
        (r.exportEntries req entries).vecs.ckptVec.length ∧
      Placed (r.exportEntries req entries).vecs.mvBaseVec
        (r.exportEntries req entries).vecs.ckptVec.length := by
  induction entries generalizing r with
  | nil => exact ⟨archived, moved⟩
  | cons x entries ih =>
    obtain ⟨tail, rows, moves, added⟩ := exportForCkpt_added x.1 r.vecs x.2 req
    obtain ⟨archived, moved⟩ := added.placed archived moved
    exact ih archived moved

end RoundExport

namespace CoreRound

variable {K : Type v} {V : Type u}

/-- The round of a core that has exported these entries. -/
def ofEntries (req : ExportRequest) (entries : List (K × CcEntry V)) (drained : Bool) :
    CoreRound K V :=
  have placed := RoundExport.placed_exportEntries (r := .start) req entries ⟨nofun, .nil⟩ ⟨nofun, .nil⟩
  { vecs := (RoundExport.exportEntries req entries .start).vecs
    drained := drained
    archivesNamed := fun _ mem => placed.1.1 _ (List.mem_map_of_mem mem)
    archivesOrdered := placed.1.2
    movesNamed := placed.2.1
    movesOrdered := placed.2.2 }

/-- The archive rows with their keys set. -/
def archives (r : CoreRound K V) : List (K × ArchiveFlushRecord V) :=
  keyed r.vecs.ckptVec ArchiveFlushRecord.keyIndex r.vecs.akvVec r.archivesNamed

def moves (r : CoreRound K V) : List K :=
  (keyed r.vecs.ckptVec id r.vecs.mvBaseVec r.movesNamed).map Prod.fst

end CoreRound

section
variable {K : Type v} {V : Type u} [LinearOrder K] {n : Nat}

/-- Without a key the bound is the positive infinity. -/
def lowerTo (bound : Option K) (r : CoreRound K V) : Option K :=
  match r.vecs.ckptVec.getLast?, bound with
  | none, bound => bound
  | some last, none => some last.key
  | some last, some m => some (if last.key < m then last.key else m)

/-- The least of the last keys of the cores. -/
def minScannedEndKey (round : Fin n → CoreRound K V) : Option K :=
  (List.ofFn round).foldl lowerTo none

def scanDataDrained (round : Fin n → CoreRound K V) : Bool :=
  (List.ofFn round).all CoreRound.drained

namespace SyncVecs

/-- All vectors of the round, the remaining one last, merged. -/
def merged (remaining : SyncVecs K V) (round : Fin n → CoreRound K V) : SyncVecs K V where
  dataSyncVec := mergeSortedVectors FlushRecord.key
    ((List.ofFn fun core => (round core).vecs.ckptVec) ++ [remaining.dataSyncVec]) false
  archiveVec := mergeSortedVectors Prod.fst
    ((List.ofFn fun core => (round core).archives) ++ [remaining.archiveVec]) false
  mvBaseVec := mergeSortedVectors id
    ((List.ofFn fun core => (round core).moves) ++ [remaining.mvBaseVec]) false

/-- What is not above the bound. -/
def upTo (vecs : SyncVecs K V) (bound : Option K) : SyncVecs K V where
  dataSyncVec := vecs.dataSyncVec.takeWhile (notAbove bound ∘ FlushRecord.key)
  archiveVec := vecs.archiveVec.takeWhile (notAbove bound ∘ Prod.fst)
  mvBaseVec := vecs.mvBaseVec.takeWhile (notAbove bound ∘ id)

def above (vecs : SyncVecs K V) (bound : Option K) : SyncVecs K V where
  dataSyncVec := vecs.dataSyncVec.dropWhile (notAbove bound ∘ FlushRecord.key)
  archiveVec := vecs.archiveVec.dropWhile (notAbove bound ∘ Prod.fst)
  mvBaseVec := vecs.mvBaseVec.dropWhile (notAbove bound ∘ id)

/-- The rounds of the scan: what each one passes to `UpdateSlices` and hands to a flush worker. -/
def batches (remaining : SyncVecs K V) : List (Fin n → CoreRound K V) → List (SyncVecs K V)
  | [] => []
  | round :: rounds =>
    let vecs := remaining.merged round
    if scanDataDrained round then [vecs]
    else
      let bound := minScannedEndKey round
      vecs.upTo bound :: (vecs.above bound).batches rounds

def empty : SyncVecs K V := ⟨[], [], []⟩

/-- The records that the flush worker gets: those of which the store has everything are needed
only for the keys of the subslices. -/
def flushRecords (vecs : SyncVecs K V) (exportBaseTableItems : Bool) : List (FlushRecord K V) :=
  if exportBaseTableItems then vecs.dataSyncVec
  else vecs.dataSyncVec.filter FlushRecord.hasCce

end SyncVecs

/-- The records that a core returns in all rounds. -/
def coreRecords (rounds : List (Fin n → CoreRound K V)) (core : Fin n) : List (FlushRecord K V) :=
  rounds.flatMap fun round => (round core).vecs.ckptVec

/-- The cores cut ascending and disjoint sequences of keys in rounds. A core that is not drained
returns something, one that is returns nothing more, and in the end all are. -/
structure WellCut (rounds : List (Fin n → CoreRound K V)) : Prop where
  ascending : ∀ core, (coreRecords rounds core).Pairwise fun x y => x.key < y.key
  disjoint : ∀ core other, core ≠ other → ∀ x ∈ coreRecords rounds core,
    ∀ y ∈ coreRecords rounds other, x.key ≠ y.key
  scanned : ∀ round ∈ rounds, ∀ core, (round core).drained = false → (round core).vecs.ckptVec ≠ []
  drained : rounds.Pairwise fun round later => ∀ core, (round core).drained = true →
    (later core).drained = true ∧ (later core).vecs = ⟨[], [], []⟩
  ends : rounds.getLast?.any scanDataDrained = true

/-- Each row stands beside the record of its key. -/
def Follows {B : Type w} (rowKey : B → K) (rows : List B) (records : List (FlushRecord K V)) : Prop :=
  ∀ row ∈ rows, ∃ x ∈ records, x.key = rowKey row

/-- One sorted stream of all records, in batches, and every archive row and every move once, in
the batch of its record. -/
structure SortedStream (rounds : List (Fin n → CoreRound K V)) (batches : List (SyncVecs K V)) :
    Prop where
  sorted : ∀ batch ∈ batches, batch.dataSyncVec.Pairwise fun x y => x.key < y.key
  apart : batches.Pairwise fun batch later => ∀ x ∈ batch.dataSyncVec, ∀ y ∈ later.dataSyncVec,
    x.key < y.key
  union : (batches.flatMap SyncVecs.dataSyncVec).Pairwise fun x y => x.key < y.key
  records : (batches.flatMap SyncVecs.dataSyncVec).Perm
    (rounds.flatMap fun round => (List.ofFn round).flatMap fun r => r.vecs.ckptVec)
  archives : (batches.flatMap SyncVecs.archiveVec).Perm
    (rounds.flatMap fun round => (List.ofFn round).flatMap CoreRound.archives)
  moves : (batches.flatMap SyncVecs.mvBaseVec).Perm
    (rounds.flatMap fun round => (List.ofFn round).flatMap CoreRound.moves)
  together : ∀ batch ∈ batches, Follows Prod.fst batch.archiveVec batch.dataSyncVec ∧
    Follows id batch.mvBaseVec batch.dataSyncVec
  flushed : ∀ batch ∈ batches, ∀ exportBaseTableItems, ∀ x,
    x ∈ batch.flushRecords exportBaseTableItems ↔
      x ∈ batch.dataSyncVec ∧ (exportBaseTableItems = true ∨ x.hasCce = true)

end

end TxService
