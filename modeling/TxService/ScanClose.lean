import Mathlib.Order.Nat
import TxService.CcScanner

/-!
# Closing a scan

`ScanClose` gives up the locks of returned tuples that are to be unlocked, and `DrainScanner` those
left in the caches, whatever else relies on the same cc entries.
-/

namespace TxService

universe u v w

inductive SlicePosition
  | firstSlice
  | firstSliceInRange
  | middle
  | lastSliceInRange
  | lastSlice
  deriving DecidableEq, Repr

/-- A tuple that was returned; a record of the write set has no address. -/
structure UnlockTuple (A : Type w) where
  cceAddr : Option A
  versionTs : Nat
  status : RecordStatus

/-- A transaction with an open scan: what it has read, the entries that it has applied a
command to, the scanner, and the entries that another operation has read. Of the scanner of
a range partitioned table only the caches matter here. -/
structure OpenScan (K : Type u) (V : Type v) (A : Type w) [LinearOrder K] where
  rset : ReadSet A
  findObjectCommand : A → Bool
  scanner : TemplateCcScanner K V A
  slicePosition : SlicePosition
  other : A → Prop
  kept : ∀ a, other a → rset a ≠ none
  consistent : scanner.Consistent

variable {K : Type u} {V : Type v} {A : Type w}

/-- A tuple has a lock that is given up with its version. -/
def UnlockTuple.released (settings : ScanSettings) (t : UnlockTuple A) : Option (A × Nat) :=
  match t.cceAddr with
  | none => none
  | some cceAddr =>
    if settings.deduceScanTupleLockType t.status = .noLock then none else some (cceAddr, t.versionTs)

/-- A record that is unknown is not validated. -/
def ScanTuple.released (settings : ScanSettings) (t : ScanTuple K V A) : Option (A × Nat) :=
  if settings.deduceScanTupleLockType t.recStatus ≠ .noLock ∧ t.keyTs ≠ 0 then
    some (t.cceAddr, if t.recStatus = .unknown then 0 else t.keyTs)
  else none

namespace OpenScan

variable [LinearOrder K]

/-- The last tuples of the caches, which have a read intent so that the scan can go on. Range
partitioned tables ask for no command, and only in the middle of a range. -/
def lastTuples (rangePartition : Bool) (t : OpenScan K V A) : List (A × Nat) :=
  let lasts := t.scanner.scans.filterMap ScanCache.lastTuple
  let intents :=
    if rangePartition then
      if t.slicePosition = .middle then
        lasts.filter fun last =>
          t.scanner.settings.deduceScanTupleLockType last.recStatus = .noLock
      else []
    else
      lasts.filter fun last =>
        (t.scanner.settings.deduceScanTupleLockType last.recStatus = .noLock ∨ last.keyTs = 0) ∧
          t.findObjectCommand last.cceAddr = false
  intents.map fun last => (last.cceAddr, last.keyTs)

section
variable [DecidableEq A]

/-- Another operation of the transaction reads an entry. -/
def read (t : OpenScan K V A) (cceAddr : A) (readTs : Nat) : Option (OpenScan K V A) :=
  match added : t.rset.addRead cceAddr readTs with
  | none => none
  | some rset =>
    some { t with
      rset := rset
      other := fun a => t.other a ∨ a = cceAddr
      kept := fun a other => ReadSet.addRead_ne_none added (other.imp_left (t.kept a)) }

/-- The read set that is left, and what is put into `drain_batch_`. -/
def scanClose (rangePartition : Bool) (t : OpenScan K V A) (unlockBatch : List (UnlockTuple A)) :
    ReadSet A × List (A × Nat) :=
  let unlocked := (unlockBatch.filterMap (·.released t.scanner.settings)).foldl ReadSet.release (t.rset, [])
  let intents := (unlocked.1, unlocked.2 ++ t.lastTuples rangePartition)
  if rangePartition then intents
  else (t.scanner.drained.filterMap (·.released t.scanner.settings)).foldl ReadSet.release intents

/-- Another operation has read the entry, or a command has a write lock on it. -/
def Relied (t : OpenScan K V A) (a : A) : Prop := t.other a ∨ t.findObjectCommand a = true

/-- Closing the scan keeps what others have read, in its version, and gives up no entry that
the transaction relies on. -/
def OwnOnly (t : OpenScan K V A) (closed : ReadSet A × List (A × Nat)) : Prop :=
  (∀ a e, t.other a → t.rset a = some e → ∃ e', closed.1 a = some e' ∧ e'.versionTs = e.versionTs) ∧
    ∀ x ∈ closed.2, ¬ t.Relied x.1

/-- How many tuples of an entry give up a lock: those to unlock and those left in the caches. -/
def releases (rangePartition : Bool) (t : OpenScan K V A) (unlockBatch : List (UnlockTuple A)) (a : A) :
    Nat :=
  (unlockBatch.filterMap (·.released t.scanner.settings)).countP (·.1 = a) +
    if rangePartition then 0
    else (t.scanner.left.filterMap (·.released t.scanner.settings)).countP (·.1 = a)

/-- Fewer locks of an entry that is relied on are given up than there are reads of it, and it
is not the last tuple of a cache with a read intent only. -/
def Spares (rangePartition : Bool) (t : OpenScan K V A) (unlockBatch : List (UnlockTuple A)) : Prop :=
  ∀ a, t.Relied a →
    (t.releases rangePartition unlockBatch a = 0 ∨
      t.releases rangePartition unlockBatch a < t.rset.reads a) ∧
    a ∉ (t.lastTuples rangePartition).map (·.1)

variable {rangePartition : Bool} {t : OpenScan K V A} {unlockBatch : List (UnlockTuple A)}

theorem drained_releases (t : OpenScan K V A) (a : A) :
    (t.scanner.drained.filterMap (·.released t.scanner.settings)).countP (·.1 = a) =
      (t.scanner.left.filterMap (·.released t.scanner.settings)).countP (·.1 = a) :=
  ((TemplateCcScanner.drained_perm t.consistent).filterMap _).countP_eq _

theorem scanClose_reads (a : A) :
    (scanClose rangePartition t unlockBatch).1.reads a =
      t.rset.reads a - t.releases rangePartition unlockBatch a := by
  cases rangePartition with
  | true => exact ReadSet.foldl_release_reads ..
  | false =>
    simp only [scanClose, releases, Bool.false_eq_true, if_false]
    rw [ReadSet.foldl_release_reads, ReadSet.foldl_release_reads, drained_releases, Nat.sub_sub]

theorem scanClose_version {a : A} {e : ReadSetEntry}
    (found : (scanClose rangePartition t unlockBatch).1 a = some e) :
    ∃ e₀, t.rset a = some e₀ ∧ e₀.versionTs = e.versionTs := by
  cases rangePartition with
  | true => exact ReadSet.foldl_release_version found
  | false =>
    obtain ⟨e₁, between, same⟩ := ReadSet.foldl_release_version found
    obtain ⟨e₀, before, same'⟩ := ReadSet.foldl_release_version between
    exact ⟨e₀, before, same'.trans same⟩

/-- An entry is given up as a last tuple, or when no read of it is left. -/
theorem mem_scanClose (a : A) :
    a ∈ (scanClose rangePartition t unlockBatch).2.map (·.1) ↔
      a ∈ (t.lastTuples rangePartition).map (·.1) ∨
        0 < t.releases rangePartition unlockBatch a ∧
          t.rset.reads a ≤ t.releases rangePartition unlockBatch a := by
  have unlocked := ReadSet.mem_foldl_release (unlockBatch.filterMap (·.released t.scanner.settings)) (t.rset, []) a
  simp only [List.map_nil, List.not_mem_nil, false_or] at unlocked
  cases rangePartition with
  | true =>
    simp only [scanClose, releases, if_true, List.map_append, List.mem_append, unlocked, Nat.add_zero]
    exact or_comm
  | false =>
    simp only [scanClose, releases, Bool.false_eq_true, if_false]
    rw [ReadSet.mem_foldl_release, ReadSet.foldl_release_reads, drained_releases, List.map_append,
      List.mem_append, unlocked, or_comm (b := a ∈ _), or_assoc]
    refine or_congr_right ?_
    simp only
    omega

/-- Closing a scan releases only what the scan has acquired, if and only if it spares what
the transaction relies on. -/
theorem scanClose_own_only_iff (rangePartition : Bool) (t : OpenScan K V A)
    (unlockBatch : List (UnlockTuple A)) :
    t.OwnOnly (scanClose rangePartition t unlockBatch) ↔ t.Spares rangePartition unlockBatch := by
  constructor
  · rintro ⟨-, spared⟩ a relied
    have given : a ∉ (scanClose rangePartition t unlockBatch).2.map (·.1) := by
      intro mem
      obtain ⟨x, put, rfl⟩ := List.mem_map.mp mem
      exact spared x put relied
    rw [mem_scanClose, not_or] at given
    exact ⟨by omega, given.1⟩
  · intro spares
    refine ⟨fun a e other read => ?_, fun x put relied => ?_⟩
    · have few := (spares a (Or.inl other)).1
      have counted : t.rset.reads a ≠ 0 := fun zero => t.kept a other (ReadSet.reads_eq_zero.mp zero)
      have left : (scanClose rangePartition t unlockBatch).1.reads a ≠ 0 := by
        rw [scanClose_reads]
        omega
      cases found : (scanClose rangePartition t unlockBatch).1 a with
      | none => exact absurd (ReadSet.reads_eq_zero.mpr found) left
      | some e' =>
        obtain ⟨e₀, before, same⟩ := scanClose_version found
        cases read.symm.trans before
        exact ⟨e', rfl, same.symm⟩
    · obtain ⟨few, intent⟩ := spares x.1 relied
      rcases (mem_scanClose x.1).mp (List.mem_map_of_mem put) with last | ⟨counted, many⟩
      · exact intent last
      · omega

end

/-- A scan with read locks that has one tuple in its cache, of the entry 1. -/
def unread : OpenScan Nat Nat Nat where
  rset _ := none
  findObjectCommand _ := false
  scanner := {
    settings := ⟨.primary, false, false, .repeatableRead, .locking⟩
    direct := .forward
    status := .open
    drainCacheMode := false
    scans := [⟨[⟨10, some 7, 5, .normal, 1⟩], 0⟩]
    currShard := 0
    currTuple := none }
  slicePosition := .middle
  other _ := False
  kept _ never := never.elim
  consistent := ⟨fun _ value => (by cases value), ScannerStatus.noConfusion⟩

/-- Another operation has read the entry. Closing the scan takes the entry out of the read
set and releases its lock. -/
theorem unconsumed_tuple_releases_read :
    ∃ t, unread.read 1 5 = some t ∧ t.other 1 ∧
      (scanClose false t []).1 1 = none ∧ (scanClose false t []).2 = [(1, 5)] ∧
      ¬ t.OwnOnly (scanClose false t []) := by
  refine ⟨_, rfl, Or.inr rfl, rfl, rfl, fun own => ?_⟩
  obtain ⟨e, kept, -⟩ := own.1 1 _ (Or.inr rfl) rfl
  cases kept

end OpenScan

end TxService
