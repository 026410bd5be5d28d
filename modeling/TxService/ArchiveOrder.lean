import TxService.Archives
import TxService.TemplateCcMap
import TxService.Transition

/-!
# The archives stay in order

Commits, uploads, replayed records and reads install versions in an entry; its archives descend.
-/

namespace TxService

universe u

open Transition

variable {V : Type u}

/-- A log record of the entry's key. -/
structure ReplayRecord (V : Type u) where
  commitTs : Nat
  isDel : Bool
  record : V

/-- A record from the data store, with older versions of it. -/
structure OutsideRecord (V : Type u) where
  readTimestamp : Nat
  isDel : Bool
  record : V
  archives : List (VersionTxRecord V)

def deletedOr (isDel : Bool) : RecordStatus := if isDel then .deleted else .normal

/-- What installs a version in an entry. -/
inductive VersionOp (V : Type u)
  | commit (c : CcEntry.Commit V)
  | upload (c : CcEntry.Commit V)
  | replay (isSecondary : Bool) (r : ReplayRecord V)
  | readOutside (r : OutsideRecord V)

/-- What callers promise: the lock holder commits above the current version, and a record from
the store is no newer than the oldest version in memory and newer than the versions it comes
with. Timestamp 0 is no version. -/
def VersionOp.Enabled (e : CcEntry V) : VersionOp V → Prop
  | commit c => e.commitTs < c.commitTs
  | upload c => 0 < c.commitTs
  | replay _ r => 0 < r.commitTs
  | readOutside r =>
    (e.payloadStatus = .unknown ∨ ∀ v ∈ e.versions, r.readTimestamp ≤ v.commitTs) ∧
      r.archives.Pairwise (·.commitTs > ·.commitTs) ∧ ∀ v ∈ r.archives, v.commitTs < r.readTimestamp

namespace CcEntry

/-- The entry part of `Execute(PostWriteCc)` with MVCC; only an upload can be older. -/
def postWrite (e : CcEntry V) (c : Commit V) : CcEntry V :=
  let archived := e.archiveForMvcc c.recycleTs
  if c.commitTs < archived.commitTs then archived
  else archived.installVersion c.commitTs c.isDel c.payload

section
variable [Inhabited V]

/-- The entry part of `Execute(ReplayLogCc)` with MVCC. A deleted record is an empty one. -/
def replayRecord (e : CcEntry V) (isSecondary : Bool) (r : ReplayRecord V) : CcEntry V :=
  if r.commitTs ≤ e.commitTs then
    e.addArchiveRecord (some (if r.isDel then default else r.record)) (deletedOr r.isDel) r.commitTs
  else
    let e := e.archiveBeforeUpdate
    let payload := if r.isDel then (if isSecondary then e.curPayload else none) else some r.record
    { e with curPayload := payload }.setCommitTsPayloadStatus r.commitTs (deletedOr r.isDel)

/-- The entry part of `Execute(ReadCc)` that reads outside, with MVCC. -/
def readOutside (e : CcEntry V) (r : OutsideRecord V) : CcEntry V :=
  let payload := some (if r.isDel then default else r.record)
  let e :=
    if e.payloadStatus = .unknown then
      { e with curPayload := payload }.setCommitTsPayloadStatus r.readTimestamp (deletedOr r.isDel)
    else if r.readTimestamp < e.commitTs then
      e.addArchiveRecord payload (deletedOr r.isDel) r.readTimestamp
    else e
  (e.setCkptTs r.readTimestamp).addArchiveRecords r.archives

end

/-- The archives descend, below the current version of a known record. -/
def InOrder (e : CcEntry V) : Prop :=
  Descending (e.archives.getD []) ∧
    (e.payloadStatus ≠ .unknown → ∀ v ∈ e.archives.getD [], v.commitTs < e.commitTs)

/-- What the operations keep: an entry of which nothing is known is at version 0. -/
structure Layered (e : CcEntry V) : Prop where
  descending : Descending e.versions
  unknown : e.payloadStatus = .unknown → e.commitTs = 0

variable {e : CcEntry V}

theorem Layered.archived (h : Layered e) : Descending (e.archives.getD []) :=
  (List.pairwise_cons.mp h.descending).2

theorem Layered.below (h : Layered e) : ∀ v ∈ e.archives.getD [], v.commitTs < e.commitTs :=
  (List.pairwise_cons.mp h.descending).1

theorem Layered.inOrder (h : Layered e) : e.InOrder := ⟨h.archived, fun _ => h.below⟩

theorem layered_initial : Layered (initial : CcEntry V) where
  descending := List.pairwise_singleton _ _
  unknown _ := rfl

/-- An archive at the current version of a known record is out of order. -/
theorem not_inOrder {v : VersionRecord V} (known : e.payloadStatus ≠ .unknown)
    (hv : v ∈ e.archives.getD []) (same : e.commitTs ≤ v.commitTs) : ¬ e.InOrder := by
  intro h
  have := h.2 known v hv
  omega

section
variable {c : Commit V}

theorem postWrite_newer (newer : e.commitTs < c.commitTs) : e.postWrite c = e.commit c := by
  have same := (archiveForMvcc_frame e c.recycleTs).1
  simp only [postWrite, same]
  rw [if_neg (by omega)]
  rfl

theorem Layered.postWrite (h : Layered e) (newer : e.commitTs < c.commitTs) : Layered (e.postWrite c) := by
  rw [postWrite_newer newer]
  refine ⟨commit_descending h.descending newer, fun unknown => ?_⟩
  have := (archiveForMvcc_frame e c.recycleTs).1
  simp only [commit, installVersion, setCommitTsPayloadStatus, this, newer, if_true] at unknown
  split at unknown <;> cases unknown

/-- A write that is not newer leaves the current version among the archives. -/
theorem postWrite_stale (h : Layered e) (positive : 0 < c.commitTs) (stale : c.commitTs ≤ e.commitTs) :
    ¬ (e.postWrite c).InOrder := by
  have known : e.payloadStatus ≠ .unknown := fun unknown => by
    have := h.unknown unknown
    omega
  obtain ⟨ts, status, -⟩ := archiveForMvcc_frame e c.recycleTs
  have archived := archiveForMvcc_known c.recycleTs known
  have same : (e.postWrite c).archives = (e.archiveForMvcc c.recycleTs).archives ∧
      (e.postWrite c).commitTs = e.commitTs ∧ (e.postWrite c).payloadStatus = e.payloadStatus := by
    unfold CcEntry.postWrite
    simp only
    split
    · exact ⟨rfl, ts, status⟩
    · rw [installVersion, setCommitTsPayloadStatus, if_neg]
      · exact ⟨rfl, ts, status⟩
      · change ¬ (e.archiveForMvcc c.recycleTs).commitTs < c.commitTs
        omega
  refine not_inOrder (v := (e.kickOutArchiveRecords c.recycleTs).current) ?_ ?_ ?_
  · rwa [same.2.2]
  · rw [same.1, archived]
    exact List.mem_cons_self
  · rw [same.2.1, (kickOut_current e c.recycleTs).1]
    exact Nat.le_refl _

end

theorem addArchiveRecord_frame (e : CcEntry V) (payload : Option V) (status : RecordStatus) (ts : Nat) :
    (e.addArchiveRecord payload status ts).commitTs = e.commitTs ∧
      (e.addArchiveRecord payload status ts).payloadStatus = e.payloadStatus := by
  unfold addArchiveRecord
  split <;> exact ⟨rfl, rfl⟩

/-- A version below the current one that `AddArchiveRecord` may put among the archives. -/
theorem Layered.addArchiveRecord (h : Layered e) (payload : Option V) (status : RecordStatus) {ts : Nat}
    (older : ts < e.commitTs) : Layered (e.addArchiveRecord payload status ts) := by
  obtain ⟨descending, mem⟩ := addArchiveRecord_archives h.archived payload status ts
  have frame := addArchiveRecord_frame e payload status ts
  refine ⟨Descending.cons descending fun v hv => ?_, ?_⟩
  · change v.commitTs < (e.addArchiveRecord payload status ts).commitTs
    rw [frame.1]
    rcases mem v hv with hv | rfl
    · exact h.below v hv
    · exact older
  · rw [frame.1, frame.2]
    exact h.unknown

/-- A batch that is older than all versions in memory goes behind them. -/
theorem Layered.addArchiveRecords (h : Layered e) {batch : List (VersionTxRecord V)}
    (historical : batch.Pairwise (·.commitTs > ·.commitTs))
    (older : ∀ v ∈ e.versions, ∀ b ∈ batch, b.commitTs < v.commitTs) :
    Layered (e.addArchiveRecords batch) := by
  have frame : (e.addArchiveRecords batch).commitTs = e.commitTs ∧
      (e.addArchiveRecords batch).payloadStatus = e.payloadStatus := by
    unfold CcEntry.addArchiveRecords
    split <;> exact ⟨rfl, rfl⟩
  have apart : ∀ a ∈ e.archives.getD [], ∀ b ∈ batch, b.commitTs < a.commitTs :=
    fun a ha => older a (List.mem_cons_of_mem _ ha)
  obtain ⟨descending, mem⟩ := addArchiveRecords_archives h.archived historical (by
    rintro a ha - ⟨b, hb, le⟩
    have := apart a ha b hb
    omega)
  refine ⟨Descending.cons descending fun v hv => ?_, ?_⟩
  · change v.commitTs < (e.addArchiveRecords batch).commitTs
    rw [frame.1]
    rcases (mem v).mp hv with hv | ⟨b, hb, rfl, -⟩
    · exact h.below v hv
    · exact older e.current List.mem_cons_self b hb
  · rw [frame.1, frame.2]
    exact h.unknown

theorem Layered.setCkptTs (h : Layered e) (ts : Nat) : Layered (e.setCkptTs ts) := by
  unfold CcEntry.setCkptTs
  split
  · exact ⟨h.descending, h.unknown⟩
  · exact h

theorem setCkptTs_versions (ts : Nat) : (e.setCkptTs ts).versions = e.versions := by
  unfold CcEntry.setCkptTs
  split <;> rfl

/-- A record for an entry of which nothing was known. -/
theorem Layered.filled (h : Layered e) (unknown : e.payloadStatus = .unknown) (payload : Option V) (ts : Nat)
    {status : RecordStatus} (known : status ≠ .unknown) :
    let filled := { e with curPayload := payload }.setCommitTsPayloadStatus ts status
    Layered filled ∧ ∀ v ∈ filled.versions, ts ≤ v.commitTs := by
  have zero := h.unknown unknown
  have empty : e.archives.getD [] = [] := by
    apply List.eq_nil_iff_forall_not_mem.mpr
    intro v hv
    have := h.below v hv
    omega
  by_cases positive : 0 < ts
  · simp only [setCommitTsPayloadStatus, zero, positive, if_true]
    refine ⟨⟨by simp [Descending, versions, empty], fun unknown => absurd unknown known⟩, ?_⟩
    simp [versions, empty, current]
  · obtain rfl : ts = 0 := by omega
    simp only [setCommitTsPayloadStatus, Nat.not_lt_zero, if_false]
    exact ⟨⟨by simp [Descending, versions, empty], fun _ => zero⟩, fun _ _ => Nat.zero_le _⟩

section
variable [Inhabited V] {isSecondary : Bool} {r : ReplayRecord V} {o : OutsideRecord V}

theorem deletedOr_ne (isDel : Bool) : deletedOr isDel ≠ .unknown := by
  cases isDel <;> simp [deletedOr]

theorem Layered.replayRecord (h : Layered e)
    (fresh : r.commitTs ≠ e.commitTs ∨ r.commitTs = 1 ∧ r.isDel = true) :
    Layered (e.replayRecord isSecondary r) := by
  unfold CcEntry.replayRecord
  split
  · rename_i old
    rcases fresh with ne | ⟨one, deleted⟩
    · exact h.addArchiveRecord _ _ (by omega)
    · simpa [CcEntry.addArchiveRecord, one, deleted, deletedOr] using h
  · rename_i newer
    have newer : e.archiveBeforeUpdate.commitTs < r.commitTs := by
      unfold archiveBeforeUpdate
      split
      · omega
      · exact Nat.lt_of_not_le newer
    simp only [setCommitTsPayloadStatus, newer, if_true]
    refine ⟨?_, fun unknown => absurd unknown (deletedOr_ne _)⟩
    by_cases unknown : e.payloadStatus = .unknown
    · rw [show e.archiveBeforeUpdate = e by simp [archiveBeforeUpdate, unknown]] at newer ⊢
      exact Descending.cons h.archived fun v hv => Nat.lt_trans (h.below v hv) newer
    · rw [show e.archiveBeforeUpdate = { e with archives := some e.versions, curPayload := none } by
        simp [archiveBeforeUpdate, unknown, versions, current]] at newer ⊢
      refine Descending.cons h.descending fun v hv => ?_
      cases hv with
      | head => exact newer
      | tail _ hv => exact Nat.lt_trans (h.below v hv) newer

/-- The current version replayed again is put among the archives. -/
theorem replayRecord_again (h : Layered e) (positive : 0 < r.commitTs) (same : r.commitTs = e.commitTs)
    (kept : ¬ (r.commitTs = 1 ∧ r.isDel = true)) : ¬ (e.replayRecord isSecondary r).InOrder := by
  have known : e.payloadStatus ≠ .unknown := fun unknown => by
    have := h.unknown unknown
    omega
  have recorded : ¬ (r.commitTs = 1 ∧ deletedOr r.isDel = .deleted) := by
    rintro ⟨one, deleted⟩
    refine kept ⟨one, ?_⟩
    cases del : r.isDel with
    | true => rfl
    | false => simp [deletedOr, del] at deleted
  have front : (e.archives.getD []).dropWhile (fun a => decide (r.commitTs < a.commitTs)) =
      e.archives.getD [] := by
    cases archives : e.archives.getD [] with
    | nil => rfl
    | cons a older =>
      have := h.below a (by simp [archives])
      exact List.dropWhile_cons_of_neg (by simp; omega)
  have new : ((e.archives.getD []).head?.any fun a => a.commitTs = r.commitTs) = false := by
    cases archives : e.archives.getD [] with
    | nil => rfl
    | cons a older =>
      have := h.below a (by simp [archives])
      simp only [List.head?_cons, Option.any_some, decide_eq_false_iff_not]
      omega
  rw [CcEntry.replayRecord, if_pos (Nat.le_of_eq same), CcEntry.addArchiveRecord, if_neg recorded]
  simp only [front, new, Bool.false_eq_true, if_false]
  exact not_inOrder known (List.mem_append_right _ List.mem_cons_self) (Nat.le_of_eq same.symm)

theorem Layered.readOutside (h : Layered e) (enabled : (VersionOp.readOutside o).Enabled e) :
    Layered (e.readOutside o) := by
  obtain ⟨oldest, historical, older⟩ := enabled
  have onward {f : CcEntry V} (hf : Layered f) (above : ∀ v ∈ f.versions, o.readTimestamp ≤ v.commitTs) :
      Layered ((f.setCkptTs o.readTimestamp).addArchiveRecords o.archives) := by
    refine (hf.setCkptTs _).addArchiveRecords historical fun v hv b hb => ?_
    rw [setCkptTs_versions] at hv
    exact Nat.lt_of_lt_of_le (older b hb) (above v hv)
  unfold CcEntry.readOutside
  generalize some (if o.isDel then default else o.record) = payload
  simp only
  by_cases unknown : e.payloadStatus = .unknown
  · rw [if_pos unknown]
    obtain ⟨layered, above⟩ := h.filled unknown payload o.readTimestamp (deletedOr_ne o.isDel)
    exact onward layered above
  · rw [if_neg unknown]
    have oldest := oldest.resolve_left unknown
    split
    · rename_i newer
      refine onward (h.addArchiveRecord payload _ newer) fun v hv => ?_
      rcases List.mem_cons.mp hv with rfl | hv
      · exact Nat.le_of_lt (Nat.lt_of_lt_of_eq newer (addArchiveRecord_frame ..).1.symm)
      · rcases (addArchiveRecord_archives h.archived _ _ _).2 v hv with hv | rfl
        · exact oldest v (List.mem_cons_of_mem _ hv)
        · exact Nat.le_refl _
    · exact onward h oldest

end

end CcEntry

namespace VersionOp

def exec [Inhabited V] (e : CcEntry V) : VersionOp V → CcEntry V
  | commit c => e.postWrite c
  | upload c => e.postWrite c
  | replay isSecondary r => e.replayRecord isSecondary r
  | readOutside r => e.readOutside r

/-- An upload is newer than the current version, and a log record is not the current version,
unless it is the deletion that no archive records. -/
def Fresh (e : CcEntry V) : VersionOp V → Prop
  | upload c => e.commitTs < c.commitTs
  | replay _ r => r.commitTs ≠ e.commitTs ∨ r.commitTs = 1 ∧ r.isDel = true
  | _ => True

variable [Inhabited V] {e : CcEntry V} {op : VersionOp V}

theorem layered (h : e.Layered) (enabled : op.Enabled e) (fresh : op.Fresh e) : (op.exec e).Layered := by
  cases op with
  | commit c => exact h.postWrite enabled
  | upload c => exact h.postWrite fresh
  | replay isSecondary r => exact h.replayRecord fresh
  | readOutside r => exact h.readOutside enabled

theorem inOrder_iff (h : e.Layered) (enabled : op.Enabled e) : (op.exec e).InOrder ↔ op.Fresh e := by
  constructor
  · intro ordered
    by_contra stale
    cases op with
    | commit c | readOutside r => exact stale trivial
    | upload c => exact CcEntry.postWrite_stale h enabled (Nat.le_of_not_lt stale) ordered
    | replay isSecondary r =>
      have stale := not_or.mp stale
      exact CcEntry.replayRecord_again h enabled (Decidable.not_not.mp stale.1) stale.2 ordered
  · exact fun fresh => (layered h enabled fresh).inOrder

/-- The entries that operations of callers who keep their promises lead to, as long as nothing
stale arrives. -/
def Reached : CcEntry V → Prop :=
  Reachable (· = CcEntry.initial) fun e (op : VersionOp V) e' =>
    op.Enabled e ∧ op.Fresh e ∧ e' = op.exec e

/-- **Archives in order.** They are in order in every entry that is reached without a stale upload
and without replaying the current version, and the next operation keeps them so exactly if it is
neither. -/
theorem archives_stay_in_order (h : Reached e) :
    e.InOrder ∧ ∀ op : VersionOp V, op.Enabled e → ((op.exec e).InOrder ↔ op.Fresh e) := by
  have layered : e.Layered := by
    refine h.invariant (P := CcEntry.Layered) ?_ ?_
    · rintro e rfl
      exact CcEntry.layered_initial
    · rintro e op e' ⟨enabled, fresh, rfl⟩ he
      exact VersionOp.layered he enabled fresh
  exact ⟨layered.inOrder, fun op enabled => inOrder_iff layered enabled⟩

theorem Reached.start : Reached (CcEntry.initial : CcEntry V) :=
  Reachable.start rfl

theorem Reached.next {e : CcEntry V} (h : Reached e) (op : VersionOp V) (enabled : op.Enabled e)
    (fresh : op.Fresh e) : Reached (op.exec e) :=
  Reachable.next h ⟨enabled, fresh, rfl⟩

/-- A commit at 8, a log record of version 5, an upload of version 9 and a record of version 3 from
the store with version 2. -/
theorem archives_stay_in_order_backfilled :
    let ops : List (VersionOp Nat) :=
      [.commit ⟨0, 8, false, some 80⟩, .replay false ⟨5, false, 50⟩, .upload ⟨0, 9, true, none⟩,
        .readOutside ⟨3, false, 30, [⟨some 20, .normal, 2⟩]⟩]
    let e := ops.foldl (fun e op => op.exec e) CcEntry.initial
    (e.archives.getD []).map VersionRecord.commitTs = [8, 5, 3, 2] ∧ e.commitTs = 9 ∧ e.InOrder := by
  intro ops e
  have committed := Reached.start.next (.commit ⟨0, 8, false, some 80⟩) (Nat.succ_pos 7) trivial
  have replayed := committed.next (.replay false ⟨5, false, 50⟩) (Nat.succ_pos 4) (.inl (by decide))
  have uploaded := replayed.next (.upload ⟨0, 9, true, none⟩) (Nat.succ_pos 8) (Nat.lt_succ_self 8)
  have reached : Reached e :=
    uploaded.next (.readOutside ⟨3, false, 30, [⟨some 20, .normal, 2⟩]⟩)
      ⟨.inr (by decide), by simp, by simp⟩ trivial
  exact ⟨by decide, by decide, (archives_stay_in_order reached).1⟩

/-- A log record that is replayed a second time puts the current version among the archives, and so
does an upload that is older than it. -/
theorem stale_version_archives_current :
    let record : VersionOp Nat := .replay false ⟨5, false, 50⟩
    let late : VersionOp Nat := .upload ⟨0, 3, false, some 30⟩
    let e := record.exec CcEntry.initial
    (record.Enabled CcEntry.initial ∧ record.Enabled e ∧ late.Enabled e) ∧
      ((record.exec e).commitTs = 5 ∧ ((record.exec e).archives.getD []).map VersionRecord.commitTs = [5]) ∧
      ¬ (record.exec e).InOrder ∧ ¬ (late.exec e).InOrder := by
  intro record late e
  refine ⟨⟨Nat.succ_pos 4, Nat.succ_pos 4, Nat.succ_pos 2⟩, ⟨rfl, rfl⟩, ?_, ?_⟩
  · exact CcEntry.not_inOrder (v := ⟨some 50, 5, .normal⟩) (by decide) (by decide) (by decide)
  · exact CcEntry.not_inOrder (v := ⟨some 50, 5, .normal⟩) (by decide) (by decide) (by decide)

end VersionOp

end TxService
