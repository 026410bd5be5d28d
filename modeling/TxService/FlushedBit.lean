import TxService.EntryWord
import TxService.Transition

/-!
# What the flushed bit of an entry says

A version is marked as flushed if a checkpoint has written it, or if there is nothing to write.
-/

namespace TxService

open Transition

/-- The calls that write the word. -/
inductive EntryOp
  | setCommitTsPayloadStatus (ts : BitVec 64) (status : RecordStatus)
  | setCkptTs (ts : BitVec 64)
  | setBeingCkpt
  | clearBeingCkpt

/-- What the word is about: the version of the last call of `SetCommitTsPayloadStatus` that took
effect, and the timestamps of the checkpoints since. -/
structure Installed where
  commitTs : BitVec 64
  status : RecordStatus
  checkpoints : List (BitVec 64)

namespace Installed

def initial : Installed := ⟨0, .unknown, []⟩

def record (v : Installed) : EntryOp → Installed
  | .setCommitTsPayloadStatus ts status => if v.commitTs < ts then ⟨ts, status, []⟩ else v
  | .setCkptTs ts => { v with checkpoints := ts :: v.checkpoints }
  | .setBeingCkpt | .clearBeingCkpt => v

/-- The version is in the store, or is a deletion that has no place there. -/
def Stored (skipKv : Bool) (v : Installed) : Prop :=
  (∃ ts ∈ v.checkpoints, v.commitTs ≤ ts) ∨ v.status = .deleted ∧ skipKv = true

end Installed

namespace EntryOp

def exec (skipKv : Bool) (e : EntryInfo) : EntryOp → EntryInfo
  | setCommitTsPayloadStatus ts status => e.setCommitTsPayloadStatus skipKv ts status
  | setCkptTs ts => e.setCkptTs ts
  | setBeingCkpt => e.setBeingCkpt
  | clearBeingCkpt => e.clearBeingCkpt

/-- Timestamps have seven bytes. -/
def InRange : EntryOp → Prop
  | setCommitTsPayloadStatus ts _ | setCkptTs ts => ts.toNat < 2 ^ 56
  | _ => True

instance : DecidablePred InRange
  | setCommitTsPayloadStatus _ _ | setCkptTs _ => inferInstanceAs (Decidable (_ < _))
  | setBeingCkpt | clearBeingCkpt => inferInstanceAs (Decidable True)

/-- Without a data store no deletion arrives that is older than a version that is neither a
deletion nor checkpointed. -/
def Fresh (skipKv : Bool) (e : EntryInfo) : EntryOp → Prop
  | setCommitTsPayloadStatus ts status =>
    skipKv = true → status = .deleted →
      e.commitTs < ts ∨ e.payloadStatus = some .deleted ∨ e.isPersistent false = true
  | _ => True

end EntryOp

/-- The word tells the truth about the installed version. -/
structure EntryInfo.Truthful (skipKv : Bool) (e : EntryInfo) (v : Installed) : Prop where
  commitTs : e.commitTs = v.commitTs
  status : e.payloadStatus = some v.status
  persistent : e.isPersistent false = true → v.Stored skipKv

/-- And the whole truth: what is stored is marked. -/
structure EntryInfo.Exact (skipKv : Bool) (e : EntryInfo) (v : Installed) : Prop extends
    Truthful skipKv e v where
  marked : v.Stored skipKv → e.isPersistent false = true

namespace EntryInfo

variable {skipKv : Bool} {e : EntryInfo} {v : Installed}

theorem Exact.of_fields {flushed : Bool} (h : e.Fields v.commitTs (some v.status) flushed)
    (stored : flushed = true ↔ v.Stored skipKv) : e.Exact skipKv v := by
  obtain ⟨ts, status, rfl⟩ := h
  exact ⟨⟨ts, status, stored.mp⟩, stored.mpr⟩

theorem Exact.fields (h : e.Exact skipKv v) :
    e.Fields v.commitTs (some v.status) (e.isPersistent false) :=
  ⟨h.commitTs, h.status, rfl⟩

theorem Exact.stored_iff (h : e.Exact skipKv v) : e.isPersistent false = true ↔ v.Stored skipKv :=
  ⟨h.persistent, h.marked⟩

theorem Exact.setFlushed (h : e.Exact skipKv v) (stored : v.Stored skipKv) :
    e.setFlushed.Exact skipKv v :=
  .of_fields h.fields.setFlushed (by simp [stored])

/-- A new version is not stored, unless it is a deletion and there is no store. -/
theorem install_exact {ts : BitVec 64} {status : RecordStatus} (small : ts.toNat < 2 ^ 56)
    (keep : ¬ (skipKv = true ∧ status = .deleted)) :
    (install ts status).Exact skipKv ⟨ts, status, []⟩ := by
  refine .of_fields (install_fields small) ?_
  simpa [Installed.Stored, and_comm] using keep

theorem Exact.setCommitTsPayloadStatus (h : e.Exact skipKv v) {ts : BitVec 64}
    {status : RecordStatus} (small : ts.toNat < 2 ^ 56)
    (fresh : (EntryOp.setCommitTsPayloadStatus ts status).Fresh skipKv e) :
    (e.setCommitTsPayloadStatus skipKv ts status).Exact skipKv
      (v.record (.setCommitTsPayloadStatus ts status)) := by
  simp only [EntryInfo.setCommitTsPayloadStatus, Installed.record, ← h.commitTs]
  by_cases newer : e.commitTs < ts
  · simp only [newer, ↓reduceIte]
    split
    · rename_i erased
      exact .of_fields (install_fields small).setFlushed (by simp [Installed.Stored, erased])
    · rename_i keep
      exact install_exact small keep
  · simp only [newer, ↓reduceIte]
    split
    · rename_i erased
      refine h.setFlushed ?_
      rcases fresh erased.1 erased.2 with newer' | deleted | persistent
      · exact absurd newer' newer
      · exact .inr ⟨Option.some.inj (h.status.symm.trans deleted), erased.1⟩
      · exact h.persistent persistent
    · exact h

theorem Exact.setCkptTs (h : e.Exact skipKv v) (ts : BitVec 64) :
    (e.setCkptTs ts).Exact skipKv (v.record (.setCkptTs ts)) := by
  simp only [EntryInfo.setCkptTs, Installed.record, h.commitTs]
  split
  · rename_i reached
    exact .of_fields h.fields.setFlushed
      (iff_of_true rfl (.inl ⟨ts, List.mem_cons_self, reached⟩))
  · rename_i behind
    refine .of_fields h.fields (h.stored_iff.trans ?_)
    simp [Installed.Stored, behind]

theorem Exact.step (h : e.Exact skipKv v) (op : EntryOp) (small : op.InRange)
    (fresh : op.Fresh skipKv e) : (op.exec skipKv e).Exact skipKv (v.record op) := by
  cases op with
  | setCommitTsPayloadStatus ts status => exact h.setCommitTsPayloadStatus small fresh
  | setCkptTs ts => exact h.setCkptTs ts
  | setBeingCkpt =>
    obtain ⟨ts, status, flushed⟩ := setBeingCkpt_fields e
    exact .of_fields ⟨ts.trans h.commitTs, status.trans h.status, flushed⟩ h.stored_iff
  | clearBeingCkpt =>
    obtain ⟨ts, status, flushed⟩ := clearBeingCkpt_fields e
    exact .of_fields ⟨ts.trans h.commitTs, status.trans h.status, flushed⟩ h.stored_iff

/-- A late deletion marks a version that is not stored. -/
theorem Exact.fresh_of_truthful (h : e.Exact skipKv v) (op : EntryOp)
    (after : (op.exec skipKv e).Truthful skipKv (v.record op)) : op.Fresh skipKv e := by
  cases op with
  | setCommitTsPayloadStatus ts status =>
    intro skip erased
    by_cases newer : e.commitTs < ts
    · exact .inl newer
    · have same : v.record (.setCommitTsPayloadStatus ts status) = v := by
        simp [Installed.record, ← h.commitTs, newer]
      have marked : EntryOp.exec skipKv e (.setCommitTsPayloadStatus ts status) = e.setFlushed := by
        simp [EntryOp.exec, EntryInfo.setCommitTsPayloadStatus, newer, skip, erased]
      rw [same, marked] at after
      exact .inr (.inr (h.marked (after.persistent (setFlushed_fields e).2.2)))
  | setCkptTs ts => trivial
  | setBeingCkpt => trivial
  | clearBeingCkpt => trivial

theorem commitTs_le_exec (skipKv : Bool) (e : EntryInfo) (op : EntryOp) (small : op.InRange) :
    e.commitTs ≤ (op.exec skipKv e).commitTs := by
  cases op with
  | setCommitTsPayloadStatus ts status =>
    have kept : e.commitTs ≤ (if e.commitTs < ts then install ts status else e).commitTs := by
      split
      · rename_i newer
        rw [(install_fields small).1]
        exact BitVec.le_of_lt newer
      · exact BitVec.le_refl _
    simp only [EntryOp.exec, EntryInfo.setCommitTsPayloadStatus]
    split
    · rwa [(setFlushed_fields _).1]
    · exact kept
  | setCkptTs ts =>
    simp only [EntryOp.exec, EntryInfo.setCkptTs]
    split
    · exact BitVec.le_of_eq (setFlushed_fields e).1.symm
    · exact BitVec.le_refl _
  | setBeingCkpt => exact BitVec.le_of_eq (setBeingCkpt_fields e).1.symm
  | clearBeingCkpt => exact BitVec.le_of_eq (clearBeingCkpt_fields e).1.symm

/-- The word and what it is about, after calls in range that are all fresh. -/
def Reached (skipKv : Bool) : EntryInfo × Installed → Prop :=
  Reachable (· = (EntryInfo.initial, Installed.initial)) fun s (op : EntryOp) t =>
    op.InRange ∧ op.Fresh skipKv s.1 ∧ t = (op.exec skipKv s.1, s.2.record op)

theorem Reached.next {s : EntryInfo × Installed} (h : Reached skipKv s) (op : EntryOp)
    (small : op.InRange) (fresh : op.Fresh skipKv s.1) :
    Reached skipKv (op.exec skipKv s.1, s.2.record op) :=
  Reachable.next h ⟨small, fresh, rfl⟩

theorem Reached.exact {s : EntryInfo × Installed} (h : Reached skipKv s) :
    s.1.Exact skipKv s.2 := by
  refine h.invariant (P := fun s => s.1.Exact skipKv s.2) ?_ ?_
  · rintro s rfl
    have fields : EntryInfo.initial.Fields 0 (some .unknown) false := initial_fields
    exact .of_fields fields (by simp [Installed.Stored, Installed.initial])
  · rintro s op t ⟨small, fresh, rfl⟩ precise
    exact precise.step op small fresh

/-- **The persistence flag is truthful.** The word holds the commit timestamp and the status of the
last effective call, and its flushed bit is set only for a version that is stored. The timestamp
never decreases, and the next call keeps the word truthful exactly if it is fresh. -/
theorem flushed_bit_truthful {s : EntryInfo × Installed} (h : Reached skipKv s) :
    s.1.Truthful skipKv s.2 ∧ ∀ op : EntryOp, op.InRange →
      s.1.commitTs ≤ (op.exec skipKv s.1).commitTs ∧
        ((op.exec skipKv s.1).Truthful skipKv (s.2.record op) ↔ op.Fresh skipKv s.1) := by
  refine ⟨h.exact.toTruthful, fun op small => ⟨commitTs_le_exec skipKv s.1 op small, ?_⟩⟩
  exact ⟨h.exact.fresh_of_truthful op, fun fresh => (h.exact.step op small fresh).toTruthful⟩

/-- Version 5 is checkpointed, so a late deletion does no harm; version 9 comes while a checkpoint
of it is under way. -/
theorem flushed_bit_truthful_late_deletion :
    let ops : List EntryOp :=
      [.setCommitTsPayloadStatus 5 .normal, .setCkptTs 5, .setCommitTsPayloadStatus 3 .deleted,
        .setBeingCkpt, .setCommitTsPayloadStatus 9 .normal]
    let s := ops.foldl (fun s op => (op.exec true s.1, s.2.record op)) (initial, .initial)
    s.1.Truthful true s.2 ∧ s.1.commitTs = 9 ∧ s.1.isPersistent false = false := by
  intro ops s
  have start : Reached true (initial, .initial) := .start rfl
  have first := start.next (.setCommitTsPayloadStatus 5 .normal) (by decide)
    (fun _ erased => nomatch erased)
  have stored := first.next (.setCkptTs 5) (by decide) trivial
  have late := stored.next (.setCommitTsPayloadStatus 3 .deleted) (by decide)
    (fun _ _ => .inr (.inr (by decide)))
  have busy := late.next .setBeingCkpt trivial trivial
  have second : Reached true s := busy.next (.setCommitTsPayloadStatus 9 .normal) (by decide)
    (fun _ erased => nomatch erased)
  exact ⟨(flushed_bit_truthful second).1, by decide, by decide⟩

/-- Without a data store, a deletion with timestamp 3 that arrives after the record of version 5
is ignored, but marks version 5 as flushed. -/
theorem late_deletion_marks_flushed :
    let e := (EntryOp.setCommitTsPayloadStatus 5 .normal).exec true initial
    let late : EntryOp := .setCommitTsPayloadStatus 3 .deleted
    let v : Installed := ⟨5, .normal, []⟩
    (e.Truthful true v ∧ e.isPersistent false = false) ∧
      ((late.exec true e).commitTs = 5 ∧ (late.exec true e).payloadStatus = some .normal ∧
        (late.exec true e).isPersistent false = true) ∧
      ¬ (late.exec true e).Truthful true (v.record late) := by
  intro e late v
  refine ⟨⟨⟨by decide, by decide, ?_⟩, by decide⟩, by decide, ?_⟩
  · exact fun persistent => absurd persistent (by decide)
  · intro truthful
    obtain ⟨ts, stored, -⟩ | ⟨erased, -⟩ := truthful.persistent (by decide)
    · exact nomatch stored
    · exact nomatch erased

end EntryInfo

end TxService
