import TxService.Transition
import TxService.UpsertTable

/-!
# A prepared schema change runs to its end

A use of an `UpsertTableOp` is unprepared, being released, or prepared; a prepared one goes on to the
end with the new schema or without it.
-/

namespace TxService.UpsertTable

open Transition

def Event.atEnd : Event → Bool
  | postCommitted _ | cleanLogged | told _ => true
  | prepareLogged _ | kvFailed | commitLogged _ => false

/-- Nothing has been posted or answered. -/
def Quiet (events : List Event) : Prop := ∀ e ∈ events, e.atEnd = false

theorem Quiet.append {es fs : List Event} (h : Quiet es) (h' : Quiet fs) : Quiet (es ++ fs) := by
  intro e he
  cases List.mem_append.mp he with
  | inl he => exact h e he
  | inr he => exact h' e he

/-- The stages of a prepared schema change before its end. -/
def Stage.prepared : Stage → Bool
  | postAllIntent | unlockClusterConfig | upsertKvTable | sequenceDataLog | resetSequenceRecord
  | lockClusterConfig | acquireAllLock | commitLog | cleanCcm | postAllLock => true
  | pooled | acquireAllIntent | prepareLog | cleanLog => false

/-- The prepare log was written by this use or read for recovery; after recovery from a commit
log the operation is past its locks. -/
def UpsertTableOp.Logged (w : UpsertTableOp) : Prop :=
  w.prepareLogFinished = true ∨ w.writeType = .postCommit ∧
    (w.op = .postAllLock ∨ w.op = .cleanCcm ∨ w.op = .upsertKvTable ∧ w.opType ≠ .createTable)

inductive Phase (u : Use) (w : UpsertTableOp) : Prop
  | unprepared (new : u.request.start.recovers = false) (events : u.events = [])
      (log : w.prepareLogFinished = false)
      (stage : w.op = .lockClusterConfig ∨ w.op = .acquireAllIntent ∧ w.intentFailCnt = 0 ∨
        w.op = .prepareLog ∧ w.intentFailCnt = 0 ∧ w.commitTs ≠ txOpFailedTs)
  | releasing (new : u.request.start.recovers = false) (events : u.events = [])
      (stage : w.op = .postAllLock) (ts : w.commitTs = txOpFailedTs)
  | released (new : u.request.start.recovers = false)
      (events : u.events = [.postCommitted txOpFailedTs])
      (stage : w.op = .cleanLog) (ts : w.commitTs = txOpFailedTs)
  | prepared (schema : u.NewSchema w.commitTs) (quiet : Quiet u.events)
      (intents : w.intentFailCnt = 0) (stage : w.op.prepared = true) (log : w.Logged)
  | rejecting (prepared : u.Prepared) (quiet : Quiet u.events) (intents : w.intentFailCnt = 0)
      (stage : w.op = .commitLog) (ts : w.commitTs = txOpFailedTs) (failed : .kvFailed ∈ u.events)
      (create : w.opType = .createTable)
  | rejected (prepared : u.Prepared) (quiet : Quiet u.events) (intents : w.intentFailCnt = 0)
      (stage : w.op = .postAllLock) (ts : w.commitTs = txOpFailedTs) (reason : u.Rejected)
  | posted (before : List Event) (quiet : Quiet before)
      (events : u.events = before ++ [.postCommitted w.commitTs]) (prepared : u.Prepared)
      (stage : w.op = .cleanLog)
      (ts : u.NewSchema w.commitTs ∨ w.commitTs = txOpFailedTs ∧ u.Rejected)

/-- What holds of an object in use. -/
structure Use.Sound (u : Use) (w : UpsertTableOp) : Prop where
  opType : w.opType = u.request.opType
  force : w.isForceFinished = false
  downgrade : w.writeType = .downgradeLock → w.op = .postAllLock ∧ w.commitTs ≠ txOpFailedTs
  phase : Phase u w

/-- The use with the events of one more step. -/
def Use.add (u : Use) (events : List Event) : Use := { u with events := u.events ++ events }

theorem Use.add_nil (u : Use) : u.add [] = u := by
  simp [Use.add]

variable {u : Use} {ts : Nat}

theorem Use.Prepared.add (h : u.Prepared) (es : List Event) : (u.add es).Prepared := by
  cases h with
  | inl h =>
    obtain ⟨ts, mem⟩ := h
    exact .inl ⟨ts, List.mem_append_left _ mem⟩
  | inr h => exact .inr h

theorem Use.NewSchema.add (h : u.NewSchema ts) (es : List Event) :
    (u.add es).NewSchema ts :=
  ⟨h.1, h.2.imp_left (List.mem_append_left _)⟩

theorem Use.NewSchema.prepared (h : u.NewSchema ts) : u.Prepared :=
  h.2.imp (fun mem => ⟨ts, mem⟩) fun start => ⟨ts, start⟩

theorem Use.Rejected.add (h : u.Rejected) (es : List Event) : (u.add es).Rejected :=
  ⟨h.1, h.2.imp_left fun sub => sub.trans (List.sublist_append_left _ _)⟩

theorem Use.complete_of_failed (new : u.request.start.recovers = false)
    (events : ∀ e ∈ u.events, e = .postCommitted txOpFailedTs ∨ e = .cleanLogged ∨ e = .told .failed) :
    u.Complete := by
  have unprepared : ¬ u.Prepared := by
    rintro (⟨ts, mem⟩ | ⟨ts, start⟩)
    · simpa using events _ mem
    · simp [start, Start.recovers] at new
  refine ⟨fun h => absurd h unprepared, fun h => absurd h unprepared, ?_, ?_⟩
  · intro mem
    simpa using events _ mem
  · rintro ⟨ts, schema, -⟩
    exact absurd schema.prepared unprepared

theorem Use.complete_of_posted {before : List Event} {r : UpsertResult} (quiet : Quiet before)
    (events : u.events = before ++ [.postCommitted ts, .cleanLogged, .told r])
    (commitTs : u.NewSchema ts ∨ ts = txOpFailedTs ∧ u.Rejected)
    (answer : r = .succeeded ↔ ts ≠ txOpFailedTs) : u.Complete := by
  have once : ∀ x, .postCommitted x ∈ u.events → x = ts := by
    intro x mem
    rw [events] at mem
    cases List.mem_append.mp mem with
    | inl mem => exact absurd (quiet _ mem) (by simp [Event.atEnd])
    | inr mem => simpa using mem
  have told : ∀ x, .told x ∈ u.events → x = r := by
    intro x mem
    rw [events] at mem
    cases List.mem_append.mp mem with
    | inl mem => exact absurd (quiet _ mem) (by simp [Event.atEnd])
    | inr mem => simpa using mem
  refine ⟨fun _ => ⟨ts, r, commitTs.imp_right And.left, ?_⟩, fun _ mem => ?_, ?_, ?_⟩
  · rw [events]
    exact List.suffix_append _ _
  · have zero := once _ mem
    cases commitTs with
    | inl schema => exact absurd zero.symm schema.1
    | inr rejected => exact rejected.2
  · intro mem
    have nonzero := answer.mp (told _ mem).symm
    cases commitTs with
    | inl schema => exact ⟨ts, schema, by simp [events]⟩
    | inr rejected => exact absurd rejected.1 nonzero
  · rintro ⟨x, schema, mem⟩
    have same := once x mem
    have success := answer.mpr (same ▸ schema.1)
    simp [events, success]

/-- The step ends the use as it should, or the use goes on. -/
def Use.Continues (u : Use) (f : Forwarded) : Prop :=
  if f.op.op = .pooled then (u.add f.events).Complete else (u.add f.events).Sound f.op

theorem Use.Continues.of_sound {f : Forwarded} (inUse : f.op.op ≠ .pooled)
    (h : (u.add f.events).Sound f.op) : u.Continues f := by
  rw [Use.Continues, if_neg inUse]
  exact h

theorem Use.Continues.of_complete {f : Forwarded} (pooled : f.op.op = .pooled)
    (h : (u.add f.events).Complete) : u.Continues f := by
  rw [Use.Continues, if_pos pooled]
  exact h

theorem Use.Sound.again {w : UpsertTableOp} (h : u.Sound w) (inUse : w.op ≠ .pooled) :
    u.Continues ⟨w, []⟩ :=
  .of_sound inUse (u.add_nil.symm ▸ h)

theorem intent_commitTs_pos (results : List (Nat × Nat)) (bound : Nat) :
    (results.map intentTs).foldl max (bound + 1) ≠ txOpFailedTs := by
  suffices grows : ∀ (l : List Nat) (n : Nat), n ≤ l.foldl max n by
    have := grows (results.map intentTs) (bound + 1)
    simp only [txOpFailedTs]
    omega
  intro l
  induction l with
  | nil => exact fun n => Nat.le_refl n
  | cons x l ih => exact fun n => Nat.le_trans (Nat.le_max_left n x) (ih _)

section
variable {u : Use} {w : UpsertTableOp} {c : StoreConfig} {r : SubResult} {f : Forwarded}

section
variable (h : u.Sound w) (new : u.request.start.recovers = false) (events : u.events = [])
include h new events

theorem Use.Sound.lockClusterConfig (log : w.prepareLogFinished = false)
    (op : w.op = .lockClusterConfig) (step : w.afterLockClusterConfig r = some f) :
    u.Continues f := by
  have write : w.writeType ≠ .downgradeLock := fun e => by simpa [op] using (h.downgrade e).1
  cases r <;> simp only [UpsertTableOp.afterLockClusterConfig, log, Bool.false_eq_true, if_false,
    Option.some.injEq, reduceCtorEq] at step
  case error =>
    subst step
    refine .of_complete rfl (complete_of_failed new ?_)
    simp [Use.add, events, UpsertTableOp.forceToFinish, UpsertTableOp.finish, UpsertTableOp.result]
  case success =>
    subst step
    refine .of_sound (by simp) ⟨h.opType, h.force, fun e => absurd e write, ?_⟩
    exact .unprepared new (by simp [Use.add, events]) rfl (.inr (.inl ⟨rfl, rfl⟩))

theorem Use.Sound.acquireAllIntent (log : w.prepareLogFinished = false)
    (op : w.op = .acquireAllIntent) (intents : w.intentFailCnt = 0)
    (step : w.afterAcquireAllIntent r = some f) : u.Continues f := by
  have write : w.writeType ≠ .downgradeLock := fun e => by simpa [op] using (h.downgrade e).1
  cases r <;> simp only [UpsertTableOp.afterAcquireAllIntent, Option.some.injEq, reduceCtorEq] at step
  case refused failures =>
    subst step
    refine .of_sound (by simp) ⟨h.opType, h.force, fun e => absurd e write, ?_⟩
    exact .releasing new (by simp [Use.add, events]) rfl rfl
  case acquired results =>
    subst step
    refine .of_sound (by simp) ⟨h.opType, h.force, fun e => absurd e write, ?_⟩
    exact .unprepared new (by simp [Use.add, events]) log
      (.inr (.inr ⟨rfl, intents, intent_commitTs_pos _ _⟩))

theorem Use.Sound.prepareLog (op : w.op = .prepareLog) (intents : w.intentFailCnt = 0)
    (ts : w.commitTs ≠ txOpFailedTs) (step : w.afterPrepareLog r = some f) : u.Continues f := by
  have write : w.writeType ≠ .downgradeLock := fun e => by simpa [op] using (h.downgrade e).1
  cases r <;> simp only [UpsertTableOp.afterPrepareLog, Option.some.injEq, reduceCtorEq] at step
  case unknown =>
    subst step
    exact h.again (by simp [op])
  case error =>
    subst step
    refine .of_sound (by simp) ⟨h.opType, h.force, fun e => absurd e write, ?_⟩
    exact .releasing new (by simp [Use.add, events]) rfl rfl
  case success =>
    subst step
    refine .of_sound (by simp) ⟨h.opType, h.force, fun e => absurd e write, ?_⟩
    refine .prepared ⟨ts, .inl (by simp [Use.add])⟩ ?_ intents rfl (.inl rfl)
    simp [Quiet, Use.add, events, Event.atEnd]

/-- Without a prepare log all intents are released, with or without success. -/
theorem Use.Sound.releasing (op : w.op = .postAllLock) (ts : w.commitTs = txOpFailedTs)
    (step : w.afterPostAllLock r = some f) : u.Continues f := by
  have write : w.writeType = .postCommit := by
    cases e : w.writeType with
    | postCommit => rfl
    | downgradeLock => exact absurd ts (h.downgrade e).2
  by_cases failed : 0 < w.intentFailCnt
  all_goals cases r <;> simp only [UpsertTableOp.afterPostAllLock, failed, write, if_true, if_false,
    Option.some.injEq, reduceCtorEq] at step
  case pos.error | pos.success =>
    subst step
    refine .of_complete rfl (complete_of_failed new ?_)
    simp [Use.add, events, UpsertTableOp.finish, ts]
  case neg.error =>
    subst step
    exact h.again (by simp [op])
  case neg.success =>
    subst step
    refine .of_sound (by simp [UpsertTableOp.goto])
      ⟨h.opType, h.force, fun e => by simp [UpsertTableOp.goto, write] at e, ?_⟩
    exact .released new (by simp [Use.add, events, ts]) rfl ts

end

theorem Use.Sound.cleanLog (h : u.Sound w) (op : w.op = .cleanLog)
    (ends : (u.add [.cleanLogged, .told w.result]).Complete)
    (step : w.afterCleanLog r = some f) : u.Continues f := by
  cases r <;> simp only [UpsertTableOp.afterCleanLog, Option.some.injEq, reduceCtorEq] at step
  case error =>
    subst step
    exact h.again (by simp [op])
  case success =>
    subst step
    exact .of_complete rfl ends

end

end TxService.UpsertTable
