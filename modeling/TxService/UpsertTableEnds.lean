import TxService.UpsertTablePrepared

/-!
# Every use of a schema operation ends as it should

The step lemmas of the phases put together, what one step and a whole run preserve, and that each
use can be brought to its end.
-/

namespace TxService.UpsertTable

open Transition

section
variable {u : Use} {w : UpsertTableOp} {c : StoreConfig} {r : SubResult} {f : Forwarded}

/-- The commit log records that the new table is rejected. -/
theorem Use.Sound.rejecting (h : u.Sound w) (prepared : u.Prepared) (quiet : Quiet u.events)
    (intents : w.intentFailCnt = 0) (op : w.op = .commitLog) (ts : w.commitTs = txOpFailedTs)
    (failed : .kvFailed ∈ u.events) (create : w.opType = .createTable)
    (step : w.afterCommitLog c r = some f) : u.Continues f := by
  have write := h.write (by simp [op])
  cases r <;> simp only [UpsertTableOp.afterCommitLog, Option.some.injEq, reduceCtorEq] at step
  case error =>
    subst step
    exact h.again (by simp [op])
  case success =>
    subst step
    have stage : w.committedStage c = .postAllLock := by simp [UpsertTableOp.committedStage, create]
    refine .of_sound (by simp [UpsertTableOp.goto, stage])
      ⟨h.opType, h.force, fun e => (by cases write.symm.trans e), ?_⟩
    refine .rejected (prepared.add _) (quiet.append ?_) intents stage ts ⟨?_, .inl ?_⟩
    · simp [Quiet, Event.atEnd]
    · exact h.opType.symm.trans create
    · rw [ts]
      exact List.Sublist.append (List.singleton_sublist.mpr failed) (List.Sublist.refl _)

theorem Use.Sound.rejected (h : u.Sound w) (prepared : u.Prepared) (quiet : Quiet u.events)
    (intents : w.intentFailCnt = 0) (op : w.op = .postAllLock) (ts : w.commitTs = txOpFailedTs)
    (reason : u.Rejected) (step : w.afterPostAllLock r = some f) : u.Continues f := by
  have write : w.writeType = .postCommit := by
    cases e : w.writeType with
    | postCommit => rfl
    | downgradeLock => exact absurd ts (h.downgrade e).2
  cases r <;> simp only [UpsertTableOp.afterPostAllLock, intents, Nat.lt_irrefl, if_false, write,
    reduceCtorEq, Option.some.injEq] at step
  case error =>
    subst step
    exact h.again (by simp [op])
  case success =>
    subst step
    exact h.posted prepared quiet write (.inr ⟨ts, reason⟩)

theorem UpsertTableOp.result_succeeded (w : UpsertTableOp) (force : w.isForceFinished = false) :
    w.result = .succeeded ↔ w.commitTs ≠ txOpFailedTs := by
  by_cases ts : w.commitTs = txOpFailedTs <;> simp [result, ts, force]

theorem Use.Sound.forward (h : u.Sound w)
    (permits : w.op = .lockClusterConfig → r = .error → w.prepareLogFinished = false)
    (step : w.forward c r = some f) : u.Continues f := by
  cases h.phase with
  | unprepared new events log stage =>
    rcases stage with op | ⟨op, intents⟩ | ⟨op, intents, ts⟩ <;>
      simp only [UpsertTableOp.forward, op] at step
    · exact h.lockClusterConfig new events log op step
    · exact h.acquireAllIntent new events log op intents step
    · exact h.prepareLog new events op intents ts step
  | releasing new events op ts =>
    simp only [UpsertTableOp.forward, op] at step
    exact h.releasing new events op ts step
  | released new events op ts =>
    simp only [UpsertTableOp.forward, op] at step
    refine h.cleanLog op (complete_of_failed new ?_) step
    simp [Use.add, events, UpsertTableOp.result, ts]
  | prepared schema quiet intents stage log =>
    exact Use.Going.forward ⟨h, schema, quiet, intents, log⟩ stage permits step
  | rejecting prepared quiet intents op ts failed create =>
    simp only [UpsertTableOp.forward, op] at step
    exact h.rejecting prepared quiet intents op ts failed create step
  | rejected prepared quiet intents op ts reason =>
    simp only [UpsertTableOp.forward, op] at step
    exact h.rejected prepared quiet intents op ts reason step
  | posted before quiet events prepared op ts =>
    simp only [UpsertTableOp.forward, op] at step
    refine h.cleanLog op (complete_of_posted quiet ?_ ?_ (w.result_succeeded h.force)) step
    · simp [Use.add, events]
    · exact ts.imp (fun schema => schema.add _) (And.imp_right fun reason => reason.add _)

theorem UpsertTableOp.begin_sound (w : UpsertTableOp) (c : StoreConfig) (q : Request)
    (fresh : q.start.recovers = true → w.intentFailCnt = 0) :
    (Use.mk q (w.begin c q).events).Sound (w.begin c q).op ∧ (w.begin c q).op.op ≠ .pooled := by
  cases start : q.start with
  | request bound =>
    simp only [begin, start]
    refine ⟨⟨rfl, rfl, fun e => (by cases e), ?_⟩, fun e => by cases e⟩
    exact .unprepared (by simp [start, Start.recovers]) rfl rfl (.inl rfl)
  | prepareSchema ts =>
    have intents := fresh (by simp [start, Start.recovers])
    have versioned : ts ≠ txOpFailedTs := fun e => q.versioned (e ▸ start)
    simp only [begin, start]
    refine ⟨⟨rfl, rfl, fun e => (by cases e), ?_⟩, fun e => by cases e⟩
    refine .prepared ⟨versioned, .inl (by simp)⟩ ?_ intents rfl (.inl rfl)
    simp [Quiet, Event.atEnd]
  | commitSchema ts =>
    have intents := fresh (by simp [start, Start.recovers])
    have stage := (w.reset q).committedStage_prepared c
    have quiet : Quiet [.commitLogged ts] := by simp [Quiet, Event.atEnd]
    simp only [begin, start]
    refine ⟨⟨rfl, rfl, fun e => (by cases e), ?_⟩, fun e => by simp [e, Stage.prepared] at stage⟩
    by_cases zero : ts = txOpFailedTs
    · subst zero
      have create := q.rejects start
      refine .rejected (.inr ⟨_, start⟩) quiet intents ?_ rfl ⟨create, .inr start⟩
      simp [committedStage, reset, create]
    · refine .prepared ⟨zero, .inr start⟩ quiet intents stage ?_
      exact .inr ⟨rfl, (w.reset q).committedStage_cases c⟩

end

structure SchemaOps.Sound (s : SchemaOps) : Prop where
  current : s.op.op ≠ .pooled → s.use.Sound s.op
  ended : ∀ u ∈ s.ended, u.Complete

theorem SchemaOps.Sound.next {c : StoreConfig} {s t : SchemaOps} {a : Action} (h : s.Sound)
    (permits : s.Permits a) (step : s.next c a = some t) : t.Sound := by
  cases a with
  | start q =>
    simp only [SchemaOps.next] at step
    split at step
    · cases step
      exact ⟨fun _ => (s.op.begin_sound c q permits).1, h.ended⟩
    · cases step
  | forward r =>
    simp only [SchemaOps.next, Option.map_eq_some_iff] at step
    obtain ⟨f, forwarded, rfl⟩ := step
    have inUse : s.op.op ≠ .pooled := fun e => by simp [UpsertTableOp.forward, e] at forwarded
    have goesOn := (h.current inUse).forward permits forwarded
    by_cases pooled : f.op.op = .pooled
    · rw [Use.Continues, if_pos pooled] at goesOn
      refine ⟨fun e => absurd pooled e, fun u mem => ?_⟩
      simp only [pooled, if_true, List.mem_append, List.mem_singleton] at mem
      cases mem with
      | inl mem => exact h.ended u mem
      | inr mem => exact mem ▸ goesOn
    · rw [Use.Continues, if_neg pooled] at goesOn
      refine ⟨fun _ => goesOn, fun u mem => ?_⟩
      simp only [pooled, if_false] at mem
      exact h.ended u mem

/-- The result a sub-operation has when it succeeds. -/
def Stage.success : Stage → SubResult
  | acquireAllIntent => .acquired []
  | _ => .success

/-- How far the end is when every sub-operation succeeds. -/
def UpsertTableOp.distance (w : UpsertTableOp) : Nat :=
  (if w.prepareLogFinished then 0 else 16) + match w.op with
    | .pooled => 0
    | .cleanLog => 1
    | .postAllLock => match w.writeType with
      | .postCommit => 2
      | .downgradeLock => 7
    | .cleanCcm => 3
    | .upsertKvTable => if w.opType = .createTable then 12 else 4
    | .commitLog => 5
    | .acquireAllLock => 6
    | .prepareLog => 7
    | .acquireAllIntent => 8
    | .lockClusterConfig => 9
    | .resetSequenceRecord => 10
    | .sequenceDataLog => 11
    | .unlockClusterConfig => 13
    | .postAllIntent => 14

theorem Use.Sound.unlogged {u : Use} {w : UpsertTableOp} (h : u.Sound w)
    (op : w.op = .acquireAllIntent ∨ w.op = .prepareLog) : w.prepareLogFinished = false := by
  cases h.phase with
  | unprepared _ _ log _ => exact log
  | prepared _ _ _ stage _ => rcases op with op | op <;> simp [op, Stage.prepared] at stage
  | releasing _ _ stage | released _ _ stage | rejecting _ _ _ stage | rejected _ _ _ stage
  | posted _ _ _ _ stage => simp [stage] at op

theorem Use.Sound.advances {u : Use} {w : UpsertTableOp} (h : u.Sound w) (c : StoreConfig)
    (inUse : w.op ≠ .pooled) :
    ∃ f, w.forward c w.op.success = some f ∧ f.op.distance < w.distance := by
  have write := h.write
  have log := h.unlogged
  cases op : w.op <;> simp only [op, ne_eq, reduceCtorEq, not_false_eq_true, forall_const,
    not_true_eq_false, or_true, true_or, or_self, IsEmpty.forall_iff] at write log inUse
  all_goals simp only [UpsertTableOp.forward, UpsertTableOp.distance, op, Stage.success]
  case lockClusterConfig =>
    cases finished : w.prepareLogFinished <;>
      simp [UpsertTableOp.afterLockClusterConfig, UpsertTableOp.goto, finished]
  case acquireAllIntent => simp [UpsertTableOp.afterAcquireAllIntent]
  case prepareLog => simp [UpsertTableOp.afterPrepareLog, log]
  case postAllIntent =>
    cases t : w.opType <;> simp [UpsertTableOp.afterPostAllIntent, UpsertTableOp.goto, t]
  case unlockClusterConfig =>
    by_cases create : w.opType = .createTable <;>
      simp [UpsertTableOp.afterUnlockClusterConfig, UpsertTableOp.goto, create]
  case upsertKvTable =>
    cases t : w.opType <;> cases auto : w.hasAutoIncrement <;>
      simp [UpsertTableOp.afterUpsertKvTable, UpsertTableOp.goto, t, auto, write]
  case sequenceDataLog =>
    simp [UpsertTableOp.afterSequenceDataLog, UpsertTableOp.retryUntil, UpsertTableOp.goto]
  case resetSequenceRecord =>
    simp [UpsertTableOp.afterResetSequenceRecord, UpsertTableOp.retryUntil, UpsertTableOp.goto]
  case acquireAllLock => simp [UpsertTableOp.afterAcquireAllLock, UpsertTableOp.goto]
  case commitLog =>
    rcases w.committedStage_cases c with stage | stage | ⟨stage, t⟩ <;>
      simp [UpsertTableOp.afterCommitLog, UpsertTableOp.goto, *]
  case cleanCcm => simp [UpsertTableOp.afterCleanCcm, UpsertTableOp.retryUntil, UpsertTableOp.goto, write]
  case postAllLock =>
    by_cases failed : 0 < w.intentFailCnt <;> cases t : w.writeType <;>
      simp [UpsertTableOp.afterPostAllLock, UpsertTableOp.finish, UpsertTableOp.goto, failed, t]
  case cleanLog => simp [UpsertTableOp.afterCleanLog, UpsertTableOp.finish, UpsertTableOp.goto]

def SchemaOps.Permitted (c : StoreConfig) (s : SchemaOps) (a : Action) (t : SchemaOps) : Prop :=
  s.next c a = some t ∧ s.Permits a

/-- When the sub-operations succeed, the current use comes to its end. -/
theorem SchemaOps.Sound.ends {c : StoreConfig} {s : SchemaOps} (h : s.Sound) :
    ∃ as t, Run (SchemaOps.Permitted c) s as t ∧ (.forward .error) ∉ as ∧ t.op.op = .pooled := by
  induction n : s.op.distance using Nat.strongRecOn generalizing s with
  | _ n ih =>
    by_cases pooled : s.op.op = .pooled
    · exact ⟨[], s, .nil s, by simp, pooled⟩
    · obtain ⟨f, forwarded, closer⟩ := (h.current pooled).advances c pooled
      have good : s.op.op.success ≠ .error := by
        cases s.op.op <;> simp [Stage.success]
      have permits : s.Permits (.forward s.op.op.success) := fun _ e => absurd e good
      obtain ⟨s', step, closer⟩ : ∃ s', s.next c (.forward s.op.op.success) = some s' ∧
          s'.op.distance < s.op.distance := by
        simp only [SchemaOps.next, forwarded, Option.map_some]
        exact ⟨_, rfl, closer⟩
      obtain ⟨as, t, run, noError, ended⟩ := ih _ (n ▸ closer) (h.next permits step) rfl
      refine ⟨.forward s.op.op.success :: as, t, .cons ⟨step, permits⟩ run, ?_, ended⟩
      simp only [List.mem_cons, Action.forward.injEq, not_or]
      exact ⟨fun e => good e.symm, noError⟩

/-- Every use of the object that has ended is complete, and the one in progress can be completed
without a failure. -/
theorem schema_change_completes {c : StoreConfig} {as : List Action} {s : SchemaOps}
    (run : Run (SchemaOps.Permitted c) .initial as s) :
    (∀ u ∈ s.ended, u.Complete) ∧
      ∃ more t, Run (SchemaOps.Permitted c) s more t ∧ (.forward .error) ∉ more ∧
        t.op.op = .pooled ∧ ∀ u ∈ t.ended, u.Complete := by
  have keeps : ∀ {as : List Action} {s t : SchemaOps}, Run (SchemaOps.Permitted c) s as t →
      s.Sound → t.Sound := by
    intro as s t run
    induction run with
    | nil => exact id
    | cons step _ ih => exact fun h => ih (h.next step.2 step.1)
  have sound : s.Sound := keeps run ⟨fun inUse => absurd rfl inUse, fun u mem => by cases mem⟩
  obtain ⟨more, t, onward, noError, ended⟩ := sound.ends (c := c)
  exact ⟨sound.ended, more, t, onward, noError, ended, (keeps onward sound).ended⟩

def tableRequest (opType : OperationType) : Request :=
  ⟨opType, false, .request 5, nofun, nofun⟩

/-- The table is dropped by recovery from its prepare log. -/
def dropRecovery : Request := ⟨.dropTable, false, .prepareSchema 8, nofun, nofun⟩

/-- A table is created after a first failure of the data store, then another is dropped by
recovery, with a deadlock on the way. -/
def goodUses : List Action :=
  [.start (tableRequest .createTable), .forward .success, .forward (.acquired [(3, 7)]),
    .forward .success, .forward .success, .forward .success, .forward .error, .forward .success,
    .forward .success, .forward .success, .start dropRecovery, .forward .success,
    .forward .deadlock, .forward .success, .forward .success, .forward .success,
    .forward .success, .forward .success, .forward .success, .forward .success]

theorem schema_change_rejected_then_dropped :
    ∃ s, Run (SchemaOps.Permitted ⟨false, true⟩) .initial goodUses s ∧
      s.ended.map (fun u => decide (.told .succeeded ∈ u.events)) = [false, true] ∧
      ∀ u ∈ s.ended, u.Complete := by
  let next (s : SchemaOps) (a : Action) : Option SchemaOps :=
    if s.Permits a then s.next ⟨false, true⟩ a else none
  let s := (goodUses.foldlM next .initial).getD .initial
  have run : Run (SchemaOps.Permitted ⟨false, true⟩) .initial goodUses s := by
    refine Run.of_foldlM next (fun s a t h => ?_) rfl
    by_cases permits : s.Permits a
    · exact ⟨(if_pos permits).symm.trans h, permits⟩
    · cases (if_neg permits).symm.trans h
  exact ⟨s, run, by decide, (schema_change_completes run).1⟩

/-- An object whose intents were refused once is used to recover a table drop. -/
def staleUses : List Action :=
  [.start (tableRequest .createTable), .forward .success, .forward (.refused 0),
    .forward .success, .start dropRecovery, .forward .success, .forward .success,
    .forward .success, .forward .success, .forward .success, .forward .success]

/-- The second lock on the cluster config fails. -/
def unlockedUse : List Action :=
  [.start (tableRequest .createTable), .forward .success, .forward (.acquired [(3, 7)]),
    .forward .success, .forward .success, .forward .success, .forward .success, .forward .error]

/-- The recovery ends after `PostCommit` as failed, and a new table is left with its prepare log;
neither writes the clean log. -/
theorem schema_change_forgets_clean_log :
    (∃ s, Run (fun s a t => SchemaOps.next ⟨false, true⟩ s a = some t) .initial staleUses s ∧
      ∃ u ∈ s.ended, u.events = [.prepareLogged 8, .commitLogged 8, .postCommitted 8, .told .failed] ∧
        ¬ u.Complete) ∧
    (∃ s, Run (fun s a t => SchemaOps.next ⟨false, true⟩ s a = some t) .initial unlockedUse s ∧
      ∃ u ∈ s.ended, u.events = [.prepareLogged 9, .told .unverified] ∧ ¬ u.Complete) := by
  constructor
  · let s := (staleUses.foldlM (SchemaOps.next ⟨false, true⟩) .initial).getD .initial
    let u : Use := ⟨dropRecovery, [.prepareLogged 8, .commitLogged 8, .postCommitted 8, .told .failed]⟩
    refine ⟨s, Run.of_foldlM (SchemaOps.next ⟨false, true⟩) (fun _ _ _ h => h) rfl, u, by decide, rfl,
      fun complete => ?_⟩
    have told := complete.succeeded.mpr ⟨8, ⟨by decide, .inl (by decide)⟩, by decide⟩
    exact absurd told (by decide)
  · let s := (unlockedUse.foldlM (SchemaOps.next ⟨false, true⟩) .initial).getD .initial
    let u : Use := ⟨tableRequest .createTable, [.prepareLogged 9, .told .unverified]⟩
    refine ⟨s, Run.of_foldlM (SchemaOps.next ⟨false, true⟩) (fun _ _ _ h => h) rfl, u, by decide, rfl,
      fun complete => ?_⟩
    obtain ⟨ts, r, -, ends⟩ := complete.finished (.inl ⟨9, by decide⟩)
    exact absurd (ends.subset (List.mem_cons_self ..)) (by simp [u])

end TxService.UpsertTable
