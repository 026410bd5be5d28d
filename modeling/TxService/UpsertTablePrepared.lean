import TxService.UpsertTableRuns

/-!
# The stages of a prepared schema change
-/

namespace TxService.UpsertTable

/-- A prepared change on its way to the new schema. -/
structure Use.Going (u : Use) (w : UpsertTableOp) : Prop where
  sound : u.Sound w
  schema : u.NewSchema w.commitTs
  quiet : Quiet u.events
  intents : w.intentFailCnt = 0
  log : w.Logged

section
variable {u : Use} {w : UpsertTableOp} {c : StoreConfig} {r : SubResult} {f : Forwarded}

theorem Use.Sound.write (h : u.Sound w) (op : w.op ≠ .postAllLock) : w.writeType = .postCommit := by
  cases e : w.writeType with
  | postCommit => rfl
  | downgradeLock => exact absurd (h.downgrade e).1 op

/-- Only the last stages are reached without the prepare log of this use. -/
theorem Use.Going.finished (h : u.Going w) (op₁ : w.op ≠ .postAllLock) (op₂ : w.op ≠ .cleanCcm)
    (op₃ : w.op ≠ .upsertKvTable) : w.prepareLogFinished = true := by
  rcases h.log with log | ⟨-, op | op | ⟨op, -⟩⟩
  · exact log
  · exact absurd op op₁
  · exact absurd op op₂
  · exact absurd op op₃

theorem Use.Going.onward (h : u.Going w) (stage : Stage) {es : List Event} (quiet : Quiet es)
    (write : w.writeType = .postCommit) (prepared : stage.prepared = true)
    (log : (w.goto stage).Logged) : u.Continues ⟨w.goto stage, es⟩ := by
  have inUse : stage ≠ .pooled := by
    rintro rfl
    cases prepared
  refine .of_sound inUse
    ⟨h.sound.opType, h.sound.force, fun e => (by cases write.symm.trans e), ?_⟩
  exact .prepared (h.schema.add es) (h.quiet.append quiet) h.intents prepared log

theorem quiet_nil : Quiet [] := by
  intro e he
  cases he

theorem Use.Going.retryUntil (h : u.Going w) (op : w.op ≠ .pooled) (stage : Stage)
    (write : w.writeType = .postCommit) (prepared : stage.prepared = true)
    (log : (w.goto stage).Logged) (step : w.retryUntil stage r = some f) : u.Continues f := by
  cases r <;> simp only [UpsertTableOp.retryUntil, Option.some.injEq, reduceCtorEq] at step
  case error =>
    subst step
    exact h.sound.again op
  case success =>
    subst step
    exact h.onward stage quiet_nil write prepared log

theorem Use.Going.postAllIntent (h : u.Going w) (op : w.op = .postAllIntent)
    (step : w.afterPostAllIntent r = some f) : u.Continues f := by
  have write := h.sound.write (by simp [op])
  have log := h.finished (by simp [op]) (by simp [op]) (by simp [op])
  cases r <;> simp only [UpsertTableOp.afterPostAllIntent, Option.some.injEq, reduceCtorEq] at step
  case error =>
    subst step
    exact h.sound.again (by simp [op])
  case success =>
    cases t : w.opType <;> simp only [t, Option.some.injEq] at step
    all_goals
      subst step
      exact h.onward _ quiet_nil write rfl (.inl log)

theorem Use.Going.unlockClusterConfig (h : u.Going w) (op : w.op = .unlockClusterConfig)
    (step : w.afterUnlockClusterConfig r = some f) : u.Continues f := by
  have write := h.sound.write (by simp [op])
  have log := h.finished (by simp [op]) (by simp [op]) (by simp [op])
  cases r <;> simp only [UpsertTableOp.afterUnlockClusterConfig, Option.some.injEq,
    reduceCtorEq] at step
  all_goals
    subst step
    exact h.onward _ quiet_nil write rfl (.inl log)

theorem Use.Going.lockClusterConfig (h : u.Going w) (op : w.op = .lockClusterConfig)
    (permits : r = .error → w.prepareLogFinished = false)
    (step : w.afterLockClusterConfig r = some f) : u.Continues f := by
  have write := h.sound.write (by simp [op])
  have log := h.finished (by simp [op]) (by simp [op]) (by simp [op])
  cases r <;> simp only [UpsertTableOp.afterLockClusterConfig, log, if_true, Option.some.injEq,
    reduceCtorEq] at step
  case error => simp [log] at permits
  case success =>
    subst step
    exact h.onward _ quiet_nil write rfl (.inl log)

/-- A new table is rejected when the data store step fails. -/
theorem Use.Going.upsertKvTable (h : u.Going w) (op : w.op = .upsertKvTable)
    (step : w.afterUpsertKvTable r = some f) : u.Continues f := by
  have write := h.sound.write (by simp [op])
  cases r <;> simp only [UpsertTableOp.afterUpsertKvTable, reduceCtorEq] at step
  all_goals cases t : w.opType <;> simp only [t, Option.some.injEq] at step
  case error.createTable =>
    subst step
    refine .of_sound (by simp)
      ⟨t.symm.trans h.sound.opType, h.sound.force, fun e => (by cases write.symm.trans e), ?_⟩
    refine .rejecting (h.schema.prepared.add _) (h.quiet.append ?_) h.intents rfl rfl ?_ rfl
    · simp [Quiet, Event.atEnd]
    · simp [Use.add]
  case error.dropTable | error.truncateTable | error.update =>
    subst step
    exact h.sound.again (by simp [op])
  case success.createTable =>
    have log : w.prepareLogFinished = true := by
      rcases h.log with log | ⟨-, op' | op' | ⟨-, other⟩⟩
      · exact log
      · cases op.symm.trans op'
      · cases op.symm.trans op'
      · exact absurd t other
    split at step
    all_goals
      cases step
      exact h.onward _ quiet_nil write rfl (.inl log)
  case success.dropTable | success.truncateTable =>
    subst step
    exact h.onward _ quiet_nil write rfl (.inr ⟨write, .inr (.inl rfl)⟩)
  case success.update =>
    subst step
    exact h.onward _ quiet_nil write rfl (.inr ⟨write, .inl rfl⟩)

theorem Use.Going.acquireAllLock (h : u.Going w) (op : w.op = .acquireAllLock)
    (step : w.afterAcquireAllLock r = some f) : u.Continues f := by
  have write := h.sound.write (by simp [op])
  have log := h.finished (by simp [op]) (by simp [op]) (by simp [op])
  cases r <;> simp only [UpsertTableOp.afterAcquireAllLock, Option.some.injEq, reduceCtorEq] at step
  case error =>
    subst step
    exact h.sound.again (by simp [op])
  case success =>
    subst step
    exact h.onward _ quiet_nil write rfl (.inl log)
  case deadlock =>
    subst step
    refine .of_sound (by simp) ⟨h.sound.opType, h.sound.force, fun _ => ⟨rfl, h.schema.1⟩, ?_⟩
    exact .prepared (u.add_nil.symm ▸ h.schema) (u.add_nil.symm ▸ h.quiet) h.intents rfl (.inl log)

/-- The stage after the commit log is one of a prepared change, past its locks. -/
theorem UpsertTableOp.committedStage_cases (w : UpsertTableOp) (c : StoreConfig) :
    w.committedStage c = .postAllLock ∨ w.committedStage c = .cleanCcm ∨
      w.committedStage c = .upsertKvTable ∧ w.opType ≠ .createTable := by
  cases t : w.opType <;> simp only [committedStage, t]
  case truncateTable => split <;> simp
  all_goals simp

theorem UpsertTableOp.committedStage_prepared (w : UpsertTableOp) (c : StoreConfig) :
    (w.committedStage c).prepared = true := by
  rcases w.committedStage_cases c with stage | stage | ⟨stage, -⟩ <;> rw [stage] <;> rfl

theorem Use.Going.commitLog (h : u.Going w) (op : w.op = .commitLog)
    (step : w.afterCommitLog c r = some f) : u.Continues f := by
  have write := h.sound.write (by simp [op])
  cases r <;> simp only [UpsertTableOp.afterCommitLog, Option.some.injEq, reduceCtorEq] at step
  case error =>
    subst step
    exact h.sound.again (by simp [op])
  case success =>
    subst step
    refine h.onward _ ?_ write (w.committedStage_prepared c) (.inr ⟨write, w.committedStage_cases c⟩)
    simp [Quiet, Event.atEnd]

/-- `PostCommit` on all node groups is followed by the clean log. -/
theorem Use.Sound.posted (h : u.Sound w) (prepared : u.Prepared) (quiet : Quiet u.events)
    (write : w.writeType = .postCommit)
    (ts : u.NewSchema w.commitTs ∨ w.commitTs = txOpFailedTs ∧ u.Rejected) :
    u.Continues ⟨w.goto .cleanLog, [.postCommitted w.commitTs]⟩ := by
  refine .of_sound (by simp [UpsertTableOp.goto])
    ⟨h.opType, h.force, fun e => (by cases write.symm.trans e), ?_⟩
  refine .posted u.events quiet rfl (prepared.add _) rfl ?_
  exact ts.imp (fun schema => schema.add _) (And.imp_right fun rejected => rejected.add _)

theorem Use.Going.postAllLock (h : u.Going w) (op : w.op = .postAllLock)
    (step : w.afterPostAllLock r = some f) : u.Continues f := by
  cases r <;> simp only [UpsertTableOp.afterPostAllLock, h.intents, Nat.lt_irrefl, if_false,
    reduceCtorEq, Option.some.injEq] at step
  case error =>
    subst step
    exact h.sound.again (by simp [op])
  case success =>
    cases write : w.writeType <;> simp only [write, Option.some.injEq] at step
    case postCommit =>
      subst step
      exact h.sound.posted h.schema.prepared h.quiet write (.inl h.schema)
    case downgradeLock =>
      subst step
      have log : w.prepareLogFinished = true := by
        rcases h.log with log | ⟨write', -⟩
        · exact log
        · cases write.symm.trans write'
      refine .of_sound (by simp) ⟨h.sound.opType, h.sound.force, fun e => (by cases e), ?_⟩
      exact .prepared (u.add_nil.symm ▸ h.schema) (u.add_nil.symm ▸ h.quiet) rfl rfl (.inl log)

theorem Use.Going.forward (h : u.Going w) (stage : w.op.prepared = true)
    (permits : w.op = .lockClusterConfig → r = .error → w.prepareLogFinished = false)
    (step : w.forward c r = some f) : u.Continues f := by
  cases op : w.op <;> simp only [UpsertTableOp.forward, op] at step
  case pooled | acquireAllIntent | prepareLog | cleanLog => simp [op, Stage.prepared] at stage
  case lockClusterConfig => exact h.lockClusterConfig op (permits op) step
  case postAllIntent => exact h.postAllIntent op step
  case unlockClusterConfig => exact h.unlockClusterConfig op step
  case upsertKvTable => exact h.upsertKvTable op step
  case sequenceDataLog =>
    have log := h.finished (by simp [op]) (by simp [op]) (by simp [op])
    exact h.retryUntil (by simp [op]) .resetSequenceRecord (h.sound.write (by simp [op])) rfl
      (.inl log) step
  case resetSequenceRecord =>
    have log := h.finished (by simp [op]) (by simp [op]) (by simp [op])
    exact h.retryUntil (by simp [op]) .lockClusterConfig (h.sound.write (by simp [op])) rfl
      (.inl log) step
  case acquireAllLock => exact h.acquireAllLock op step
  case commitLog => exact h.commitLog op step
  case cleanCcm =>
    have write := h.sound.write (by simp [op])
    exact h.retryUntil (by simp [op]) .postAllLock write rfl (.inr ⟨write, .inl rfl⟩) step
  case postAllLock => exact h.postAllLock op step

end

end TxService.UpsertTable
