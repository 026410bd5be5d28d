import TxService.ObjectOutcomes

/-!
# Where buffered commands are kept

The list is part of an entry's lock structure, which is recycled only when it is empty.
-/

namespace TxService

universe u

variable {V : Type u}

namespace ObjectCcEntry

/-- Buffered commands are in the lock structure. -/
def Housed (e : ObjectCcEntry V) : Prop := e.keyLock = none → e.bufferedCmds = []

section
variable {e f : ObjectCcEntry V} {ctx : RequestContext V} {r : ApplyCc V}

theorem Housed.initial : (initial : ObjectCcEntry V).Housed := fun _ => rfl

theorem Housed.of_lock (lock : f.keyLock.isSome = true) : f.Housed := by
  intro nothing
  rw [nothing] at lock
  cases lock

theorem Housed.congr (h : e.Housed) (lock : f.keyLock = e.keyLock)
    (cmds : e.bufferedCmds = [] → f.bufferedCmds = []) : f.Housed := by
  intro nothing
  exact cmds (h (lock ▸ nothing))

theorem Housed.of_entry (h : e.Housed) (entry : f.toObjectEntry = e.toObjectEntry)
    (lock : f.keyLock = e.keyLock) : f.Housed :=
  h.congr lock (by rw [entry]; exact id)

theorem Housed.recycleKeyLock (h : e.Housed) : e.recycleKeyLock.Housed := by
  unfold ObjectCcEntry.recycleKeyLock
  split
  · split
    · rename_i empty
      have nothing := (Bool.and_eq_true_iff.mp empty).2
      intro _
      exact List.isEmpty_iff.mp nothing
    · exact h
  · exact h

theorem Housed.releaseCceLock (h : e.Housed) (txn : TxNumber) (lkType : LockType) :
    (e.releaseCceLock txn lkType).Housed := by
  simp only [ObjectCcEntry.releaseCceLock]
  split
  · split
    · exact .of_lock rfl
    · exact Housed.recycleKeyLock (.of_lock rfl)
  · exact h

theorem Housed.acquireCceKeyLock (h : e.Housed) (ccOp : CcOperation) :
    (e.acquireCceKeyLock r ccOp).2.2.Housed := by
  simp only [ObjectCcEntry.acquireCceKeyLock]
  split
  · exact h
  · split
    · exact h
    · exact .of_lock rfl

theorem Housed.pushBlockRequest (h : e.Housed) (b : BlockedCmd V) : (e.pushBlockRequest b).Housed := by
  unfold ObjectCcEntry.pushBlockRequest
  split
  · exact h.of_entry rfl rfl
  · exact h

theorem LockedOutcome.houses {c : EntryEffect V} (h : LockedOutcome r e c) (now : e.Housed) : EntryEffect.Leaves Housed c := by
  cases h with
  | held dirty => exact .some (now.of_entry dirty.entry dirty.keyLock)
  | unlocked dirty =>
    exact .some ((now.of_entry dirty.entry dirty.keyLock).releaseCceLock _ _)
  | blocked b dirty =>
    exact .some (((now.of_entry dirty.entry dirty.keyLock).pushBlockRequest b).releaseCceLock _ _)
  | retired _ cmds lock _ =>
    exact .some ((now.congr lock (by rw [cmds]; exact id)).releaseCceLock _ _)
  | committed _ cleared lock _ =>
    have released := (now.congr lock fun _ => cleared).releaseCceLock r.req.txn .writeLock
    exact .some (released.of_entry rfl rfl)

theorem ProcessOutcome.houses {c : EntryEffect V} {lock : LockType} (h : ProcessOutcome r lock e c)
    (now : e.Housed) : EntryEffect.Leaves Housed c := by
  cases h with
  | kept dirty => exact .some (now.of_entry dirty.entry dirty.keyLock)
  | released dirty =>
    exact .some ((now.of_entry dirty.entry dirty.keyLock).releaseCceLock _ _)
  | waits dirty =>
    exact .some ((now.of_entry dirty.entry dirty.keyLock).acquireCceKeyLock _)
  | locked _ _ dirty outcome => exact outcome.houses (now.of_entry dirty.entry dirty.keyLock)
  | promoted _ dirty outcome =>
    exact outcome.houses ((now.of_entry dirty.entry dirty.keyLock).acquireCceKeyLock _)

theorem houses_acquireAndProcess (now : e.Housed) (lockOp ccOp : CcOperation) (overrideKvVal : Bool) :
    EntryEffect.Leaves Housed (e.acquireAndProcess ctx r lockOp ccOp overrideKvVal) := by
  have acquired := now.acquireCceKeyLock (r := r) lockOp
  simp only [acquireAndProcess]
  split
  · rename_i got
    rw [got] at acquired
    exact (process_outcome _ _ _).houses acquired
  · rename_i got
    rw [got] at acquired
    exact .some acquired

theorem housed_needFetchKv (now : e.Housed) {ccOp : CcOperation} {found : ObjectCcEntry V}
    {overrideKvVal : Bool} (h : e.needFetchKv ctx r ccOp = some (found, overrideKvVal)) :
    found.Housed := by
  obtain ⟨lock, _, cmds⟩ := needFetchKv_kept h
  exact now.congr lock (by rw [cmds]; exact id)

theorem houses_resume (now : e.Housed) (ccOp : CcOperation) : EntryEffect.Leaves Housed (e.resume ctx r ccOp) := by
  simp only [resume]
  split
  · exact .some now
  · rename_i found overrideKvVal fetched
    have handled : (found.lockHandleForResumedRequest r ccOp).2.2.Housed := by
      simp only [lockHandleForResumedRequest]
      split
      · exact Housed.recycleKeyLock (.of_lock rfl)
      · exact housed_needFetchKv now fetched
    split
    · rename_i got
      rw [got] at handled
      exact (process_outcome _ _ _).houses handled
    · rename_i got
      rw [got] at handled
      exact .some handled

theorem houses_dropExpiredCommands (now : e.Housed) :
    EntryEffect.Leaves Housed e.dropExpiredCommands := by
  obtain ⟨kept, _⟩ | dropped := dropExpiredCommands_cases (e := e)
  · rw [kept]
    exact .some now
  · rw [dropped]
    exact .some (Housed.recycleKeyLock fun _ => rfl)

theorem houses_executeApplyCc (now : e.Housed) (blockType : ApplyBlockType) :
    EntryEffect.Leaves Housed (e.executeApplyCc ctx r blockType) := by
  cases blockType with
  | noBlocking =>
    simp only [executeApplyCc]
    split
    · have aborted : (e.abortBlockRequest r.req.txn).Housed := now.of_entry rfl rfl
      exact .some aborted.recycleKeyLock
    · split
      · exact .some (.of_lock rfl)
      · rename_i found overrideKvVal fetched
        refine (houses_dropExpiredCommands (housed_needFetchKv now fetched)).bind ?_
        intro ready here
        exact houses_acquireAndProcess here _ _ _
  | blockOnRead => exact houses_resume now _
  | blockOnWriteLock => exact houses_resume now _
  | blockOnFetch lockAcquired => exact (process_outcome _ _ _).houses now
  | blockOnCondition => exact houses_acquireAndProcess now _ _ _

theorem ownsWriteLock_isSome {txn : TxNumber} (owner : e.ownsWriteLock txn = true) :
    e.keyLock.isSome = true := by
  cases lock : e.keyLock with
  | none =>
    rw [ownsWriteLock, lock] at owner
    cases owner
  | some l => rfl

theorem houses_executePostWriteCc (now : e.Housed) (txn : TxNumber) (commitTs : Nat) :
    EntryEffect.Leaves Housed (e.executePostWriteCc ctx txn commitTs) := by
  simp only [executePostWriteCc]
  split
  · rename_i owner
    split
    · rintro _ ⟨⟩
    · refine .some (Housed.of_entry (Housed.releaseCceLock ?_ txn .writeLock) rfl rfl)
      exact .of_lock (ownsWriteLock_isSome owner)
  · exact .some now

theorem houses_executeUploadTxCommandsCc (now : e.Housed) (txn : TxNumber) (c : TxnCmd V) :
    EntryEffect.Leaves Housed (e.executeUploadTxCommandsCc txn c) := by
  simp only [executeUploadTxCommandsCc]
  split
  · rename_i owner
    refine .some (Housed.releaseCceLock (.of_lock ?_) txn .writeLock)
    split <;> exact ownsWriteLock_isSome owner
  · exact .some now

theorem housed_prepareForward (now : e.Housed) (ctx : RequestContext V) (m : ForwardRequest V) :
    (e.prepareForward ctx m).Housed := by
  simp only [prepareForward]
  split
  · split
    · exact now.congr rfl (by rw [ObjectEntry.setCommitTsPayloadStatus_bufferedCmds]; exact id)
    · split
      · exact .of_lock rfl
      · exact now
  · exact now

theorem houses_executeStandbyForwardCc (now : e.Housed) (m : ForwardRequest V) :
    EntryEffect.Leaves Housed (e.executeStandbyForwardCc ctx m) := by
  have prepared := housed_prepareForward now ctx m
  simp only [executeStandbyForwardCc]
  split
  · exact .some now
  · split
    · refine .some (prepared.congr rfl ?_)
      rw [ObjectEntry.setCommitTsPayloadStatus_bufferedCmds]
      exact id
    · refine .some ?_
      split
      · exact Housed.recycleKeyLock (.of_lock rfl)
      · exact .of_lock rfl

theorem commitBufferedCommands_nil {e : ObjectEntry V} (ver : Nat) (nothing : e.bufferedCmds = []) :
    (e.commitBufferedCommands ver).bufferedCmds = [] := by
  rw [ObjectEntry.commitBufferedCommands_eq, nothing]
  exact ObjectEntry.setCommitTsPayloadStatus_bufferedCmds _ _ _

theorem houses_executeUploadBatchCc (now : e.Housed) (row : UploadRecord V) :
    EntryEffect.Leaves Housed (e.executeUploadBatchCc row) := by
  simp only [executeUploadBatchCc]
  split
  · exact .some now
  · refine .some (now.congr rfl ?_)
    intro nothing
    apply commitBufferedCommands_nil
    simp [nothing]

theorem Housed.releaseReplayed (h : e.Housed) : e.releaseReplayed.Housed := by
  unfold ObjectCcEntry.releaseReplayed
  split
  · split
    · exact Housed.releaseCceLock (e := { e with dirty := .nonExistent, forwardEntry := none })
        (h.of_entry rfl rfl) _ _
    · exact h
  · exact h

theorem houses_executeReplayLogCc (c : TxnCmd V) :
    EntryEffect.Leaves Housed (e.executeReplayLogCc ctx c) := by
  simp only [executeReplayLogCc]
  split
  · refine .some (Housed.releaseReplayed ?_)
    split
    · exact Housed.recycleKeyLock (.of_lock rfl)
    · exact .of_lock rfl
  · exact .some (.of_lock rfl)

theorem backFill_nil {e : ObjectEntry V} {schemaTs commitTs : Nat} {leader : Bool}
    {status : RecordStatus} {record : Option V} (nothing : e.bufferedCmds = []) :
    (e.backFill schemaTs leader commitTs status record).bufferedCmds = [] := by
  simp only [ObjectEntry.backFill]
  split
  · exact nothing
  · split
    · exact nothing
    · split
      · split
        · rfl
        · apply commitBufferedCommands_nil
          simp [nothing]
      · exact nothing

theorem houses_executeBackFill (now : e.Housed) (commitTs : Nat) (status : RecordStatus)
    (record : Option V) : EntryEffect.Leaves Housed (e.executeBackFill ctx commitTs status record) := by
  have released := now.releaseCceLock ctx.fetchTxn .readIntent
  simp only [executeBackFill]
  split
  · exact .some now
  · split
    · split
      · rintro _ ⟨⟩
      · exact .some released
    · split
      · refine .some ?_
        have filled := released.congr (f := { e.releaseCceLock ctx.fetchTxn .readIntent with
          toObjectEntry := (e.releaseCceLock ctx.fetchTxn .readIntent).backFill ctx.schemaTs ctx.leader
            commitTs status record }) rfl backFill_nil
        split
        · exact filled.recycleKeyLock
        · exact filled
      · exact .some released

theorem houses_visit (now : e.Housed) (visit : EntryVisit V) :
    EntryEffect.Leaves Housed (visit.exec e) := by
  cases visit with
  | applyCc ctx r blockType => exact houses_executeApplyCc now blockType
  | postWriteCc ctx txn commitTs => exact houses_executePostWriteCc now txn commitTs
  | uploadTxCommandsCc txn c => exact houses_executeUploadTxCommandsCc now txn c
  | standbyForwardCc ctx m => exact houses_executeStandbyForwardCc now m
  | uploadBatchCc row => exact houses_executeUploadBatchCc now row
  | replayLogCc ctx c => exact houses_executeReplayLogCc c
  | backFill ctx commitTs status record => exact houses_executeBackFill now commitTs status record
  | clean => rintro _ ⟨⟩

end

end ObjectCcEntry

end TxService
