import TxService.ObjectOutcomes

/-!
# Recycling of lock structures

An entry with a lock structure is not evicted, so the structure must be recycled once it has no
holder, no waiter, no blocked command and no buffered command.
-/

namespace TxService

universe u v w

namespace NonBlockingLock

variable {l : NonBlockingLock}

/-- The lock has a holder or a waiter. -/
def Busy (l : NonBlockingLock) : Prop :=
  l.readIntentions ≠ ∅ ∨ l.readLocks ≠ ∅ ∨ l.readCnt ≠ 0 ∨ l.writeLkType ≠ .noWritelock ∨
    l.blockingQueue ≠ []

theorem isEmpty_eq_false : l.isEmpty = false ↔ l.Busy := by
  unfold isEmpty Busy
  simp only [Bool.and_eq_false_iff, decide_eq_false_iff_not]
  tauto

theorem busy_of_write (h : l.writeLkType ≠ .noWritelock) : l.Busy := .inr (.inr (.inr (.inl h)))

theorem busy_enqueue (req : CcRequest) (lockType : LockType) : (l.enqueue req lockType).Busy := by
  refine .inr (.inr (.inr (.inr ?_)))
  simp [enqueue]

variable {txn : TxNumber}

theorem busy_of_writeConflict (h : l.noWriteConflict txn = false) : l.Busy := by
  simp only [noWriteConflict, Bool.or_eq_false_iff, decide_eq_false_iff_not] at h
  exact busy_of_write h.1

theorem busy_of_readLockConflict (h : l.noReadLockConflict txn = false) : l.Busy := by
  unfold noReadLockConflict at h
  split at h
  · rename_i readers
    exact .inr (.inr (.inl (by omega)))
  · simp only [Bool.or_eq_false_iff, decide_eq_false_iff_not] at h
    exact .inr (.inl h.1)

theorem acquireReadIntent_busy (txn : TxNumber) : (l.acquireReadIntent txn).2.Busy := by
  unfold acquireReadIntent
  split
  · rename_i held
    obtain lock | intent | write := held
    · exact .inr (.inl (Finset.ne_empty_of_mem lock))
    · exact .inl (Finset.ne_empty_of_mem intent)
    · exact busy_of_write write.1
  · exact .inl (Finset.insert_ne_empty _ _)

theorem acquireReadLock_busy (req : CcRequest) : (l.acquireReadLock req).2.Busy := by
  unfold acquireReadLock
  split
  · rename_i held
    obtain lock | write := held
    · exact .inr (.inl (Finset.ne_empty_of_mem lock))
    · exact busy_of_write write.1
  · split
    · exact .inr (.inl (Finset.insert_ne_empty _ _))
    · exact busy_enqueue req .readLock

theorem acquireWriteIntent_busy (req : CcRequest) (protocol : CcProtocol) :
    (l.acquireWriteIntent req protocol).2.Busy := by
  unfold acquireWriteIntent
  split
  · rename_i held
    exact busy_of_write held.1
  · split
    · exact busy_of_write (by simp [upgradeLock])
    · rename_i conflict
      split
      · exact busy_enqueue req .writeIntent
      · cases writer : l.noWriteConflict req.txn with
        | false => exact busy_of_writeConflict writer
        | true => exact .inr (.inr (.inr (.inr (by simpa [writer] using conflict))))

theorem acquireWriteLock_busy (req : CcRequest) (protocol : CcProtocol) :
    (l.acquireWriteLock req protocol).2.Busy := by
  unfold acquireWriteLock
  split
  · rename_i held
    exact busy_of_write (by rw [held.1]; decide)
  · split
    · exact busy_of_write (by simp [upgradeLock])
    · rename_i conflict
      split
      · exact busy_enqueue req .writeLock
      · cases writer : l.noWriteConflict req.txn with
        | false => exact busy_of_writeConflict writer
        | true => exact busy_of_readLockConflict (by simpa [writer] using conflict)

/-- Whether the lock is granted or not, it is not empty afterwards. -/
theorem acquireLock_busy (req : CcRequest) (protocol : CcProtocol) {lockType : LockType}
    (locks : lockType ≠ .noLock) : (l.acquireLock req protocol lockType).2.Busy := by
  cases lockType with
  | noLock => exact absurd rfl locks
  | readIntent => exact acquireReadIntent_busy req.txn
  | readLock => exact acquireReadLock_busy req
  | writeIntent => exact acquireWriteIntent_busy req protocol
  | writeLock => exact acquireWriteLock_busy req protocol

theorem clearTx_noLock (h : (l.clearTx txn).1 = .noLock) : (l.clearTx txn).2.1 = l := by
  simp only [clearTx] at h ⊢
  split at h
  · cases h
  · rename_i reads
    rw [if_neg reads]
    split at h
    · cases h
    · rename_i intends
      rw [if_neg intends]
      split at h
      · simp only at h
        split at h <;> cases h
      · rename_i writes
        rw [if_neg writes]

theorem unlock_noLock {lkType : LockType} (h : (l.unlock txn lkType).1 = .noLock) :
    (l.unlock txn lkType).2.1 = l := by
  cases lkType with
  | noLock | writeIntent => exact clearTx_noLock h
  | readIntent =>
    by_cases held : txn ∈ l.readIntentions
    · simp [unlock, releaseReadIntent, held] at h
    · simp [unlock, releaseReadIntent, Finset.erase_eq_of_notMem held]
  | readLock =>
    by_cases held : txn ∈ l.readLocks
    · simp [unlock, releaseReadLock, held] at h
    · simp [unlock, releaseReadLock, held]
  | writeLock =>
    by_cases held : l.writeLkType ≠ .writeLock ∨ l.writeTxn ≠ txn
    · simp only [unlock, releaseWriteLock, if_pos held]
    · simp [unlock, releaseWriteLock, if_neg held] at h

end NonBlockingLock

variable {V : Type u}

namespace ObjectCcEntry

/-- A lock structure is there only if something is in it. -/
def Tidy (e : ObjectCcEntry V) : Prop := ∀ lock, e.keyLock = some lock → e.isEmpty lock = false

/-- The lock of the entry has a holder or a waiter. -/
def Locked (e : ObjectCcEntry V) : Prop := ∃ lock, e.keyLock = some lock ∧ lock.isEmpty = false

/-- Nothing is pending: the lock has no holder or waiter, and no command is blocked or buffered. -/
def Idle (e : ObjectCcEntry V) : Prop :=
  (∀ lock, e.keyLock = some lock → lock.isEmpty = true) ∧ e.queueBlockCmds = [] ∧ e.bufferedCmds = []

section
variable {e f : ObjectCcEntry V} {ctx : RequestContext V} {r : ApplyCc V}

theorem isEmpty_eq_false {lock : NonBlockingLock} :
    e.isEmpty lock = false ↔
      lock.isEmpty = false ∨ e.queueBlockCmds ≠ [] ∨ e.bufferedCmds ≠ [] := by
  simp only [isEmpty, Bool.and_eq_false_iff, or_assoc, List.isEmpty_eq_false_iff, ne_eq]

theorem Tidy.initial : (initial : ObjectCcEntry V).Tidy := by
  intro lock nothing
  cases nothing

theorem Idle.isFree (idle : e.Idle) (tidy : e.Tidy) : e.isFree true = true := by
  obtain ⟨released, queue, cmds⟩ := idle
  cases found : e.keyLock with
  | none =>
    rw [ObjectCcEntry.isFree, found]
    rfl
  | some lock =>
    obtain busy | blocked | waiting := isEmpty_eq_false.mp (tidy lock found)
    · rw [released lock found] at busy
      cases busy
    · exact absurd queue blocked
    · exact absurd cmds waiting

theorem Locked.tidy (h : e.Locked) : e.Tidy := by
  obtain ⟨lock, found, busy⟩ := h
  intro other there
  rw [found] at there
  cases there
  exact isEmpty_eq_false.mpr (.inl busy)

theorem Locked.congr (h : e.Locked) (same : f.keyLock = e.keyLock) : f.Locked := by
  obtain ⟨lock, found, busy⟩ := h
  exact ⟨lock, same.trans found, busy⟩

theorem Tidy.congr (h : e.Tidy) (same : f.keyLock = e.keyLock)
    (queue : f.queueBlockCmds = e.queueBlockCmds)
    (cmds : f.bufferedCmds = [] → e.bufferedCmds = []) : f.Tidy := by
  intro lock found
  have before := isEmpty_eq_false.mp (h lock (same ▸ found))
  refine isEmpty_eq_false.mpr (before.imp id (Or.imp ?_ ?_))
  · rw [queue]
    exact id
  · exact mt cmds

theorem OnlyDirty.tidy {left : ObjectCcEntry V} (dirty : OnlyDirty e left) (h : e.Tidy) : left.Tidy :=
  h.congr dirty.keyLock dirty.queue (by rw [dirty.entry]; exact id)

theorem tidy_of_bufferedCmds (waiting : e.bufferedCmds ≠ []) : e.Tidy :=
  fun _ _ => isEmpty_eq_false.mpr (.inr (.inr waiting))

theorem locked_setKeyLock {lock : NonBlockingLock} (busy : lock.Busy) : (e.setKeyLock lock).Locked :=
  ⟨lock, rfl, NonBlockingLock.isEmpty_eq_false.mpr busy⟩

theorem recycleKeyLock_tidy : e.recycleKeyLock.Tidy := by
  intro lock found
  cases there : e.keyLock with
  | none =>
    simp only [recycleKeyLock, there] at found
    cases found
  | some before =>
    by_cases empty : e.isEmpty before = true
    · simp only [recycleKeyLock, there, if_pos empty] at found
      cases found
    · simp only [recycleKeyLock, there, if_neg empty] at found ⊢
      cases found
      exact Bool.not_eq_true _ ▸ empty

theorem Tidy.releaseCceLock (h : e.Tidy) (txn : TxNumber) (lkType : LockType) :
    (e.releaseCceLock txn lkType).Tidy := by
  simp only [ObjectCcEntry.releaseCceLock]
  split
  · rename_i lock found
    split
    · rename_i nothing
      have same := NonBlockingLock.unlock_noLock nothing
      rw [if_neg (by rw [nothing]; decide), same]
      exact h.congr (e := e) found.symm rfl id
    · exact recycleKeyLock_tidy
  · exact h

theorem acquireFetchIntent_locked (txn : TxNumber) : (e.acquireFetchIntent txn).Locked :=
  locked_setKeyLock (NonBlockingLock.acquireReadIntent_busy txn)

/-- A request that got a lock, or waits for it, is in it. -/
theorem acquireCceKeyLock_cases (ccOp : CcOperation) :
    (e.acquireCceKeyLock r ccOp).2.2 = e ∧ (e.acquireCceKeyLock r ccOp).2.1 = .noLock ∨
      (e.acquireCceKeyLock r ccOp).2.2.Locked := by
  simp only [acquireCceKeyLock]
  split
  · exact .inl ⟨rfl, rfl⟩
  · split
    · exact .inl ⟨rfl, rfl⟩
    · rename_i waiting
      exact .inr (locked_setKeyLock (NonBlockingLock.acquireLock_busy r.req r.protocol waiting))

theorem acquireWrite_locked : (e.acquireCceKeyLock r .write).2.2.Locked := by
  refine (acquireCceKeyLock_cases (e := e) (r := r) .write).resolve_left ?_
  rintro ⟨_, nothing⟩
  simp [acquireCceKeyLock, deduceLockType] at nothing

theorem acquireCceKeyLock_queue (ccOp : CcOperation) :
    (e.acquireCceKeyLock r ccOp).2.2.queueBlockCmds = e.queueBlockCmds := by
  simp only [acquireCceKeyLock]
  split
  · rfl
  · split <;> rfl

theorem Tidy.acquireCceKeyLock (h : e.Tidy) (ccOp : CcOperation) :
    (e.acquireCceKeyLock r ccOp).2.2.Tidy := by
  obtain ⟨same, _⟩ | locked := acquireCceKeyLock_cases (e := e) (r := r) ccOp
  · rwa [same]
  · exact locked.tidy

/-- Unless it is the only one, another blocked command stays when one is woken. -/
theorem Tidy.popBlockRequest (h : e.Tidy) (others : e.queueBlockCmds.length ≠ 1) :
    e.popBlockRequest.Tidy := by
  intro lock found
  obtain busy | queue | waiting := isEmpty_eq_false.mp (h lock found)
  · exact isEmpty_eq_false.mpr (.inl busy)
  · refine isEmpty_eq_false.mpr (.inr (.inl ?_))
    have most := List.le_length_eraseP (l := e.queueBlockCmds)
      (p := fun b => b.ablePopBlockRequest e.curPayload)
    have several : 0 < e.queueBlockCmds.length := List.length_pos_iff.mpr queue
    exact List.length_pos_iff.mp (by simp only [ObjectCcEntry.popBlockRequest]; omega)
  · exact isEmpty_eq_false.mpr (.inr (.inr waiting))

theorem recycleKeyLock_queue : e.recycleKeyLock.queueBlockCmds = e.queueBlockCmds := by
  unfold recycleKeyLock
  split
  · split <;> rfl
  · rfl

theorem releaseCceLock_queue (txn : TxNumber) (lkType : LockType) :
    (e.releaseCceLock txn lkType).queueBlockCmds = e.queueBlockCmds := by
  simp only [releaseCceLock]
  split
  · split
    · rfl
    · rw [recycleKeyLock_queue]
      rfl
  · rfl

theorem LockedOutcome.tidy {c : EntryEffect V} (h : LockedOutcome r e c) (locked : e.Locked)
    (others : r.applyAndCommit = true → e.queueBlockCmds.length ≠ 1) : EntryEffect.Leaves Tidy c := by
  cases h with
  | held dirty => exact .some (dirty.tidy locked.tidy)
  | unlocked dirty => exact .some ((dirty.tidy locked.tidy).releaseCceLock _ _)
  | @blocked left b dirty =>
    have pushed : (left.pushBlockRequest b).Locked := by
      refine (locked.congr dirty.keyLock).congr ?_
      unfold pushBlockRequest
      split <;> rfl
    exact .some (pushed.tidy.releaseCceLock _ _)
  | retired _ _ lock _ => exact .some ((locked.congr lock).tidy.releaseCceLock _ _)
  | committed commit _ lock queue =>
    refine .some (((locked.congr lock).tidy.releaseCceLock _ _).popBlockRequest ?_)
    rw [releaseCceLock_queue, queue]
    exact others commit

theorem ProcessOutcome.tidy {c : EntryEffect V} {lock : LockType} (h : ProcessOutcome r lock e c)
    (now : e.Tidy) (owner : lock = .writeLock → e.Locked)
    (others : r.applyAndCommit = true → r.isReadOnly = false → e.queueBlockCmds.length ≠ 1) :
    EntryEffect.Leaves Tidy c := by
  cases h with
  | kept dirty => exact .some (dirty.tidy now)
  | released dirty => exact .some ((dirty.tidy now).releaseCceLock _ _)
  | waits dirty => exact .some acquireWrite_locked.tidy
  | locked writes granted dirty outcome =>
    refine outcome.tidy ((owner granted).congr dirty.keyLock) ?_
    intro commit
    rw [dirty.queue]
    exact others commit writes
  | promoted writes dirty outcome =>
    refine outcome.tidy acquireWrite_locked ?_
    intro commit
    rw [acquireCceKeyLock_queue, dirty.queue]
    exact others commit writes

theorem dropExpiredCommands_tidy (now : e.Tidy) :
    EntryEffect.Leaves (fun f => f.Tidy ∧ f.queueBlockCmds = e.queueBlockCmds) e.dropExpiredCommands := by
  obtain ⟨kept, _⟩ | dropped := dropExpiredCommands_cases (e := e)
  · rw [kept]
    exact .some ⟨now, rfl⟩
  · rw [dropped]
    exact .some ⟨recycleKeyLock_tidy, recycleKeyLock_queue⟩

theorem locked_of_owner {txn : TxNumber} (owner : e.ownsWriteLock txn = true) : e.Locked := by
  cases found : e.keyLock with
  | none =>
    rw [ownsWriteLock, found] at owner
    cases owner
  | some lock =>
    rw [ownsWriteLock, found] at owner
    have write := (Bool.and_eq_true_iff.mp owner).1
    refine ⟨lock, found, NonBlockingLock.isEmpty_eq_false.mpr (NonBlockingLock.busy_of_write ?_)⟩
    rw [of_decide_eq_true write]
    decide

theorem lockHandle_cases (ccOp : CcOperation) :
    e.lockHandleForResumedRequest r ccOp =
        (.successful, deduceLockType ccOp r.isolation r.protocol false, e) ∨
      ∃ left : ObjectCcEntry V,
        e.lockHandleForResumedRequest r ccOp = (.failed, .noLock, left.recycleKeyLock) := by
  simp only [lockHandleForResumedRequest]
  split
  · exact .inr ⟨_, rfl⟩
  · exact .inl rfl

theorem deduceLockType_writeLock {ccOp : CcOperation} {isoLevel : IsolationLevel}
    {protocol : CcProtocol} {covering : Bool}
    (h : deduceLockType ccOp isoLevel protocol covering = .writeLock) : ccOp = .write := by
  cases ccOp with
  | write => rfl
  | readForWrite => cases h
  | readSkIndex =>
    simp only [deduceLockType] at h
    split at h <;> cases h
  | read =>
    simp only [deduceLockType] at h
    split at h
    · cases h
    · cases h
    · split at h <;> cases h
    · split at h <;> cases h

section
variable (others : r.applyAndCommit = true → r.isReadOnly = false → e.queueBlockCmds.length ≠ 1)
include others

theorem acquireAndProcess_tidy (now : e.Tidy) (lockOp ccOp : CcOperation) (overrideKvVal : Bool) :
    EntryEffect.Leaves Tidy (e.acquireAndProcess ctx r lockOp ccOp overrideKvVal) := by
  have tidy := now.acquireCceKeyLock (r := r) lockOp
  have queue := acquireCceKeyLock_queue (e := e) (r := r) lockOp
  have acquired := acquireCceKeyLock_cases (e := e) (r := r) lockOp
  simp only [acquireAndProcess]
  split
  · rename_i lock locked got
    rw [got] at tidy queue acquired
    refine (process_outcome _ _ _).tidy tidy ?_ ?_
    · intro granted
      refine acquired.resolve_left ?_
      rintro ⟨_, nothing⟩
      rw [granted] at nothing
      cases nothing
    · rw [queue]
      exact others
  · rename_i got
    rw [got] at tidy
    exact .some tidy

theorem resume_tidy (now : e.Tidy) (ccOp : CcOperation) (owner : ccOp = .write → e.Locked) :
    EntryEffect.Leaves Tidy (e.resume ctx r ccOp) := by
  simp only [resume]
  split
  · exact .some now
  · rename_i found overrideKvVal fetched
    obtain ⟨lock, queue, cmds⟩ := needFetchKv_kept fetched
    have tidy : found.Tidy := now.congr lock queue (by rw [cmds]; exact id)
    obtain success | ⟨left, failed⟩ := lockHandle_cases (e := found) (r := r) ccOp
    · simp only [success]
      refine (process_outcome _ _ _).tidy tidy ?_ (by rw [queue]; exact others)
      intro write
      exact (owner (deduceLockType_writeLock write)).congr lock
    · simp only [failed]
      exact .some recycleKeyLock_tidy

/-- A command that waited for the write lock has it. -/
theorem executeApplyCc_tidy (now : e.Tidy) (blockType : ApplyBlockType)
    (enabled : (EntryVisit.applyCc ctx r blockType).Enabled e) :
    EntryEffect.Leaves Tidy (e.executeApplyCc ctx r blockType) := by
  cases blockType with
  | noBlocking =>
    simp only [executeApplyCc]
    split
    · exact .some recycleKeyLock_tidy
    · split
      · exact .some (acquireFetchIntent_locked _).tidy
      · rename_i found overrideKvVal fetched
        obtain ⟨lock, queue, cmds⟩ := needFetchKv_kept fetched
        have tidy : found.Tidy := now.congr lock queue (by rw [cmds]; exact id)
        refine (dropExpiredCommands_tidy tidy).bind ?_
        rintro ready ⟨tidy, same⟩
        exact acquireAndProcess_tidy (by rw [same, queue]; exact others) tidy _ _ _
  | blockOnRead =>
    refine resume_tidy others now _ ?_
    intro write
    simp only [firstOp] at write
    split at write <;> cases write
  | blockOnWriteLock => exact resume_tidy others now _ fun _ => locked_of_owner enabled
  | blockOnFetch lockAcquired =>
    refine (process_outcome _ _ _).tidy now ?_ others
    rintro rfl
    exact locked_of_owner enabled
  | blockOnCondition => exact acquireAndProcess_tidy others now _ _ _

end

end

end ObjectCcEntry

end TxService
