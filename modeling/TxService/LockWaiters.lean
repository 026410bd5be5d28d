import TxService.LockExclusion

/-!
# No orphaned waiter

Only a release wakes the blocking queue. A request enters it behind a holder or behind another
waiter, and the queue loop stops only at a request that some holder conflicts with.
-/

namespace TxService

open Transition NonBlockingLock

namespace NonBlockingLock

/-- Some lock whose release runs `TryPopBlockingQueue` is held. Read intents are
not among them. -/
def Held (l : NonBlockingLock) : Prop :=
  l.readLocks.Nonempty ∨ 0 < l.readCnt ∨ l.writeLkType ≠ .noWritelock

def Guarded (l : NonBlockingLock) : Prop := l.blockingQueue ≠ [] → l.Held

variable {l : NonBlockingLock} {t : TxNumber}

theorem held_of_writeConflict (h : l.noWriteConflict t = false) : l.Held := by
  refine Or.inr (Or.inr fun free => ?_)
  simp [noWriteConflict, free] at h

theorem held_of_writeLockConflict (h : l.noWriteLockConflict t = false) : l.Held := by
  refine Or.inr (Or.inr fun free => ?_)
  simp [noWriteLockConflict, free] at h

theorem held_of_readLockConflict (h : l.noReadLockConflict t = false) : l.Held := by
  unfold noReadLockConflict at h
  split at h
  · rename_i cnt
    exact Or.inr (Or.inl cnt)
  · exact Or.inl (Finset.nonempty_iff_ne_empty.mpr fun empty => by simp [empty] at h)

/-- A request that cannot be granted conflicts with a holder. -/
theorem held_of_not_grantable {e : LockQueueEntry} (h : l.grantable e = false) : l.Held := by
  unfold grantable at h
  split at h
  · rcases Bool.and_eq_false_iff.mp h with hw | hr
    · exact held_of_writeConflict hw
    · exact held_of_readLockConflict hr
  · exact held_of_writeConflict h
  · exact held_of_writeLockConflict h
  · cases h

/-- Whatever the lock was before, the queue loop leaves no waiter behind a free lock. -/
theorem tryPop_guarded (l : NonBlockingLock) : l.tryPopBlockingQueue.1.Guarded := by
  intro waiting
  obtain ⟨e, rest, hq⟩ := List.exists_cons_of_ne_nil waiting
  exact held_of_not_grantable (popLoop_stuck _ _ hq)

theorem guarded_of_held (h : l.Held) : l.Guarded := fun _ => h

theorem upgradeLock_held (l : NonBlockingLock) (t : TxNumber) {ty : LockType}
    (h : ty = .writeLock ∨ ty = .writeIntent) : (l.upgradeLock t ty).Held := by
  rcases h with rfl | rfl <;> exact Or.inr (Or.inr (by simp [upgradeLock]))

theorem addReadLock_held (l : NonBlockingLock) (t : TxNumber) : (l.addReadLock t).Held :=
  Or.inl (Finset.insert_nonempty _ _)

/-- A reader stopped by the queue alone waits behind the queue's own holder. -/
theorem held_of_queueConflict (h : l.Guarded) (hq : l.noBlockingQueueConflict = false) :
    l.Held := by
  refine h fun empty => ?_
  simp [noBlockingQueueConflict, empty] at hq

theorem acquireLock_guarded (req : CcRequest) (protocol : CcProtocol) (ty : LockType)
    (h : l.Guarded) : (l.acquireLock req protocol ty).2.Guarded := by
  have queued (t : LockType) (held : l.Held) : (l.enqueue req t).Guarded := fun _ => held
  cases ty with
  | noLock => exact h
  | readIntent =>
    simp only [acquireLock, acquireReadIntent]
    split <;> exact h
  | readLock =>
    simp only [acquireLock, acquireReadLock]
    split
    · exact h
    · split
      · exact guarded_of_held (addReadLock_held _ _)
      · rename_i hc
        rcases Bool.and_eq_false_iff.mp (Bool.eq_false_iff.mpr hc) with hw | hq
        · exact queued _ (held_of_writeLockConflict hw)
        · exact queued _ (held_of_queueConflict h hq)
  | writeIntent =>
    simp only [acquireLock, acquireWriteIntent]
    split
    · exact h
    · split
      · exact guarded_of_held (upgradeLock_held _ _ (Or.inr rfl))
      · rename_i hc
        split
        · rcases Bool.and_eq_false_iff.mp (Bool.eq_false_iff.mpr hc) with hw | hq
          · exact queued _ (held_of_writeConflict hw)
          · exact queued _ (h (of_decide_eq_false hq))
        · exact h
  | writeLock =>
    simp only [acquireLock, acquireWriteLock]
    split
    · exact h
    · split
      · exact guarded_of_held (upgradeLock_held _ _ (Or.inl rfl))
      · rename_i hc
        split
        · exact queued _ (held_of_not_grantable (e := ⟨req, .writeLock⟩)
            (Bool.eq_false_iff.mpr hc))
        · exact h

section
variable (u : TxNumber) (h : l.Guarded)
include h

theorem acquireReadLockFast_guarded :
    (l.acquireReadLockFast u).2.Guarded := by
  unfold acquireReadLockFast
  split
  · intro waiting
    rcases h waiting with hr | hc | hw
    · exact Or.inl hr
    · exact Or.inr (Or.inl (by simp only; omega))
    · exact Or.inr (Or.inr hw)
  · exact h

theorem releaseReadLock_guarded :
    (l.releaseReadLock u).2.1.Guarded := by
  unfold releaseReadLock
  split
  · exact tryPop_guarded _
  · exact h

theorem releaseWriteLock_guarded :
    (l.releaseWriteLock u true).2.1.Guarded := by
  unfold releaseWriteLock
  split
  · exact h
  · exact tryPop_guarded _

theorem releaseWriteIntent_guarded :
    (l.releaseWriteIntent u).2.1.Guarded := by
  unfold releaseWriteIntent
  split
  · exact h
  · exact tryPop_guarded _

theorem downgradeWriteLock_guarded :
    (l.downgradeWriteLock u).1.Guarded := by
  unfold downgradeWriteLock
  split
  · exact h
  · exact tryPop_guarded _

theorem clearTx_guarded :
    (l.clearTx u).2.1.Guarded := by
  simp only [clearTx]
  split
  · exact releaseReadLock_guarded u h
  · split
    · exact h
    · split
      · exact tryPop_guarded _
      · exact h

theorem abortQueueRequest_guarded :
    (l.abortQueueRequest u).1.Guarded := by
  intro waiting
  refine h fun empty => waiting ?_
  simp [abortQueueRequest, empty]

end

/-- A holder gives up one of its locks, which wakes the requests. -/
inductive Release (l : NonBlockingLock) : List CcRequest → NonBlockingLock → Prop
  | readLock {t : TxNumber} (held : t ∈ l.readLocks) :
    Release l (l.releaseReadLock t).2.2 (l.releaseReadLock t).2.1
  | readLockFast (held : 0 < l.readCnt) :
    Release l l.releaseReadLockFast.2.2 l.releaseReadLockFast.2.1
  | writeLock {t : TxNumber} (held : l.writeLkType = .writeLock ∧ l.writeTxn = t) :
    Release l (l.releaseWriteLock t true).2.2 (l.releaseWriteLock t true).2.1
  | writeIntent {t : TxNumber} (held : l.writeLkType = .writeIntent ∧ l.writeTxn = t) :
    Release l (l.releaseWriteIntent t).2.2 (l.releaseWriteIntent t).2.1

def holders (l : NonBlockingLock) : Nat :=
  l.readLocks.card + l.readCnt.toNat + if l.writeLkType = .noWritelock then 0 else 1

theorem grant_holders (l : NonBlockingLock) (e : LockQueueEntry) :
    (l.grant e).holders ≤ l.holders + 1 := by
  have erased := Finset.card_le_card (Finset.erase_subset e.req.txn l.readLocks)
  have added := Finset.card_insert_le e.req.txn l.readLocks
  unfold grant holders
  split
  · simp only [upgradeLock, reduceCtorEq, if_false]
    omega
  · simp only [upgradeLock, reduceCtorEq, if_false]
    omega
  · change (insert e.req.txn l.readLocks).card + l.readCnt.toNat +
      (if l.writeLkType = .noWritelock then 0 else 1) ≤ _
    omega
  · exact Nat.le_succ _

/-- A waiter counts twice: it becomes a holder before it is gone. -/
theorem popLoop_holders (q : List LockQueueEntry) (l : NonBlockingLock) :
    2 * (l.popLoop q).1.blockingQueue.length + (l.popLoop q).1.holders ≤
      2 * q.length + l.holders := by
  induction q generalizing l with
  | nil => exact Nat.le_refl _
  | cons e rest ih =>
    simp only [popLoop, List.length_cons]
    split
    · have := ih (l.grant e)
      have := grant_holders l e
      dsimp only
      omega
    · exact Nat.le_refl _

theorem popLoop_in_order (q : List LockQueueEntry) (l : NonBlockingLock) :
    (l.popLoop q).2 ++ (l.popLoop q).1.blockingQueue.map (·.req) = q.map (·.req) := by
  induction q generalizing l with
  | nil => rfl
  | cons e rest ih =>
    simp only [popLoop]
    split
    · exact congrArg (e.req :: ·) (ih (l.grant e))
    · rfl

theorem Release.pops {l l' : NonBlockingLock} {woken : List CcRequest} (h : Release l woken l') :
    ∃ freed : NonBlockingLock, freed.blockingQueue = l.blockingQueue ∧ freed.holders < l.holders ∧
      (l', woken) = freed.tryPopBlockingQueue := by
  have dropped (taken : l.writeLkType ≠ .noWritelock) : l.dropWrite.holders < l.holders := by
    simp [holders, dropWrite, taken]
  cases h with
  | @readLock t held =>
    refine ⟨{ l with readLocks := l.readLocks.erase t }, rfl, ?_, by simp [releaseReadLock, held]⟩
    have := Finset.card_erase_lt_of_mem held
    simp only [holders]
    omega
  | readLockFast held =>
    refine ⟨{ l with readCnt := l.readCnt - 1 }, rfl, ?_, rfl⟩
    simp only [holders]
    omega
  | writeLock held =>
    exact ⟨l.dropWrite, rfl, dropped (by simp [held]), by simp [releaseWriteLock, held]⟩
  | writeIntent held =>
    exact ⟨l.dropWrite, rfl, dropped (by simp [held]), by simp [releaseWriteIntent, held]⟩

end NonBlockingLock

/-- The shard argument of the call is not null. -/
def LockOp.OnShard : LockOp → Prop
  | .releaseWriteLock _ ccs => ccs = true
  | _ => True

namespace LockTable

/-- The states reached by operations of a running shard. -/
def ReachedOnShard : LockTable → Prop :=
  Reachable (· = initial) fun s op t => op.OnShard ∧ Step s op t

theorem ReachedOnShard.exec {s : LockTable} (h : ReachedOnShard s) (op : LockOp)
    (shard : op.OnShard) (enabled : op.Enabled s) : ReachedOnShard (op.exec s) :=
  Reachable.next h ⟨shard, enabled, rfl⟩

theorem step_guarded {s t : LockTable} {op : LockOp} (shard : op.OnShard) (step : Step s op t)
    (h : s.lock.Guarded) : t.lock.Guarded := by
  obtain ⟨enabled, rfl⟩ := step
  cases op with
  | acquireLock req protocol ty => exact acquireLock_guarded req protocol ty h
  | acquireReadLockFast u => exact acquireReadLockFast_guarded u h
  | releaseReadLockFast u => exact tryPop_guarded _
  | releaseReadLock u => exact releaseReadLock_guarded u h
  | releaseWriteLock u ccs =>
    obtain rfl : ccs = true := shard
    exact releaseWriteLock_guarded u h
  | releaseWriteIntent u => exact releaseWriteIntent_guarded u h
  | releaseReadIntent u => exact h
  | downgradeWriteLock u => exact downgradeWriteLock_guarded u h
  | clearTx u => exact clearTx_guarded u h
  | insertBlockingQueue req =>
    have locked : s.lock.writeLkType = .writeLock := enabled
    exact guarded_of_held (Or.inr (Or.inr (by simp [LockOp.exec, insertBlockingQueue, locked])))
  | abortQueueRequest u => exact abortQueueRequest_guarded u h
  | abortAllQueuedRequests => exact fun waiting => absurd rfl waiting

theorem reachedOnShard_guarded {s : LockTable} (h : ReachedOnShard s) :
    Exclusive s ∧ s.lock.Guarded := by
  refine h.invariant (P := fun s => Exclusive s ∧ s.lock.Guarded) ?_ ?_
  · rintro s rfl
    exact ⟨.of_no_writeLock rfl (by simp [reset]), fun waiting => absurd rfl waiting⟩
  · intro s op t step hs
    exact ⟨step_exclusive step.2 hs.1, step_guarded step.1 step.2 hs.2⟩

/-- **No orphaned waiter.** As long as a request waits, some transaction holds a
read lock, an outstanding fast read, the write intent or the write lock. -/
theorem waiter_has_holder {s : LockTable} (h : ReachedOnShard s)
    (waiting : s.lock.blockingQueue ≠ []) :
    ∃ txn, txn ∈ s.lock.readLocks ∨ (0 < s.lock.readCnt ∧ txn ∈ s.fastReaders) ∨
      s.lock.owner = some txn := by
  obtain ⟨excl, guarded⟩ := reachedOnShard_guarded h
  rcases guarded waiting with ⟨r, hr⟩ | cnt | write
  · exact ⟨r, Or.inl hr⟩
  · have length := excl.counted
    obtain ⟨r, hr⟩ := List.exists_mem_of_length_pos (l := s.fastReaders) (by omega)
    exact ⟨r, Or.inr (Or.inl ⟨cnt, hr⟩)⟩
  · exact ⟨s.lock.writeTxn, Or.inr (Or.inr (owner_eq_some.mpr ⟨write, rfl⟩))⟩

/-- Transaction 1 reads and upgrades while 2 waits for the write lock. -/
theorem waiter_has_holder_upgrade :
    let s := (LockOp.acquireLock ⟨1, 1⟩ .locking .writeIntent).exec
      ((LockOp.acquireLock ⟨2, 0⟩ .locking .writeLock).exec
        ((LockOp.acquireLock ⟨1, 0⟩ .locking .readLock).exec initial))
    s.lock.blockingQueue ≠ [] ∧
    ∃ txn, txn ∈ s.lock.readLocks ∨ (0 < s.lock.readCnt ∧ txn ∈ s.fastReaders) ∨
      s.lock.owner = some txn := by
  intro s
  have reading : ReachedOnShard ((LockOp.acquireLock ⟨1, 0⟩ .locking .readLock).exec initial) :=
    ReachedOnShard.exec (.start rfl) (.acquireLock ⟨1, 0⟩ .locking .readLock) trivial trivial
  have queued := reading.exec (.acquireLock ⟨2, 0⟩ .locking .writeLock) trivial trivial
  have reached : ReachedOnShard s :=
    queued.exec (.acquireLock ⟨1, 1⟩ .locking .writeIntent) trivial trivial
  have waiting : s.lock.blockingQueue ≠ [] := by decide
  exact ⟨waiting, waiter_has_holder reached waiting⟩

/-- However the holders give up their locks, the waiters are woken in the order of the queue, there
is an end of it, and once nobody holds a lock all of them have been woken. -/
theorem releases_serve_queue {s : LockTable} (h : ReachedOnShard s)
    {woken : List (List CcRequest)} {l : NonBlockingLock} (run : Run Release s.lock woken l) :
    woken.flatten ++ l.blockingQueue.map (·.req) = s.lock.blockingQueue.map (·.req) ∧
      woken.length ≤ 2 * s.lock.blockingQueue.length + s.lock.holders ∧
      (l.Held ∨ woken.flatten = s.lock.blockingQueue.map (·.req)) := by
  have kept := run.history (P := fun woken l =>
    woken.flatten ++ l.blockingQueue.map (·.req) = s.lock.blockingQueue.map (·.req) ∧
      2 * l.blockingQueue.length + l.holders + woken.length ≤
        2 * s.lock.blockingQueue.length + s.lock.holders ∧ l.Guarded)
    ⟨rfl, Nat.le_refl _, (reachedOnShard_guarded h).2⟩ ?_
  · obtain ⟨order, ends, guarded⟩ := kept
    refine ⟨order, by omega, ?_⟩
    by_cases empty : l.blockingQueue = []
    · right
      simpa [empty] using order
    · exact .inl (guarded empty)
  · rintro woken l now l' release ⟨order, ends, -⟩
    obtain ⟨freed, same, fewer, popped⟩ := release.pops
    obtain ⟨rfl, rfl⟩ := Prod.mk.inj popped
    have first := popLoop_in_order freed.blockingQueue freed
    have less := popLoop_holders freed.blockingQueue freed
    rw [same] at first less
    refine ⟨?_, ?_, tryPop_guarded freed⟩
    · rw [List.flatten_append, List.append_assoc, ← order, ← first]
      simp [same]
    · simp only [List.length_append, List.length_singleton, same]
      omega

/-- Transaction 1 has the write lock; 2 and 3 wait for read locks. -/
theorem releases_serve_queue_handover :
    let s := (LockOp.acquireLock ⟨3, 0⟩ .locking .readLock).exec
      ((LockOp.acquireLock ⟨2, 0⟩ .locking .readLock).exec
        ((LockOp.acquireLock ⟨1, 0⟩ .locking .writeLock).exec initial))
    Release s.lock [⟨2, 0⟩, ⟨3, 0⟩] (s.lock.releaseWriteLock 1 true).2.1 ∧
      [[⟨2, 0⟩, ⟨3, 0⟩]].flatten ++ (s.lock.releaseWriteLock 1 true).2.1.blockingQueue.map (·.req) =
        s.lock.blockingQueue.map (·.req) := by
  intro s
  have locked : ReachedOnShard ((LockOp.acquireLock ⟨1, 0⟩ .locking .writeLock).exec initial) :=
    ReachedOnShard.exec (.start rfl) _ trivial trivial
  have queued := locked.exec (.acquireLock ⟨2, 0⟩ .locking .readLock) trivial trivial
  have reached : ReachedOnShard s :=
    queued.exec (.acquireLock ⟨3, 0⟩ .locking .readLock) trivial trivial
  have release : Release s.lock [⟨2, 0⟩, ⟨3, 0⟩] (s.lock.releaseWriteLock 1 true).2.1 :=
    .writeLock (t := 1) (by decide)
  exact ⟨release, (releases_serve_queue reached (.cons release (.nil _))).1⟩

end LockTable

end TxService
