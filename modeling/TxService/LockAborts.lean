import TxService.LockWaiters

/-!
# Aborting a queued request

Every release runs `TryPopBlockingQueue` and leaves a head that conflicts with a held lock.
`AbortQueueRequest` does not look at the queue again.
-/

namespace TxService

open Transition

namespace NonBlockingLock

/-- The request at the head of the queue fails the test of `TryPopBlockingQueue`. -/
def HeadBlocked (l : NonBlockingLock) : Prop :=
  ∀ e, l.blockingQueue.head? = some e → l.grantable e = false

/-- A lock held by another transaction stands in the way of the request. -/
def Conflicts (l : NonBlockingLock) (e : LockQueueEntry) : Prop :=
  match e.lkType with
  | .writeLock =>
    (∃ u, l.owner = some u ∧ u ≠ e.req.txn) ∨ 0 < l.readCnt ∨ ∃ u ∈ l.readLocks, u ≠ e.req.txn
  | .writeIntent => ∃ u, l.owner = some u ∧ u ≠ e.req.txn
  | .readLock => ∃ u, l.HoldsWriteLock u ∧ u ≠ e.req.txn
  | _ => False

/-- If a request of the transaction heads the queue, then the first request of another
transaction conflicts with a held lock. -/
def AbortSafe (l : NonBlockingLock) (txid : TxNumber) : Prop :=
  ∀ first, l.blockingQueue.head? = some first → first.req.txn = txid →
    ∀ e, l.blockingQueue.find? (fun e => decide (e.req.txn ≠ txid)) = some e → l.Conflicts e

variable {l : NonBlockingLock} {t : TxNumber}

theorem noWriteConflict_eq_false :
    l.noWriteConflict t = false ↔ ∃ u, l.owner = some u ∧ u ≠ t := by
  simp [noWriteConflict, owner_eq_some]

theorem noWriteLockConflict_eq_false :
    l.noWriteLockConflict t = false ↔ ∃ u, l.HoldsWriteLock u ∧ u ≠ t := by
  simp [noWriteLockConflict, HoldsWriteLock]

theorem noReadLockConflict_eq_false :
    l.noReadLockConflict t = false ↔ 0 < l.readCnt ∨ ∃ u ∈ l.readLocks, u ≠ t := by
  have readers : (l.readLocks = ∅ ∨ l.readLocks = {t}) ↔ ∀ u ∈ l.readLocks, u = t := by
    rw [← Finset.subset_singleton_iff, Finset.subset_singleton_iff']
  unfold noReadLockConflict
  split
  · rename_i counted
    simp [counted]
  · rename_i counted
    rw [← Bool.decide_or, decide_eq_false_iff_not, readers]
    simp [counted]

theorem conflicts_iff {e : LockQueueEntry} : l.Conflicts e ↔ l.grantable e = false := by
  obtain ⟨req, lkType⟩ := e
  cases lkType with
  | noLock | readIntent => simp [Conflicts, grantable]
  | readLock => exact noWriteLockConflict_eq_false.symm
  | writeIntent => exact noWriteConflict_eq_false.symm
  | writeLock =>
    simp only [Conflicts, grantable]
    rw [Bool.and_eq_false_iff, noWriteConflict_eq_false, noReadLockConflict_eq_false]

theorem tryPop_headBlocked (l : NonBlockingLock) : l.tryPopBlockingQueue.1.HeadBlocked := by
  intro e head
  obtain ⟨rest, queue⟩ := List.head?_eq_some_iff.mp head
  exact popLoop_stuck _ _ queue

/-- The head keeps its conflicts if the queue keeps its head and no conflicting lock goes. -/
theorem HeadBlocked.mono {l' : NonBlockingLock} (h : l.HeadBlocked)
    (head : l'.blockingQueue.head? = l.blockingQueue.head?)
    (conflicts : ∀ e, l.blockingQueue.head? = some e → l.Conflicts e → l'.Conflicts e) :
    l'.HeadBlocked := by
  intro e first
  rw [head] at first
  exact conflicts_iff.mp (conflicts e first (conflicts_iff.mpr (h e first)))

/-- A request that joins the queue waits behind it, or has a conflict of its own. -/
theorem HeadBlocked.enqueue (h : l.HeadBlocked) (req : CcRequest) (lockType : LockType)
    (alone : l.blockingQueue = [] → l.grantable ⟨req, lockType⟩ = false) :
    (l.enqueue req lockType).HeadBlocked := by
  intro e first
  cases queue : l.blockingQueue with
  | nil =>
    simp only [NonBlockingLock.enqueue, queue, List.nil_append, List.head?_cons,
      Option.some.injEq] at first
    exact first ▸ alone queue
  | cons e' rest => exact h e (by simpa [NonBlockingLock.enqueue, queue] using first)

/-- The write lock passes the queue: its owner now conflicts with the head, and a head of its own
transaction would have been blocked by the same lock. -/
theorem HeadBlocked.upgradeWriteLock (h : l.HeadBlocked)
    (free : (l.noWriteConflict t && l.noReadLockConflict t) = true) :
    (l.upgradeLock t .writeLock).HeadBlocked := by
  refine h.mono rfl fun e _ conflict => ?_
  have owns : (l.upgradeLock t .writeLock).owner = some t := upgradeLock_owner l t (.inl rfl)
  have holds : (l.upgradeLock t .writeLock).HoldsWriteLock t := ⟨rfl, rfl⟩
  obtain ⟨noWriter, noReader⟩ := Bool.and_eq_true_iff.mp free
  by_cases own : e.req.txn = t
  · exfalso
    have noWriteLock : l.noWriteLockConflict t = true := by
      simp only [noWriteConflict, noWriteLockConflict, Bool.or_eq_true, decide_eq_true_eq] at noWriter ⊢
      exact noWriter.imp_left fun free => by simp [free]
    have blocked := conflicts_iff.mp conflict
    unfold grantable at blocked
    rw [own] at blocked
    split at blocked <;> simp_all
  · have other : t ≠ e.req.txn := fun same => own same.symm
    unfold Conflicts at conflict ⊢
    split
    · exact .inl ⟨t, owns, other⟩
    · exact ⟨t, owns, other⟩
    · exact ⟨t, holds, other⟩
    · simp_all

/-- A read passes the queue only if a write intent heads it, and readers do not change what that
one waits for. -/
theorem HeadBlocked.passRead {l' : NonBlockingLock} (h : l.HeadBlocked)
    (passes : l.noBlockingQueueConflict = true) (queue : l'.blockingQueue = l.blockingQueue)
    (owner : l'.owner = l.owner) : l'.HeadBlocked := by
  refine h.mono (by rw [queue]) fun e first conflict => ?_
  obtain ⟨rest, first⟩ := List.head?_eq_some_iff.mp first
  have intent : e.lkType = .writeIntent := by simpa [noBlockingQueueConflict, first] using passes
  simpa only [Conflicts, intent, owner] using conflict

theorem acquireLock_headBlocked (req : CcRequest) (protocol : CcProtocol) (ty : LockType)
    (h : l.HeadBlocked) : (l.acquireLock req protocol ty).2.HeadBlocked := by
  cases ty with
  | noLock => exact h
  | readIntent =>
    simp only [acquireLock, acquireReadIntent]
    split <;> exact h
  | readLock =>
    simp only [acquireLock, acquireReadLock]
    split
    · exact h
    · split
      · rename_i free
        exact h.passRead (Bool.and_eq_true_iff.mp free).2 rfl rfl
      · rename_i conflict
        refine h.enqueue _ _ fun empty => ?_
        simpa [noBlockingQueueConflict, empty, grantable] using conflict
  | writeIntent =>
    simp only [acquireLock, acquireWriteIntent]
    split
    · exact h
    · split
      · rename_i free
        have empty : l.blockingQueue = [] := of_decide_eq_true (Bool.and_eq_true_iff.mp free).2
        intro e first
        simp [upgradeLock, empty] at first
      · rename_i conflict
        split
        · refine h.enqueue _ _ fun empty => ?_
          simpa [empty, grantable] using conflict
        · exact h
  | writeLock =>
    simp only [acquireLock, acquireWriteLock]
    split
    · exact h
    · split
      · rename_i free
        exact h.upgradeWriteLock free
      · rename_i conflict
        split
        · exact h.enqueue _ _ fun _ => Bool.eq_false_iff.mpr conflict
        · exact h

theorem releaseReadLock_headBlocked (u : TxNumber) (h : l.HeadBlocked) :
    (l.releaseReadLock u).2.1.HeadBlocked := by
  unfold releaseReadLock
  split
  · exact tryPop_headBlocked _
  · exact h

theorem clearTx_headBlocked (u : TxNumber) (h : l.HeadBlocked) :
    (l.clearTx u).2.1.HeadBlocked := by
  simp only [clearTx]
  split
  · exact releaseReadLock_headBlocked u h
  · split
    · exact h
    · split
      · exact tryPop_headBlocked _
      · exact h

theorem abortQueueRequest_head (txid : TxNumber) :
    (l.abortQueueRequest txid).1.blockingQueue.head? =
      l.blockingQueue.find? fun e => decide (e.req.txn ≠ txid) :=
  List.head?_filter

theorem abortQueueRequest_headBlocked_iff (h : l.HeadBlocked) (txid : TxNumber) :
    (l.abortQueueRequest txid).1.HeadBlocked ↔ l.AbortSafe txid := by
  constructor
  · intro blocked first _ _ e found
    exact conflicts_iff.mpr (blocked e ((abortQueueRequest_head txid).trans found))
  · intro safe e head
    have found := (abortQueueRequest_head txid).symm.trans head
    cases queue : l.blockingQueue with
    | nil => simp [queue] at found
    | cons first rest =>
      by_cases own : first.req.txn = txid
      · exact conflicts_iff.mp (safe first (by simp [queue]) own e found)
      · obtain rfl : first = e := by simpa [queue, own] using found
        exact h first (by simp [queue])

end NonBlockingLock

open NonBlockingLock

/-- A snapshot read waits for the write lock of another transaction, as its caller asserts, and an
abort does not remove the only obstacle of the next request. -/
def LockOp.Careful (s : LockTable) : LockOp → Prop
  | .insertBlockingQueue req => s.lock.writeTxn ≠ req.txn
  | .abortQueueRequest txn => s.lock.AbortSafe txn
  | _ => True

namespace LockTable

def ReachedCarefully : LockTable → Prop :=
  Reachable (· = initial) fun s op t => op.OnShard ∧ op.Careful s ∧ Step s op t

theorem ReachedCarefully.exec {s : LockTable} (h : ReachedCarefully s) (op : LockOp)
    (shard : op.OnShard) (careful : op.Careful s) (enabled : op.Enabled s) :
    ReachedCarefully (op.exec s) :=
  Reachable.next h ⟨shard, careful, enabled, rfl⟩

theorem step_headBlocked {s t : LockTable} {op : LockOp} (shard : op.OnShard)
    (careful : op.Careful s) (step : Step s op t) (h : s.lock.HeadBlocked) :
    t.lock.HeadBlocked := by
  obtain ⟨enabled, rfl⟩ := step
  cases op with
  | acquireLock req protocol ty => exact acquireLock_headBlocked req protocol ty h
  | acquireReadLockFast u =>
    simp only [LockOp.exec, acquireReadLockFast]
    split
    · rename_i free
      exact h.passRead (Bool.and_eq_true_iff.mp free).2 rfl rfl
    · exact h
  | releaseReadLockFast u => exact tryPop_headBlocked _
  | releaseReadLock u => exact releaseReadLock_headBlocked u h
  | releaseWriteLock u ccs =>
    obtain rfl : ccs = true := shard
    simp only [LockOp.exec, releaseWriteLock]
    split
    · exact h
    · exact tryPop_headBlocked _
  | releaseWriteIntent u =>
    simp only [LockOp.exec, releaseWriteIntent]
    split
    · exact h
    · exact tryPop_headBlocked _
  | releaseReadIntent u => exact h
  | downgradeWriteLock u =>
    simp only [LockOp.exec, downgradeWriteLock]
    split
    · exact h
    · exact tryPop_headBlocked _
  | clearTx u => exact clearTx_headBlocked u h
  | insertBlockingQueue req =>
    have locked : s.lock.writeLkType = .writeLock := enabled
    have other : s.lock.writeTxn ≠ req.txn := careful
    intro e first
    obtain rfl : ⟨req, .readLock⟩ = e := by simpa [LockOp.exec, insertBlockingQueue] using first
    exact conflicts_iff.mp ⟨s.lock.writeTxn, ⟨locked, rfl⟩, other⟩
  | abortQueueRequest u => exact (abortQueueRequest_headBlocked_iff h u).mpr careful
  | abortAllQueuedRequests =>
    intro e first
    cases first

theorem reachedCarefully_headBlocked {s : LockTable} (h : ReachedCarefully s) :
    s.lock.HeadBlocked := by
  refine h.invariant (P := fun s => s.lock.HeadBlocked) ?_ ?_
  · rintro s rfl e first
    cases first
  · rintro s op t ⟨shard, careful, step⟩ blocked
    exact step_headBlocked shard careful step blocked

/-- **An abort wakes whom it blocked, if there is nobody to wake.** The head of the queue always
conflicts with a held lock, and it does so after an abort exactly if the aborted transaction was
not the only obstacle of the request behind it. -/
theorem abort_headBlocked_iff {s : LockTable} (h : ReachedCarefully s) (txid : TxNumber) :
    s.lock.HeadBlocked ∧
      ((s.lock.abortQueueRequest txid).1.HeadBlocked ↔ s.lock.AbortSafe txid) :=
  ⟨reachedCarefully_headBlocked h,
    abortQueueRequest_headBlocked_iff (reachedCarefully_headBlocked h) txid⟩

/-- Transaction 1 reads while 2 and then 3 wait for the write lock; 2 is aborted. -/
theorem abort_headBlocked_iff_second_writer :
    let s := (LockOp.acquireLock ⟨3, 0⟩ .locking .writeLock).exec
      ((LockOp.acquireLock ⟨2, 0⟩ .locking .writeLock).exec
        ((LockOp.acquireLock ⟨1, 0⟩ .locking .readLock).exec initial))
    (s.lock.abortQueueRequest 2).1.blockingQueue = [⟨⟨3, 0⟩, .writeLock⟩] ∧
      (s.lock.abortQueueRequest 2).1.HeadBlocked := by
  intro s
  have reading := ReachedCarefully.exec (.start rfl)
    (.acquireLock ⟨1, 0⟩ .locking .readLock) trivial trivial trivial
  have queued := reading.exec (.acquireLock ⟨2, 0⟩ .locking .writeLock) trivial trivial trivial
  have reached : ReachedCarefully s :=
    queued.exec (.acquireLock ⟨3, 0⟩ .locking .writeLock) trivial trivial trivial
  have safe : s.lock.AbortSafe 2 := by
    intro first _ _ e found
    obtain rfl : ⟨⟨3, 0⟩, .writeLock⟩ = e := Option.some.inj found
    exact conflicts_iff.mpr (by decide)
  exact ⟨by decide, (abort_headBlocked_iff reached 2).2.mpr safe⟩

/-- Transaction 1 reads, 2 waits for the write lock and 3 for a read lock behind it. Once 2 is
aborted nothing stands in the way of 3, and 3 goes on waiting. -/
theorem aborted_writer_leaves_reader_waiting :
    let s := (LockOp.acquireLock ⟨3, 0⟩ .locking .readLock).exec
      ((LockOp.acquireLock ⟨2, 0⟩ .locking .writeLock).exec
        ((LockOp.acquireLock ⟨1, 0⟩ .locking .readLock).exec initial))
    ReachedOnShard s ∧ (s.lock.abortQueueRequest 2).1.blockingQueue = [⟨⟨3, 0⟩, .readLock⟩] ∧
      (s.lock.abortQueueRequest 2).1.grantable ⟨⟨3, 0⟩, .readLock⟩ = true ∧
      ¬ (s.lock.abortQueueRequest 2).1.HeadBlocked := by
  intro s
  have reading := ReachedOnShard.exec (.start rfl)
    (.acquireLock ⟨1, 0⟩ .locking .readLock) trivial trivial
  have queued := reading.exec (.acquireLock ⟨2, 0⟩ .locking .writeLock) trivial trivial
  have waits : (s.lock.abortQueueRequest 2).1.grantable ⟨⟨3, 0⟩, .readLock⟩ = true := by decide
  refine ⟨queued.exec (.acquireLock ⟨3, 0⟩ .locking .readLock) trivial trivial, by decide, waits, ?_⟩
  intro blocked
  exact Bool.noConfusion (waits.symm.trans (blocked ⟨⟨3, 0⟩, .readLock⟩ (by decide)))

end LockTable

end TxService
