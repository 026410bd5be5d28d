import TxService.LockTable

/-!
# Mutual exclusion of the lock table

`doc/lock.md`: a write lock conflicts with every lock of another transaction, a write intent with
the write lock and write intent of another.
-/

namespace TxService

open Transition NonBlockingLock

namespace LockTable

/-- No read lock and no fast read of a transaction other than the write lock's
holder, and the counter counts exactly the outstanding fast reads. -/
structure Exclusive (s : LockTable) : Prop where
  counted : s.lock.readCnt = s.fastReaders.length
  readers : ∀ txn, s.lock.HoldsWriteLock txn → ∀ r ∈ s.lock.readLocks, r = txn
  fastReaders : ∀ txn, s.lock.HoldsWriteLock txn → ∀ r ∈ s.fastReaders, r = txn

variable {l : NonBlockingLock} {fast : List TxNumber} {t : TxNumber} {s : LockTable}

theorem Exclusive.of_no_writeLock (counted : l.readCnt = fast.length)
    (h : l.writeLkType ≠ .writeLock) :
    Exclusive ⟨l, fast⟩ :=
  ⟨counted, fun _ ht => absurd ht.1 h, fun _ ht => absurd ht.1 h⟩

/-- Losing read locks and changing the rest of the lock keeps the invariant. -/
theorem Exclusive.shrink {l l' : NonBlockingLock} (h : Exclusive ⟨l, fast⟩)
    (cnt : l'.readCnt = l.readCnt) (ty : l'.writeLkType = l.writeLkType)
    (txn : l'.writeTxn = l.writeTxn) (sub : l'.readLocks ⊆ l.readLocks) : Exclusive ⟨l', fast⟩ := by
  have holds {t : TxNumber} (ht : l'.HoldsWriteLock t) : l.HoldsWriteLock t := by
    rwa [HoldsWriteLock, ty, txn] at ht
  refine ⟨cnt.trans h.counted, ?_, ?_⟩
  · intro t ht r hr
    exact h.readers t (holds ht) r (sub hr)
  · intro t ht
    exact h.fastReaders t (holds ht)

theorem exclusive_upgrade_writeLock (h : Exclusive ⟨l, fast⟩) (hr : l.noReadLockConflict t = true) :
    Exclusive ⟨l.upgradeLock t .writeLock, fast⟩ := by
  unfold noReadLockConflict at hr
  split at hr
  · cases hr
  · rename_i hcnt
    have counted : l.readCnt = fast.length := h.counted
    have nobody : fast = [] := List.eq_nil_of_length_eq_zero (by omega)
    refine ⟨h.counted, ?_, by simp [nobody]⟩
    intro u _ r hmem
    obtain ⟨hne, hin⟩ := Finset.mem_erase.mp hmem
    rcases Bool.or_eq_true_iff.mp hr with he | he <;> simp_all

theorem exclusive_upgrade_writeIntent (h : Exclusive ⟨l, fast⟩) :
    Exclusive ⟨l.upgradeLock t .writeIntent, fast⟩ :=
  .of_no_writeLock h.counted (by simp [upgradeLock])

theorem exclusive_addReadLock (h : Exclusive ⟨l, fast⟩) (hw : l.noWriteLockConflict t = true) :
    Exclusive ⟨l.addReadLock t, fast⟩ := by
  refine ⟨h.counted, ?_, h.fastReaders⟩
  intro u hu r hr
  have hu' : l.HoldsWriteLock u := hu
  rcases Finset.mem_insert.mp hr with rfl | hr
  · simpa [noWriteLockConflict, hu'.1, hu'.2, eq_comm] using hw
  · exact h.readers u hu' r hr

theorem grant_exclusive {e : LockQueueEntry} (h : Exclusive ⟨l, fast⟩) (hg : l.grantable e = true) :
    Exclusive ⟨l.grant e, fast⟩ := by
  unfold grantable at hg
  unfold grant
  split at hg
  · exact exclusive_upgrade_writeLock h (Bool.and_eq_true_iff.mp hg).2
  · exact exclusive_upgrade_writeIntent h
  · exact exclusive_addReadLock h hg
  · exact h

theorem tryPop_exclusive (h : Exclusive ⟨l, fast⟩) : Exclusive ⟨l.tryPopBlockingQueue.1, fast⟩ :=
  popLoop_preserves (P := fun l => Exclusive ⟨l, fast⟩)
    (fun _ _ h => h.shrink rfl rfl rfl (Finset.Subset.refl _))
    (fun _ _ h hg => grant_exclusive h hg) _ _ h

theorem dropWrite_exclusive (h : Exclusive ⟨l, fast⟩) : Exclusive ⟨l.dropWrite, fast⟩ :=
  .of_no_writeLock h.counted (by simp [dropWrite])

theorem releaseReadLock_exclusive (u : TxNumber) (h : Exclusive ⟨l, fast⟩) :
    Exclusive ⟨(l.releaseReadLock u).2.1, fast⟩ := by
  unfold releaseReadLock
  split
  · exact tryPop_exclusive (h.shrink rfl rfl rfl (Finset.erase_subset _ _))
  · exact h

theorem acquireLock_exclusive (req : CcRequest) (protocol : CcProtocol) (ty : LockType)
    (h : Exclusive ⟨l, fast⟩) :
    Exclusive ⟨(l.acquireLock req protocol ty).2, fast⟩ := by
  have queued (t : LockType) : Exclusive ⟨l.enqueue req t, fast⟩ :=
    h.shrink rfl rfl rfl (Finset.Subset.refl _)
  cases ty with
  | noLock => exact h
  | readIntent =>
    simp only [acquireLock, acquireReadIntent]
    split
    · exact h
    · exact h.shrink rfl rfl rfl (Finset.Subset.refl _)
  | readLock =>
    simp only [acquireLock, acquireReadLock]
    split
    · exact h
    · split
      · rename_i hc
        exact exclusive_addReadLock h (Bool.and_eq_true_iff.mp hc).1
      · exact queued _
  | writeIntent =>
    simp only [acquireLock, acquireWriteIntent]
    split
    · exact h
    · split
      · exact exclusive_upgrade_writeIntent h
      · split
        · exact queued _
        · exact h
  | writeLock =>
    simp only [acquireLock, acquireWriteLock]
    split
    · exact h
    · split
      · rename_i hc
        exact exclusive_upgrade_writeLock h (Bool.and_eq_true_iff.mp hc).2
      · split
        · exact queued _
        · exact h

/-- A fast read is taken under the same test as a read lock. -/
theorem acquireReadLockFast_exclusive (u : TxNumber) (h : Exclusive s) :
    Exclusive ((LockOp.acquireReadLockFast u).exec s) := by
  simp only [LockOp.exec, acquireReadLockFast]
  split
  · rename_i hc
    have hw := (Bool.and_eq_true_iff.mp hc).1
    refine ⟨by simp [h.counted], h.readers, ?_⟩
    intro txn ht r hr
    have ht' : s.lock.HoldsWriteLock txn := ht
    rcases List.mem_cons.mp hr with rfl | hr
    · simpa [noWriteLockConflict, ht'.1, ht'.2, eq_comm] using hw
    · exact h.fastReaders txn ht' r hr
  · exact h

theorem releaseReadLockFast_exclusive {u : TxNumber} (hu : u ∈ s.fastReaders) (h : Exclusive s) :
    Exclusive ((LockOp.releaseReadLockFast u).exec s) := by
  have length := List.length_erase_of_mem hu
  have pos := List.length_pos_of_mem hu
  have counted := h.counted
  have dropped : Exclusive ⟨{ s.lock with readCnt := s.lock.readCnt - 1 }, s.fastReaders.erase u⟩ :=
    ⟨by simp only; omega, h.readers,
      fun txn ht r hr => h.fastReaders txn ht r (List.mem_of_mem_erase hr)⟩
  exact tryPop_exclusive dropped

theorem step_exclusive {s t : LockTable} {op : LockOp} (step : Step s op t) (h : Exclusive s) :
    Exclusive t := by
  obtain ⟨enabled, rfl⟩ := step
  cases op with
  | acquireLock req protocol ty => exact acquireLock_exclusive req protocol ty h
  | acquireReadLockFast u => exact acquireReadLockFast_exclusive u h
  | releaseReadLockFast u => exact releaseReadLockFast_exclusive enabled h
  | releaseReadLock u => exact releaseReadLock_exclusive u h
  | releaseWriteLock u ccs =>
    simp only [LockOp.exec, releaseWriteLock]
    split
    · exact h
    · split
      · exact dropWrite_exclusive h
      · exact tryPop_exclusive (dropWrite_exclusive h)
  | releaseWriteIntent u =>
    simp only [LockOp.exec, releaseWriteIntent]
    split
    · exact h
    · exact tryPop_exclusive (dropWrite_exclusive h)
  | releaseReadIntent u => exact h.shrink rfl rfl rfl (Finset.Subset.refl _)
  | downgradeWriteLock u =>
    simp only [LockOp.exec, downgradeWriteLock]
    split
    · exact h
    · exact tryPop_exclusive (.of_no_writeLock h.counted (by simp))
  | clearTx u =>
    simp only [LockOp.exec, clearTx]
    split
    · exact releaseReadLock_exclusive u h
    · split
      · exact h.shrink rfl rfl rfl (Finset.Subset.refl _)
      · split
        · exact tryPop_exclusive (dropWrite_exclusive h)
        · exact h
  | insertBlockingQueue req => exact h.shrink rfl rfl rfl (Finset.Subset.refl _)
  | abortQueueRequest u => exact h.shrink rfl rfl rfl (Finset.Subset.refl _)
  | abortAllQueuedRequests => exact h.shrink rfl rfl rfl (Finset.Subset.refl _)

theorem reached_exclusive (h : Reached s) : Exclusive s :=
  h.invariant (fun _ hs => hs ▸ .of_no_writeLock rfl (by simp [reset]))
    (fun _ _ _ step hs => step_exclusive step hs)

/-- **Mutual exclusion.** In every state the operations reach, the holder of the
write lock is alone: every read lock and every fast read counted by the lock is
its own. Along any run from there the write slot stays with its owner until the
owner releases it or is cleared, and no grant made inside the queue loop takes
the slot from a transaction that has it. -/
theorem lock_table_exclusive {s : LockTable} (h : Reached s) :
    (∀ txn, s.lock.HoldsWriteLock txn →
      (∀ r ∈ s.lock.readLocks, r = txn) ∧
      s.lock.readCnt = s.fastReaders.length ∧ ∀ r ∈ s.fastReaders, r = txn) ∧
    (∀ ops t txn, Run Step s ops t → s.lock.owner = some txn →
      t.lock.owner = some txn ∨
      ∃ before op after u, ops = before ++ op :: after ∧ Run Step s before u ∧
        u.lock.owner = some txn ∧ Releases txn u op) ∧
    ∀ l e txn, NonBlockingLock.grantable l e = true → l.owner = some txn →
      (l.grant e).owner = some txn := by
  have excl := reached_exclusive h
  refine ⟨?_, ?_, fun _ _ _ hg ho => grant_keeps_owner hg ho⟩
  · intro txn ht
    exact ⟨excl.readers txn ht, excl.counted, excl.fastReaders txn ht⟩
  · intro ops t txn run ho
    exact run.keeps_until (P := fun s => s.lock.owner = some txn)
      (fun _ _ _ step ho => step_keeps_owner step ho) ho

/-- Transaction 1 takes the write lock, 2 queues for a read lock, 1 releases. -/
theorem lock_table_exclusive_handover :
    let s := (LockOp.acquireLock ⟨2, 1⟩ .locking .readLock).exec
      ((LockOp.acquireLock ⟨1, 0⟩ .locking .writeLock).exec initial)
    s.lock.HoldsWriteLock 1 ∧ s.lock.readLocks = ∅ ∧
    ((LockOp.releaseWriteLock 1 true).exec s).lock.readLocks = {2} ∧
    (∀ r ∈ s.lock.readLocks, r = 1) := by
  intro s
  have locked : Reached ((LockOp.acquireLock ⟨1, 0⟩ .locking .writeLock).exec initial) :=
    Reached.exec (.start rfl) (.acquireLock ⟨1, 0⟩ .locking .writeLock) trivial
  have reached : Reached s := locked.exec (.acquireLock ⟨2, 1⟩ .locking .readLock) trivial
  have holds : s.lock.HoldsWriteLock 1 := by decide
  exact ⟨holds, by decide, by decide, ((lock_table_exclusive reached).1 1 holds).1⟩

end LockTable

end TxService
