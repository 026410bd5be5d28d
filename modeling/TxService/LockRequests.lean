import TxService.CcShard
import TxService.LockDiscipline

/-!
# Requests to a lock, and locks that look the same

What a request can change on a lock that a shard drives, and when two locks
cannot be told apart: a lock without holders is recycled and created anew.
-/

namespace TxService

namespace NonBlockingLock

/-- The effect of a request of a transaction that was not waiting. -/
structure Requested (req : CcRequest) (lockType : LockType) (l l' : NonBlockingLock) : Prop where
  tidy : Tidy l'
  queue : ∀ e ∈ l'.blockingQueue, e ∈ l.blockingQueue ∨ e = ⟨req, lockType⟩
  writer : ∀ t, l'.HoldsWriteLock t → l.HoldsWriteLock t ∨ (t = req.txn ∧ lockType = .writeLock)
  keeps : ∀ t, l.HoldsWriteLock t → l'.HoldsWriteLock t
  reader : ∀ t ≠ req.txn, t ∈ l.readLocks → t ∈ l'.readLocks
  wlockTs : l'.wlockTs = l.wlockTs

variable {req : CcRequest} {ty : LockType} {l : NonBlockingLock} {protocol : CcProtocol}

theorem Requested.unchanged (h : Tidy l) :
    Requested req ty l l :=
  ⟨h, fun _ he => Or.inl he, fun _ ht => Or.inl ht, fun _ ht => ht, fun _ _ hr => hr, rfl⟩

theorem enqueue_requested (h : Tidy l) (fresh : req.txn ∉ l.waiting)
    (notSelf : ty = .readLock → l.owner ≠ some req.txn) :
    Requested req ty l (l.enqueue req ty) := by
  have queue (e : LockQueueEntry) (he : e ∈ (l.enqueue req ty).blockingQueue) :
      e ∈ l.blockingQueue ∨ e = ⟨req, ty⟩ := by simpa [enqueue] using he
  refine ⟨⟨⟨h.noFast, h.alone, h.readers, h.intents⟩, ?_, ?_⟩, queue, fun _ ht => Or.inl ht,
    fun _ ht => ht, fun _ _ hr => hr, rfl⟩
  · have := List.nodup_append.mpr ⟨h.single, List.nodup_singleton req.txn, by
      intro a ha b hb
      rw [List.mem_singleton.mp hb]
      exact fun hab => fresh (hab ▸ ha)⟩
    simpa [waiting, enqueue] using this
  · intro e he hty ho
    rcases queue e he with he | rfl
    · exact h.selfWait e he hty ho
    · exact absurd ho (notSelf hty)

theorem insertBlockingQueue_requested (h : Tidy l) (fresh : req.txn ∉ l.waiting)
    (locked : l.writeLkType = .writeLock) :
    Requested req .readLock l (l.insertBlockingQueue req .readLock) := by
  refine ⟨⟨⟨h.noFast, h.alone, h.readers, h.intents⟩, ?_, fun _ _ _ _ => locked⟩, ?_,
    fun _ ht => Or.inl ht, fun _ ht => ht, fun _ _ hr => hr, rfl⟩
  · simpa [waiting, insertBlockingQueue] using And.intro (by simpa [waiting] using fresh) h.single
  · intro e he
    rcases List.mem_cons.mp he with rfl | he
    · exact Or.inr rfl
    · exact Or.inl he

theorem upgrade_requested (h : Tidy l) (fresh : req.txn ∉ l.waiting)
    (kind : ty = .writeLock ∨ ty = .writeIntent) (free : ¬ l.HoldsWriteLock req.txn)
    (hw : l.noWriteConflict req.txn = true) (one : OneKind (l.upgradeLock req.txn ty)) :
    Requested req ty l (l.upgradeLock req.txn ty) := by
  have slot : (l.upgradeLock req.txn ty).writeTxn = req.txn := by
    rcases kind with rfl | rfl <;> rfl
  have queue : (l.upgradeLock req.txn ty).blockingQueue = l.blockingQueue := by
    rcases kind with rfl | rfl <;> rfl
  have noWriter (t : TxNumber) (ht : l.HoldsWriteLock t) : False := by
    rcases noWriteConflict_iff.mp hw with ho | ho
    · simp [ht.owner] at ho
    · rw [ht.owner, Option.some.injEq] at ho
      exact free (ho ▸ ht)
  refine ⟨⟨one, ?_, ?_⟩, ?_, ?_, fun t ht => (noWriter t ht).elim, ?_, ?_⟩
  · have : (l.upgradeLock req.txn ty).waiting = l.waiting := by simp only [waiting, queue]
    rw [this]
    exact h.single
  · intro e he _ ho
    rw [queue] at he
    rw [upgradeLock_owner l _ kind, Option.some.injEq] at ho
    exact absurd (List.mem_map.mpr ⟨e, he, ho.symm⟩) fresh
  · intro e he
    rw [queue] at he
    exact Or.inl he
  · intro t ht
    rcases kind with rfl | rfl
    · exact Or.inr ⟨ht.2.symm.trans slot, rfl⟩
    · simp [HoldsWriteLock, upgradeLock] at ht
  · intro t ht hr
    rcases kind with rfl | rfl <;> exact Finset.mem_erase.mpr ⟨ht, hr⟩
  · rcases kind with rfl | rfl <;> rfl

theorem addReadLock_requested (h : Tidy l) (hw : l.noWriteLockConflict req.txn = true)
    (ho : l.owner ≠ some req.txn) : Requested req .readLock l (l.addReadLock req.txn) := by
  refine ⟨⟨h.toOneKind.addReadLock hw ho, h.single, h.selfWait⟩, fun _ he => Or.inl he,
    fun _ ht => Or.inl ht, fun _ ht => ht, fun _ _ hr => Finset.mem_insert_of_mem hr, rfl⟩

theorem readIntent_requested (h : Tidy l) :
    Requested req .readIntent l (l.acquireReadIntent req.txn).2 := by
  unfold acquireReadIntent
  split
  · exact .unchanged h
  · rename_i hc
    simp only [not_or, not_and] at hc
    obtain ⟨hr, hi, hw⟩ := hc
    have ho : l.owner ≠ some req.txn := fun ho =>
      hw (owner_eq_some.mp ho).1 (owner_eq_some.mp ho).2
    refine ⟨⟨⟨h.noFast, h.alone, ?_, ?_⟩, h.single, h.selfWait⟩, fun _ he => Or.inl he,
      fun _ ht => Or.inl ht, fun _ ht => ht, fun _ _ hr => hr, rfl⟩
    · intro t ht
      refine ⟨(h.readers t ht).1, fun hmem => ?_⟩
      rcases Finset.mem_insert.mp hmem with rfl | hmem
      · exact hr ht
      · exact (h.readers t ht).2 hmem
    · intro t ht
      rcases Finset.mem_insert.mp ht with rfl | ht
      · exact ho
      · exact h.intents t ht

theorem acquireLock_requested (protocol : CcProtocol) (ty : LockType) (h : Tidy l)
    (fresh : req.txn ∉ l.waiting) :
    Requested req ty l (l.acquireLock req protocol ty).2 := by
  cases ty with
  | noLock => exact .unchanged h
  | readIntent => exact readIntent_requested h
  | readLock =>
    simp only [acquireLock, acquireReadLock]
    split
    · exact .unchanged h
    · rename_i hc
      rw [not_or, not_and] at hc
      have ho : l.owner ≠ some req.txn := fun ho =>
        hc.2 (owner_eq_some.mp ho).1 (owner_eq_some.mp ho).2
      split
      · rename_i hw
        exact addReadLock_requested h (Bool.and_eq_true_iff.mp hw).1 ho
      · exact enqueue_requested h fresh fun _ => ho
  | writeIntent =>
    simp only [acquireLock, acquireWriteIntent]
    split
    · exact .unchanged h
    · rename_i hown
      have free : ¬ l.HoldsWriteLock req.txn := fun hl => hown ⟨by simp [hl.1], hl.2⟩
      split
      · rename_i hc
        exact upgrade_requested h fresh (Or.inr rfl) free (Bool.and_eq_true_iff.mp hc).1
          (h.toOneKind.upgrade_writeIntent _)
      · split
        · exact enqueue_requested h fresh (by simp)
        · exact .unchanged h
  | writeLock =>
    simp only [acquireLock, acquireWriteLock]
    split
    · exact .unchanged h
    · rename_i hown
      split
      · rename_i hc
        obtain ⟨hw, hr⟩ := Bool.and_eq_true_iff.mp hc
        exact upgrade_requested h fresh (Or.inl rfl) hown hw
          (h.toOneKind.upgrade_writeLock hr)
      · split
        · exact enqueue_requested h fresh (by simp)
        · exact .unchanged h

theorem acquireWriteLock_holds (h : (l.acquireWriteLock req protocol).1 = true) :
    (l.acquireWriteLock req protocol).2.HoldsWriteLock req.txn := by
  unfold acquireWriteLock at h ⊢
  by_cases held : l.writeLkType = .writeLock ∧ l.writeTxn = req.txn
  · rw [if_pos held]
    exact held
  · rw [if_neg held] at h ⊢
    by_cases free : (l.noWriteConflict req.txn && l.noReadLockConflict req.txn) = true
    · rw [if_pos free]
      exact ⟨rfl, rfl⟩
    · rw [if_neg free] at h
      split at h <;> cases h

theorem acquireLock_writeLock (h : (l.acquireLock req protocol .writeLock).1 = .successful) :
    (l.acquireLock req protocol .writeLock).2.HoldsWriteLock req.txn := by
  apply acquireWriteLock_holds
  simp only [acquireLock] at h
  split at h
  · assumption
  · split at h <;> cases h

/-- Two locks that differ in no way a transaction can notice. A lock that is
recycled and created anew is one of them. -/
structure Alike (l l' : NonBlockingLock) : Prop where
  readLocks : l'.readLocks = l.readLocks
  writer : ∀ t, l'.HoldsWriteLock t ↔ l.HoldsWriteLock t
  queue : l'.blockingQueue = l.blockingQueue
  tidy : Tidy l → Tidy l'
  wlockTs : ∀ t, l.HoldsWriteLock t → l'.wlockTs = l.wlockTs

theorem Alike.refl (l : NonBlockingLock) : Alike l l :=
  ⟨rfl, fun _ => Iff.rfl, rfl, fun h => h, fun _ _ => rfl⟩

theorem Alike.trans {l l' l'' : NonBlockingLock} (h : Alike l l') (h' : Alike l' l'') :
    Alike l l'' :=
  ⟨h'.readLocks.trans h.readLocks, fun t => (h'.writer t).trans (h.writer t),
    h'.queue.trans h.queue, fun ht => h'.tidy (h.tidy ht),
    fun t ht => (h'.wlockTs t ((h.writer t).mpr ht)).trans (h.wlockTs t ht)⟩

theorem Alike.waiting {l l' : NonBlockingLock} (h : Alike l l') : l'.waiting = l.waiting := by
  unfold NonBlockingLock.waiting
  rw [h.queue]

theorem isEmpty_alike (h : l.isEmpty = true) : Alike l reset := by
  simp only [isEmpty, Bool.and_eq_true, decide_eq_true_eq] at h
  obtain ⟨⟨⟨⟨-, readers⟩, -⟩, write⟩, queue⟩ := h
  have free (t : TxNumber) : ¬ l.HoldsWriteLock t := fun ht => by
    simp [HoldsWriteLock, write] at ht
  refine ⟨readers.symm, fun t => ⟨fun ht => by simp [HoldsWriteLock, reset] at ht,
    fun ht => absurd ht (free t)⟩, queue.symm, fun _ => reset_tidy,
    fun t ht => absurd ht (free t)⟩

theorem Released.alike {u : TxNumber} {l l' l'' : NonBlockingLock} {woken : List CcRequest}
    (h : Released u l l' woken) (a : Alike l' l'') : Released u l l'' woken where
  tidy := a.tidy h.tidy
  queue e he := h.queue e (by rwa [← a.queue])
  wakes r hr := by
    obtain ⟨e, he, heq, hw, hg⟩ := h.wakes r hr
    exact ⟨e, he, heq, by rwa [a.waiting],
      hg.mono (by rw [a.readLocks]; exact id) (a.writer r.txn).mpr⟩
  writer t ht := h.writer t ((a.writer t).mp ht)
  keeps t ht hl := (a.writer t).mpr (h.keeps t ht hl)
  reader t ht hr hw := by
    rw [a.readLocks]
    exact h.reader t ht hr hw
  wlockTs t ht hl := (a.wlockTs t (h.keeps t ht hl)).trans (h.wlockTs t ht hl)
  quiet := h.quiet
  once := h.once

/-- The releaser's own write timestamp is nobody else's business. -/
theorem Released.setWLockTs {u : TxNumber} {l l' : NonBlockingLock} {woken : List CcRequest}
    (h : Released u l l' woken) (hu : l.HoldsWriteLock u) (ts : Nat) :
    Released u l (l'.setWLockTs ts) woken := by
  refine ⟨h.tidy.setWLockTs ts, h.queue, fun r hr => ?_, h.writer, h.keeps, h.reader,
    fun _ ht hl => absurd (hl.unique hu) ht, h.quiet, h.once⟩
  obtain ⟨e, he, heq, hw, hg⟩ := h.wakes r hr
  exact ⟨e, he, heq, hw, hg.mono (fun hr => hr) (fun hw => hw)⟩

/-- `ReleaseCceLock`'s switch: nothing happened, or what the transaction had is
released, and reported as the write lock exactly when it was that. -/
theorem unlock_released (u : TxNumber) (ty : LockType) (h : Tidy l) :
    ((l.unlock u ty).1 = .noLock ∧ (l.unlock u ty).2 = (l, [])) ∨
    ((l.unlock u ty).1 ≠ .noLock ∧ Released u l (l.unlock u ty).2.1 (l.unlock u ty).2.2 ∧
      ((l.unlock u ty).1 = .writeLock ↔ l.HoldsWriteLock u)) := by
  cases ty with
  | noLock => exact clearTx_released u h
  | writeIntent => exact clearTx_released u h
  | readLock =>
    by_cases hu : u ∈ l.readLocks
    · have hs : (l.releaseReadLock u).1 = true := by simp [releaseReadLock, hu]
      refine Or.inr ⟨by simp [unlock, hs], releaseReadLock_released h hs, ?_⟩
      simpa [unlock, hs] using h.reader_not_writer (Or.inl hu)
    · exact Or.inl (by simp [unlock, releaseReadLock, hu])
  | readIntent =>
    by_cases hu : u ∈ l.readIntentions
    · have hs : (l.releaseReadIntent u).1 = true := decide_eq_true hu
      refine Or.inr ⟨by simp [unlock, hs], releaseReadIntent_released h hs, ?_⟩
      simpa [unlock, hs] using h.reader_not_writer (Or.inr hu)
    · exact Or.inl (by simp [unlock, releaseReadIntent, hu])
  | writeLock =>
    by_cases hu : l.HoldsWriteLock u
    · have hs : (l.releaseWriteLock u true).1 = true := by
        simp [releaseWriteLock, hu.1, hu.2]
      refine Or.inr ⟨by simp [unlock, hs], (releaseWriteLock_released h hs).1, ?_⟩
      simpa [unlock, hs] using hu
    · have hs : l.releaseWriteLock u true = (false, l, []) := by
        simp only [releaseWriteLock]
        rw [if_pos (by
          by_contra hc
          rw [not_or, not_not, not_not] at hc
          exact hu hc)]
      exact Or.inl (by simp [unlock, hs])

theorem reset_unlock (u : TxNumber) (ty : LockType) : (reset.unlock u ty).1 = .noLock := by
  cases ty <;> simp [unlock, reset, releaseReadLock, releaseReadIntent, releaseWriteLock, clearTx]

/-- Under OCC a conflict fails at once and leaves the lock as it was. -/
theorem acquireLock_failed (h : (l.acquireLock req protocol ty).1 = .failed) :
    (l.acquireLock req protocol ty).2 = l := by
  cases ty with
  | noLock => rfl
  | readIntent => simp [acquireLock] at h
  | readLock =>
    simp only [acquireLock] at h
    split at h <;> cases h
  | writeIntent =>
    simp only [acquireLock, acquireWriteIntent] at h ⊢
    split_ifs at h ⊢ <;> simp_all
  | writeLock =>
    simp only [acquireLock, acquireWriteLock] at h ⊢
    split_ifs at h ⊢ <;> simp_all

theorem acquireLock_successful (h : (l.acquireLock req protocol ty).1 = .successful) :
    (l.acquireLock req protocol ty).2.blockingQueue = l.blockingQueue := by
  cases ty with
  | noLock => rfl
  | readIntent =>
    simp only [acquireLock, acquireReadIntent]
    split <;> rfl
  | readLock =>
    simp only [acquireLock, acquireReadLock] at h ⊢
    split_ifs at h ⊢ <;> simp_all [NonBlockingLock.addReadLock]
  | writeIntent =>
    simp only [acquireLock, acquireWriteIntent] at h ⊢
    split_ifs at h ⊢ <;> simp_all [upgradeLock]
  | writeLock =>
    simp only [acquireLock, acquireWriteLock] at h ⊢
    split_ifs at h ⊢ <;> simp_all [upgradeLock]

end NonBlockingLock

end TxService
