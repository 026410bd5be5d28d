import Mathlib.Data.List.Nodup
import TxService.LockTable

/-!
# The lock as a shard drives it

A transaction waits for one request at a time on a key, and fast reads only exist on the catalog.
Then a call has a small effect on the others.
-/

namespace TxService

namespace NonBlockingLock

/-- The transactions with a request in the blocking queue. -/
def waiting (l : NonBlockingLock) : List TxNumber := l.blockingQueue.map (·.req.txn)

/-- One kind of lock per transaction, and no reader beside a write lock. -/
structure OneKind (l : NonBlockingLock) : Prop where
  noFast : l.readCnt = 0
  alone : l.writeLkType = .writeLock → l.readLocks = ∅
  readers : ∀ t ∈ l.readLocks, l.owner ≠ some t ∧ t ∉ l.readIntentions
  intents : ∀ t ∈ l.readIntentions, l.owner ≠ some t

/-- No transaction waits twice, and one that waits for a read lock behind itself
does so behind its own write lock, as a snapshot read may. -/
structure Tidy (l : NonBlockingLock) : Prop extends OneKind l where
  single : l.waiting.Nodup
  selfWait : ∀ e ∈ l.blockingQueue, e.lkType = .readLock → l.owner = some e.req.txn →
    l.writeLkType = .writeLock

theorem reset_tidy : Tidy reset where
  noFast := rfl
  alone _ := rfl
  readers _ h := by simp [reset] at h
  intents _ h := by simp [reset] at h
  single := List.nodup_nil
  selfWait _ h := by simp [reset] at h

variable {l : NonBlockingLock} {t : TxNumber} {e : LockQueueEntry} {u : TxNumber}

/-- Only the write slot, the readers and the queue matter. -/
theorem Tidy.setWLockTs (h : Tidy l) (ts : Nat) : Tidy (l.setWLockTs ts) :=
  ⟨⟨h.noFast, h.alone, h.readers, h.intents⟩, h.single, h.selfWait⟩

theorem OneKind.upgrade_writeLock (h : OneKind l) (hr : l.noReadLockConflict t = true) :
    OneKind (l.upgradeLock t .writeLock) := by
  have empty : l.readLocks.erase t = ∅ := by
    have cnt : ¬ 0 < l.readCnt := by rw [h.noFast]; omega
    simp only [noReadLockConflict, cnt, ↓reduceIte, Bool.or_eq_true, decide_eq_true_eq] at hr
    rcases hr with hr | hr <;> simp [hr]
  refine ⟨h.noFast, fun _ => empty, ?_, ?_⟩
  · intro r hmem
    simp [upgradeLock, empty] at hmem
  · intro r hmem
    have hne : r ≠ t := (Finset.mem_erase.mp hmem).1
    simpa [upgradeLock_owner] using hne.symm

theorem OneKind.upgrade_writeIntent (h : OneKind l) (t : TxNumber) :
    OneKind (l.upgradeLock t .writeIntent) := by
  refine ⟨h.noFast, fun ht => by simp [upgradeLock] at ht, ?_, ?_⟩
  · intro r hmem
    obtain ⟨hne, hr⟩ := Finset.mem_erase.mp hmem
    refine ⟨by simpa [upgradeLock_owner] using hne.symm, ?_⟩
    intro hi
    exact (h.readers r hr).2 (Finset.mem_erase.mp hi).2
  · intro r hmem
    have hne : r ≠ t := (Finset.mem_erase.mp hmem).1
    simpa [upgradeLock_owner] using hne.symm

theorem OneKind.addReadLock (h : OneKind l) (hw : l.noWriteLockConflict t = true)
    (ho : l.owner ≠ some t) :
    OneKind (l.addReadLock t) := by
  have noLock : l.writeLkType ≠ .writeLock := by
    intro hl
    simp only [noWriteLockConflict, hl, ne_eq, not_true_eq_false, decide_false, Bool.false_or,
      decide_eq_true_eq] at hw
    exact ho (owner_eq_some.mpr ⟨by simp [hl], hw⟩)
  refine ⟨h.noFast, fun hl => absurd hl noLock, ?_, ?_⟩
  · intro r hr
    rcases Finset.mem_insert.mp hr with rfl | hr
    · exact ⟨ho, Finset.notMem_erase _ _⟩
    · exact ⟨(h.readers r hr).1, fun hi => (h.readers r hr).2 (Finset.mem_erase.mp hi).2⟩
  · intro r hr
    exact h.intents r (Finset.mem_erase.mp hr).2

/-- What the loop needs to start from. -/
structure PopReady (l : NonBlockingLock) (q : List LockQueueEntry) : Prop extends OneKind l where
  single : (q.map (·.req.txn)).Nodup
  notSelf : ∀ e ∈ q, e.lkType = .readLock → l.owner ≠ some e.req.txn

theorem PopReady.grant {rest : List LockQueueEntry} (h : PopReady l (e :: rest))
    (hg : l.grantable e = true) : PopReady (l.grant e) rest := by
  obtain ⟨hnot, hrest⟩ := List.nodup_cons.mp h.single
  have other {e' : LockQueueEntry} (he : e' ∈ rest) : e.req.txn ≠ e'.req.txn :=
    fun heq => hnot (List.mem_map.mpr ⟨e', he, heq.symm⟩)
  unfold grantable at hg
  unfold NonBlockingLock.grant
  split at hg
  · refine ⟨h.toOneKind.upgrade_writeLock (Bool.and_eq_true_iff.mp hg).2, hrest, ?_⟩
    intro e' he _
    simpa [upgradeLock_owner] using other he
  · refine ⟨h.toOneKind.upgrade_writeIntent _, hrest, ?_⟩
    intro e' he _
    simpa [upgradeLock_owner] using other he
  · rename_i hty
    refine ⟨h.toOneKind.addReadLock hg (h.notSelf e List.mem_cons_self hty), hrest, ?_⟩
    intro e' he
    exact h.notSelf e' (List.mem_cons_of_mem _ he)
  · exact ⟨h.toOneKind, hrest, fun e' he => h.notSelf e' (List.mem_cons_of_mem _ he)⟩

/-- The lock a granted request of `t` left behind. Of the intents nothing is said. -/
def Has (l : NonBlockingLock) (t : TxNumber) : LockType → Prop
  | .readLock => t ∈ l.readLocks
  | .writeLock => l.HoldsWriteLock t
  | _ => True

theorem Has.mono {l l' : NonBlockingLock} {ty : LockType} (h : l.Has t ty)
    (reader : t ∈ l.readLocks → t ∈ l'.readLocks)
    (writer : l.HoldsWriteLock t → l'.HoldsWriteLock t) : l'.Has t ty := by
  cases ty with
  | readLock => exact reader h
  | writeLock => exact writer h
  | noLock => trivial
  | readIntent => trivial
  | writeIntent => trivial

/-- What the loop did: a front part of the queue was granted and woken, the rest
stays. Nobody but a granted request gains the write lock, and who was not granted
anything keeps its lock. -/
structure Popped (l : NonBlockingLock) (q granted : List LockQueueEntry)
    (r : NonBlockingLock × List CcRequest) : Prop where
  split : q = granted ++ r.1.blockingQueue
  woken : r.2 = granted.map (·.req)
  tidy : Tidy r.1
  writer : ∀ t, r.1.HoldsWriteLock t →
    l.HoldsWriteLock t ∨ ∃ e ∈ granted, e.req.txn = t ∧ e.lkType = .writeLock
  keeps : ∀ t ty, l.Has t ty → t ∉ granted.map (·.req.txn) → r.1.Has t ty
  has : ∀ e ∈ granted, r.1.Has e.req.txn e.lkType

theorem grant_writer (h : (l.grant e).HoldsWriteLock t) :
    l.HoldsWriteLock t ∨ e.req.txn = t ∧ e.lkType = .writeLock := by
  unfold NonBlockingLock.grant at h
  split at h
  · rename_i hty
    exact Or.inr ⟨by simpa [upgradeLock, HoldsWriteLock] using h, hty⟩
  · simp [upgradeLock, HoldsWriteLock] at h
  · exact Or.inl h
  · exact Or.inl h

theorem grant_keeps_has {ty : LockType} (hg : l.grantable e = true) (h : l.Has t ty)
    (hne : t ≠ e.req.txn) :
    (l.grant e).Has t ty := by
  refine h.mono (fun hr => ?_) (fun hw => ?_)
  · unfold NonBlockingLock.grant
    split
    · exact Finset.mem_erase.mpr ⟨hne, hr⟩
    · exact Finset.mem_erase.mpr ⟨hne, hr⟩
    · exact Finset.mem_insert_of_mem hr
    · exact hr
  · have ho := grant_keeps_owner hg hw.owner
    unfold NonBlockingLock.grant at ho ⊢
    split at ho
    · exact absurd (Option.some.inj ((upgradeLock_owner l _ (.inl rfl)).symm.trans ho)).symm hne
    · exact absurd (Option.some.inj ((upgradeLock_owner l _ (.inr rfl)).symm.trans ho)).symm hne
    · exact hw
    · exact hw

theorem grant_has (l : NonBlockingLock) (e : LockQueueEntry) :
    (l.grant e).Has e.req.txn e.lkType := by
  unfold Has NonBlockingLock.grant
  cases e.lkType with
  | readLock => exact Finset.mem_insert_self _ _
  | writeLock => exact ⟨rfl, rfl⟩
  | noLock => trivial
  | readIntent => trivial
  | writeIntent => trivial

theorem popLoop_popped (q : List LockQueueEntry) (l : NonBlockingLock) (h : PopReady l q) :
    ∃ granted, Popped l q granted (l.popLoop q) := by
  induction q generalizing l with
  | nil =>
    have tidy : Tidy { l with blockingQueue := [] } :=
      ⟨⟨h.noFast, h.alone, h.readers, h.intents⟩, List.nodup_nil, by simp⟩
    exact ⟨[], rfl, rfl, tidy, fun _ ht => Or.inl ht,
      fun _ _ ht _ => ht.mono (fun hr => hr) (fun hw => hw), by simp⟩
  | cons e rest ih =>
    simp only [popLoop]
    split
    · rename_i hg
      obtain ⟨granted, p⟩ := ih (l.grant e) (h.grant hg)
      have hnot := (List.nodup_cons.mp h.single).1
      have outside : e.req.txn ∉ granted.map (·.req.txn) := by
        intro hmem
        rw [p.split, List.map_append] at hnot
        exact hnot (List.mem_append_left _ hmem)
      refine ⟨e :: granted, by simp [← p.split], by simp [p.woken], p.tidy, ?_, ?_, ?_⟩
      · intro t ht
        rcases p.writer t ht with hl | ⟨e', he', hr⟩
        · rcases grant_writer hl with hl | hr
          · exact Or.inl hl
          · exact Or.inr ⟨e, List.mem_cons_self, hr⟩
        · exact Or.inr ⟨e', List.mem_cons_of_mem _ he', hr⟩
      · intro t ty ht hout
        simp only [List.map_cons, List.mem_cons, not_or] at hout
        exact p.keeps t ty (grant_keeps_has hg ht hout.1) hout.2
      · intro e' he'
        rcases List.mem_cons.mp he' with rfl | he'
        · exact p.keeps _ _ (grant_has l e') outside
        · exact p.has e' he'
    · refine ⟨[], rfl, rfl, ⟨⟨h.noFast, h.alone, h.readers, h.intents⟩, h.single, ?_⟩,
        fun _ ht => Or.inl ht, fun _ _ ht _ => ht.mono (fun hr => hr) (fun hw => hw), by simp⟩
      intro e' he' hty ho
      exact absurd ho (h.notSelf e' he' hty)

/-- The effect of a call by which `u` gave up what it had. -/
structure Released (u : TxNumber) (l l' : NonBlockingLock) (woken : List CcRequest) : Prop where
  tidy : Tidy l'
  queue : ∀ e ∈ l'.blockingQueue, e ∈ l.blockingQueue
  wakes : ∀ r ∈ woken, ∃ e ∈ l.blockingQueue, e.req = r ∧ r.txn ∉ l'.waiting ∧
    l'.Has r.txn e.lkType
  writer : ∀ t, l'.HoldsWriteLock t → (t ≠ u ∧ l.HoldsWriteLock t) ∨
    ∃ e ∈ l.blockingQueue, e.req.txn = t ∧ e.lkType = .writeLock ∧ e.req ∈ woken
  keeps : ∀ t ≠ u, l.HoldsWriteLock t → l'.HoldsWriteLock t
  reader : ∀ t ≠ u, t ∈ l.readLocks → t ∉ l.waiting → t ∈ l'.readLocks
  wlockTs : ∀ t ≠ u, l.HoldsWriteLock t → l'.wlockTs = l.wlockTs
  quiet : ∀ t ≠ u, l.HoldsWriteLock t → woken = []
  once : (woken.map (·.txn)).Nodup

/-- Every release that runs the queue loop: nobody else had the write lock. -/
theorem Popped.released {l l₀ : NonBlockingLock} {granted : List LockQueueEntry}
    {r : NonBlockingLock × List CcRequest} (p : Popped l₀ l.blockingQueue granted r) (h : Tidy l)
    (free : ∀ t, ¬ l₀.HoldsWriteLock t) (only : ∀ t ≠ u, ¬ l.HoldsWriteLock t)
    (readers : ∀ t ≠ u, t ∈ l.readLocks → t ∈ l₀.readLocks) :
    Released u l r.1 r.2 where
  tidy := p.tidy
  queue e he := by
    rw [p.split]
    exact List.mem_append_right _ he
  wakes := by
    intro req hreq
    rw [p.woken] at hreq
    obtain ⟨e, he, rfl⟩ := List.mem_map.mp hreq
    refine ⟨e, by rw [p.split]; exact List.mem_append_left _ he, rfl, ?_, p.has e he⟩
    have single := h.single
    unfold waiting at single
    rw [p.split, List.map_append] at single
    exact fun hw => List.disjoint_of_nodup_append single (List.mem_map_of_mem he) hw
  writer t ht := by
    rcases p.writer t ht with hl | ⟨e, he, htx, hty⟩
    · exact absurd hl (free t)
    · refine Or.inr ⟨e, by rw [p.split]; exact List.mem_append_left _ he, htx, hty, ?_⟩
      rw [p.woken]
      exact List.mem_map_of_mem he
  keeps t ht hl := absurd hl (only t ht)
  reader t ht hr hw := by
    refine p.keeps t .readLock (readers t ht hr) fun hg => hw ?_
    unfold waiting
    rw [p.split, List.map_append]
    exact List.mem_append_left _ hg
  wlockTs t ht hl := absurd hl (only t ht)
  quiet t ht hl := absurd hl (only t ht)
  once := by
    have single := h.single
    unfold waiting at single
    rw [p.split, List.map_append] at single
    rw [p.woken, List.map_map]
    exact (List.nodup_append.mp single).1

theorem HoldsWriteLock.unique {t u : TxNumber} (ht : l.HoldsWriteLock t) (hu : l.HoldsWriteLock u) :
    t = u :=
  ht.2.symm.trans hu.2

/-- A waiter for a read lock never waits behind an intent of its own. -/
theorem Tidy.notSelf (h : Tidy l) (free : l.writeLkType ≠ .writeLock) :
    ∀ e ∈ l.blockingQueue, e.lkType = .readLock → l.owner ≠ some e.req.txn :=
  fun e he hty ho => free (h.selfWait e he hty ho)

theorem releaseReadLock_released (h : Tidy l) (hs : (l.releaseReadLock u).1 = true) :
    Released u l (l.releaseReadLock u).2.1 (l.releaseReadLock u).2.2 := by
  unfold releaseReadLock at hs ⊢
  split at hs
  · rename_i hu
    have free : l.writeLkType ≠ .writeLock := by
      intro hl
      simp [h.alone hl] at hu
    have ready : PopReady { l with readLocks := l.readLocks.erase u } l.blockingQueue := by
      refine ⟨⟨h.noFast, fun hl => absurd hl free, ?_, h.intents⟩, h.single, h.notSelf free⟩
      intro t ht
      exact h.readers t (Finset.mem_erase.mp ht).2
    obtain ⟨granted, p⟩ := popLoop_popped _ _ ready
    simp only [hu, ↓reduceIte]
    exact p.released h (fun _ ht => free ht.1) (fun _ _ ht => free ht.1)
      (fun _ ht hr => Finset.mem_erase.mpr ⟨ht, hr⟩)
  · cases hs

theorem dropWrite_released (h : Tidy l) (hu : l.writeTxn = u) :
    Released u l l.dropWrite.tryPopBlockingQueue.1 l.dropWrite.tryPopBlockingQueue.2 := by
  have noOwner (t : TxNumber) : l.dropWrite.owner ≠ some t := by simp [owner, dropWrite]
  have ready : PopReady l.dropWrite l.blockingQueue := by
    refine ⟨⟨h.noFast, fun hl => by simp [dropWrite] at hl, ?_, ?_⟩, h.single, ?_⟩
    · exact fun t ht => ⟨noOwner t, (h.readers t ht).2⟩
    · exact fun t _ => noOwner t
    · exact fun _ _ _ => noOwner _
  obtain ⟨granted, p⟩ := popLoop_popped _ _ ready
  refine p.released h ?_ ?_ (fun _ _ hr => hr)
  · intro t ht
    simp [HoldsWriteLock, dropWrite] at ht
  · intro t ht hl
    exact ht (hl.2.symm.trans hu)

theorem releaseWriteLock_released (h : Tidy l) (hs : (l.releaseWriteLock u true).1 = true) :
    Released u l (l.releaseWriteLock u true).2.1 (l.releaseWriteLock u true).2.2 ∧
      l.HoldsWriteLock u := by
  unfold releaseWriteLock at hs ⊢
  split at hs
  · cases hs
  · rename_i hc
    simp only [hc, ↓reduceIte, Bool.true_eq_false]
    rw [not_or, not_not, not_not] at hc
    exact ⟨dropWrite_released h hc.2, hc⟩

theorem releaseWriteIntent_released (h : Tidy l) (hs : (l.releaseWriteIntent u).1 = true) :
    Released u l (l.releaseWriteIntent u).2.1 (l.releaseWriteIntent u).2.2 := by
  unfold releaseWriteIntent at hs ⊢
  split at hs
  · cases hs
  · rename_i hc
    simp only [hc, ↓reduceIte]
    rw [not_or, not_not, not_not] at hc
    exact dropWrite_released h hc.2

theorem releaseReadIntent_released (h : Tidy l) (hs : (l.releaseReadIntent u).1 = true) :
    Released u l (l.releaseReadIntent u).2 [] := by
  have hu : u ∈ l.readIntentions := of_decide_eq_true hs
  have tidy : Tidy (l.releaseReadIntent u).2 := by
    refine ⟨⟨h.noFast, h.alone, ?_, ?_⟩, h.single, h.selfWait⟩
    · intro t ht
      exact ⟨(h.readers t ht).1, fun hi => (h.readers t ht).2 (Finset.mem_erase.mp hi).2⟩
    · intro t ht
      exact h.intents t (Finset.mem_erase.mp ht).2
  refine ⟨tidy, fun _ he => he, by simp, ?_, fun _ _ hl => hl, fun _ _ hr _ => hr,
    fun _ _ _ => rfl, fun _ _ _ => rfl, List.nodup_nil⟩
  intro t ht
  have hl : l.HoldsWriteLock t := ht
  refine Or.inl ⟨?_, hl⟩
  rintro rfl
  exact h.intents t hu hl.owner

theorem releaseReadLock_failed (hs : (l.releaseReadLock u).1 = false) :
    (l.releaseReadLock u).2 = (l, []) := by
  unfold releaseReadLock at hs ⊢
  split at hs
  · cases hs
  · rename_i hu
    simp [hu]

theorem releaseWriteIntent_failed (hs : (l.releaseWriteIntent u).1 = false) :
    (l.releaseWriteIntent u).2 = (l, []) := by
  unfold releaseWriteIntent at hs ⊢
  split at hs
  · rename_i hu
    simp [hu]
  · cases hs

theorem Tidy.reader_not_writer (h : Tidy l) (hu : u ∈ l.readLocks ∨ u ∈ l.readIntentions) :
    ¬ l.HoldsWriteLock u := by
  intro hl
  rcases hu with hr | hi
  · exact (h.readers u hr).1 hl.owner
  · exact h.intents u hi hl.owner

/-- `ClearTx` clears the one kind of lock there is, and reports the write lock
exactly when the transaction had it. -/
theorem clearTx_released (u : TxNumber) (h : Tidy l) :
    ((l.clearTx u).1 = .noLock ∧ (l.clearTx u).2 = (l, [])) ∨
    ((l.clearTx u).1 ≠ .noLock ∧ Released u l (l.clearTx u).2.1 (l.clearTx u).2.2 ∧
      ((l.clearTx u).1 = .writeLock ↔ l.HoldsWriteLock u)) := by
  simp only [clearTx]
  split
  · rename_i hr
    have hu : u ∈ l.readLocks := by
      by_contra hu
      simp [releaseReadLock, hu] at hr
    exact Or.inr ⟨by simp, releaseReadLock_released h hr,
      by simpa using h.reader_not_writer (Or.inl hu)⟩
  · split
    · rename_i hi
      exact Or.inr ⟨by simp, releaseReadIntent_released h hi,
        by simpa using h.reader_not_writer (Or.inr (of_decide_eq_true hi))⟩
    · split
      · rename_i hw
        refine Or.inr ⟨?_, dropWrite_released h hw.2, ?_⟩
        · simp only
          split <;> simp
        · simp only [HoldsWriteLock, hw.2, and_true]
          split <;> simp_all
      · exact Or.inl ⟨rfl, rfl⟩

theorem clearTx_writeLock (h : Tidy l) (hu : l.HoldsWriteLock u) :
    (l.clearTx u).1 = .writeLock := by
  have notReader : u ∉ l.readLocks := fun hr => h.reader_not_writer (Or.inl hr) hu
  have notIntent : u ∉ l.readIntentions := fun hi => h.reader_not_writer (Or.inr hi) hu
  simp [clearTx, releaseReadLock, releaseReadIntent, notReader, notIntent, hu.1, hu.2]

end NonBlockingLock

end TxService
