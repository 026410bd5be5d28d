import TxService.NonBlockingLock
import TxService.Transition

/-!
# One lock under any order of operations

The lock together with the transactions whose fast reads are outstanding, of which the code only
keeps the number. A step is one call of the lock's interface.
-/

namespace TxService

open Transition

namespace NonBlockingLock

/-- The transaction in the write slot, with the write lock or the intent. -/
def owner (l : NonBlockingLock) : Option TxNumber :=
  if l.writeLkType = .noWritelock then none else some l.writeTxn

/-- `HasWriteLock(txn)`. -/
def HoldsWriteLock (l : NonBlockingLock) (txn : TxNumber) : Prop :=
  l.writeLkType = .writeLock ∧ l.writeTxn = txn

instance (l : NonBlockingLock) (txn : TxNumber) : Decidable (l.HoldsWriteLock txn) :=
  inferInstanceAs (Decidable (_ ∧ _))

variable {l : NonBlockingLock} {t : TxNumber}

theorem owner_eq_some :
    l.owner = some t ↔ l.writeLkType ≠ .noWritelock ∧ l.writeTxn = t := by
  unfold owner
  split <;> simp_all

theorem HoldsWriteLock.owner (h : l.HoldsWriteLock t) :
    l.owner = some t :=
  owner_eq_some.mpr ⟨by simp [h.1], h.2⟩

/-- The induction behind every fact about `TryPopBlockingQueue`: what a grant
keeps, and the queue's content does not matter to, the whole loop keeps. -/
theorem popLoop_preserves {P : NonBlockingLock → Prop}
    (queue : ∀ l q, P l → P { l with blockingQueue := q })
    (grant : ∀ l e, P l → l.grantable e = true → P (l.grant e))
    (q : List LockQueueEntry) (l : NonBlockingLock) (h : P l) : P (l.popLoop q).1 := by
  induction q generalizing l with
  | nil => exact queue l [] h
  | cons e rest ih =>
    simp only [popLoop]
    split
    · rename_i hg
      exact ih (l.grant e) (grant l e h hg)
    · exact queue l _ h

theorem popLoop_stuck (q : List LockQueueEntry) (l : NonBlockingLock) {e : LockQueueEntry}
    {rest : List LockQueueEntry} (h : (l.popLoop q).1.blockingQueue = e :: rest) :
    (l.popLoop q).1.grantable e = false := by
  induction q generalizing l with
  | nil => simp [popLoop] at h
  | cons e' rest' ih =>
    simp only [popLoop] at h ⊢
    split
    · rename_i hg
      simp only [hg, ↓reduceIte] at h
      exact ih (l.grant e') h
    · rename_i hg
      simp only [hg, Bool.false_eq_true, ↓reduceIte, List.cons.injEq] at h
      obtain ⟨rfl, rfl⟩ := h
      simpa [grantable, noWriteConflict, noReadLockConflict, noWriteLockConflict] using hg

theorem noWriteConflict_iff :
    l.noWriteConflict t = true ↔ l.owner = none ∨ l.owner = some t := by
  unfold noWriteConflict owner
  split <;> simp_all

theorem upgradeLock_owner (l : NonBlockingLock) (t : TxNumber) {ty : LockType}
    (h : ty = .writeLock ∨ ty = .writeIntent) : (l.upgradeLock t ty).owner = some t := by
  rcases h with rfl | rfl <;> simp [upgradeLock, owner]

theorem grant_keeps_owner {e : LockQueueEntry} (hg : l.grantable e = true) (h : l.owner = some t) :
    (l.grant e).owner = some t := by
  have same (hc : l.noWriteConflict e.req.txn = true) : e.req.txn = t := by
    rcases noWriteConflict_iff.mp hc with ho | ho <;> simp_all
  unfold grantable at hg
  unfold grant
  split at hg
  · have := same (Bool.and_eq_true_iff.mp hg).1
    simp [upgradeLock_owner, this]
  · simp [upgradeLock_owner, same hg]
  · exact h
  · exact h

theorem popLoop_keeps_owner (q : List LockQueueEntry) (h : l.owner = some t) :
    (l.popLoop q).1.owner = some t :=
  popLoop_preserves (P := fun l => l.owner = some t) (fun _ _ h => h)
    (fun _ _ h hg => grant_keeps_owner hg h) q l h

theorem tryPopBlockingQueue_keeps_owner (h : l.owner = some t) :
    l.tryPopBlockingQueue.1.owner = some t :=
  popLoop_keeps_owner _ h

theorem acquireLock_keeps_owner (req : CcRequest) (protocol : CcProtocol) (ty : LockType)
    (h : l.owner = some t) :
    (l.acquireLock req protocol ty).2.owner = some t := by
  have same (hc : l.noWriteConflict req.txn = true) : req.txn = t := by
    rcases noWriteConflict_iff.mp hc with ho | ho <;> simp_all
  cases ty with
  | noLock => exact h
  | readIntent =>
    simp only [acquireLock, acquireReadIntent]
    split <;> exact h
  | readLock =>
    simp only [acquireLock, acquireReadLock]
    split
    · exact h
    · split <;> exact h
  | writeIntent =>
    simp only [acquireLock, acquireWriteIntent]
    split
    · exact h
    · split
      · rename_i hc
        simp [upgradeLock_owner, same (Bool.and_eq_true_iff.mp hc).1]
      · split <;> exact h
  | writeLock =>
    simp only [acquireLock, acquireWriteLock]
    split
    · exact h
    · split
      · rename_i hc
        simp [upgradeLock_owner, same (Bool.and_eq_true_iff.mp hc).1]
      · split <;> exact h

theorem releaseReadLock_keeps_owner (u : TxNumber) (h : l.owner = some t) :
    (l.releaseReadLock u).2.1.owner = some t := by
  unfold releaseReadLock
  split
  · exact tryPopBlockingQueue_keeps_owner h
  · exact h

theorem downgradeWriteLock_keeps_owner (u : TxNumber) (h : l.owner = some t) :
    (l.downgradeWriteLock u).1.owner = some t := by
  unfold downgradeWriteLock
  split
  · exact h
  · have hw := (owner_eq_some.mp h).2
    exact tryPopBlockingQueue_keeps_owner (by simp [owner, hw])

/-- A release call empties the write slot of its caller only, and then says so. -/
theorem releaseWriteLock_keeps_owner (u : TxNumber) (ccs : Bool) (h : l.owner = some t) :
    (l.releaseWriteLock u ccs).2.1.owner = some t ∨
      u = t ∧ (l.releaseWriteLock u ccs).1 = true := by
  have hw := (owner_eq_some.mp h).2
  unfold releaseWriteLock
  split
  · exact Or.inl h
  · rename_i hc
    rw [not_or, not_not, not_not] at hc
    refine Or.inr ⟨hc.2.symm.trans hw, ?_⟩
    split <;> rfl

theorem releaseWriteIntent_keeps_owner (u : TxNumber) (h : l.owner = some t) :
    (l.releaseWriteIntent u).2.1.owner = some t ∨
      u = t ∧ (l.releaseWriteIntent u).1 = true := by
  have hw := (owner_eq_some.mp h).2
  unfold releaseWriteIntent
  split
  · exact Or.inl h
  · rename_i hc
    rw [not_or, not_not, not_not] at hc
    exact Or.inr ⟨hc.2.symm.trans hw, rfl⟩

theorem clearTx_keeps_owner (u : TxNumber) (h : l.owner = some t) :
    (l.clearTx u).2.1.owner = some t ∨
      u = t ∧ ((l.clearTx u).1 = .writeLock ∨ (l.clearTx u).1 = .writeIntent) := by
  have hw := (owner_eq_some.mp h).2
  simp only [clearTx]
  split
  · exact Or.inl (releaseReadLock_keeps_owner u h)
  · split
    · exact Or.inl h
    · split
      · rename_i hc
        refine Or.inr ⟨hc.2.symm.trans hw, ?_⟩
        split <;> simp
      · exact Or.inl h

end NonBlockingLock

/-- The lock, and the transactions whose fast catalog reads are outstanding. -/
structure LockTable where
  lock : NonBlockingLock
  fastReaders : List TxNumber
  deriving DecidableEq

def LockTable.initial : LockTable := ⟨.reset, []⟩

inductive LockOp
  | acquireLock (req : CcRequest) (protocol : CcProtocol) (lockType : LockType)
  | acquireReadLockFast (txn : TxNumber)
  | releaseReadLockFast (txn : TxNumber)
  | releaseReadLock (txn : TxNumber)
  | releaseWriteLock (txn : TxNumber) (ccs : Bool)
  | releaseWriteIntent (txn : TxNumber)
  | releaseReadIntent (txn : TxNumber)
  | downgradeWriteLock (txn : TxNumber)
  | clearTx (txn : TxNumber)
  | insertBlockingQueue (req : CcRequest)
  | abortQueueRequest (txn : TxNumber)
  | abortAllQueuedRequests
  deriving DecidableEq, Repr

/-- What the callers guarantee: a fast read is released by a transaction that
has one, and a snapshot read is queued only behind a write lock. -/
def LockOp.Enabled (s : LockTable) : LockOp → Prop
  | .releaseReadLockFast txn => txn ∈ s.fastReaders
  | .insertBlockingQueue _ => s.lock.writeLkType = .writeLock
  | _ => True

def LockOp.exec (s : LockTable) : LockOp → LockTable
  | .acquireLock req protocol ty => { s with lock := (s.lock.acquireLock req protocol ty).2 }
  | .acquireReadLockFast txn =>
    let r := s.lock.acquireReadLockFast txn
    ⟨r.2, if r.1 then txn :: s.fastReaders else s.fastReaders⟩
  | .releaseReadLockFast txn => ⟨s.lock.releaseReadLockFast.2.1, s.fastReaders.erase txn⟩
  | .releaseReadLock txn => { s with lock := (s.lock.releaseReadLock txn).2.1 }
  | .releaseWriteLock txn ccs => { s with lock := (s.lock.releaseWriteLock txn ccs).2.1 }
  | .releaseWriteIntent txn => { s with lock := (s.lock.releaseWriteIntent txn).2.1 }
  | .releaseReadIntent txn => { s with lock := (s.lock.releaseReadIntent txn).2 }
  | .downgradeWriteLock txn => { s with lock := (s.lock.downgradeWriteLock txn).1 }
  | .clearTx txn => { s with lock := (s.lock.clearTx txn).2.1 }
  | .insertBlockingQueue req => { s with lock := s.lock.insertBlockingQueue req .readLock }
  | .abortQueueRequest txn => { s with lock := (s.lock.abortQueueRequest txn).1 }
  | .abortAllQueuedRequests => { s with lock := s.lock.abortAllQueuedRequests.1 }

namespace LockTable

def Step (s : LockTable) (op : LockOp) (t : LockTable) : Prop := op.Enabled s ∧ t = op.exec s

/-- Every state any finite sequence of operations reaches after `Reset`. -/
def Reached : LockTable → Prop := Reachable (· = initial) Step

theorem Reached.exec {s : LockTable} (h : Reached s) (op : LockOp) (enabled : op.Enabled s) :
    Reached (op.exec s) :=
  Reachable.next h ⟨enabled, rfl⟩

/-- The calls by which a transaction gives up the write slot it has: a release
that succeeds, or a clear that finds the write lock or the intent. -/
def Releases (txn : TxNumber) (s : LockTable) : LockOp → Prop
  | .releaseWriteLock u ccs => u = txn ∧ (s.lock.releaseWriteLock u ccs).1 = true
  | .releaseWriteIntent u => u = txn ∧ (s.lock.releaseWriteIntent u).1 = true
  | .clearTx u =>
    u = txn ∧ ((s.lock.clearTx u).1 = .writeLock ∨ (s.lock.clearTx u).1 = .writeIntent)
  | _ => False

/-- One operation leaves the write slot with its owner, unless the owner itself
releases it or is cleared. -/
theorem step_keeps_owner {s t : LockTable} {op : LockOp} (h : Step s op t) {txn : TxNumber}
    (ho : s.lock.owner = some txn) : t.lock.owner = some txn ∨ Releases txn s op := by
  obtain ⟨-, rfl⟩ := h
  cases op with
  | acquireLock req protocol ty =>
    exact Or.inl (NonBlockingLock.acquireLock_keeps_owner req protocol ty ho)
  | acquireReadLockFast u =>
    left
    simp only [LockOp.exec, NonBlockingLock.acquireReadLockFast]
    split <;> exact ho
  | releaseReadLockFast u =>
    exact Or.inl (NonBlockingLock.tryPopBlockingQueue_keeps_owner ho)
  | releaseReadLock u => exact Or.inl (NonBlockingLock.releaseReadLock_keeps_owner u ho)
  | releaseWriteLock u ccs => exact NonBlockingLock.releaseWriteLock_keeps_owner u ccs ho
  | releaseWriteIntent u => exact NonBlockingLock.releaseWriteIntent_keeps_owner u ho
  | releaseReadIntent u => exact Or.inl ho
  | downgradeWriteLock u => exact Or.inl (NonBlockingLock.downgradeWriteLock_keeps_owner u ho)
  | clearTx u => exact NonBlockingLock.clearTx_keeps_owner u ho
  | insertBlockingQueue req => exact Or.inl ho
  | abortQueueRequest u => exact Or.inl ho
  | abortAllQueuedRequests => exact Or.inl ho

end LockTable

end TxService
