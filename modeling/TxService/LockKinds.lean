import TxService.LockTable

/-!
# One kind of lock per transaction

`ClearTx` stops at the first kind of lock it finds. An upgrade removes the weaker lock, so a
transaction has one kind if it asks only when none of its requests waits.
-/

namespace TxService

open Transition

/-- What an upgrade goes up. -/
def LockType.strength : LockType → Nat
  | .noLock => 0
  | .readIntent => 1
  | .readLock => 2
  | .writeIntent => 3
  | .writeLock => 4

namespace NonBlockingLock

/-- The transaction has a lock of this kind; `noLock` is to have none. -/
def Holds (l : NonBlockingLock) (t : TxNumber) : LockType → Prop
  | .noLock => t ∉ l.readIntentions ∧ t ∉ l.readLocks ∧ l.owner ≠ some t
  | .readIntent => t ∈ l.readIntentions
  | .readLock => t ∈ l.readLocks
  | .writeIntent => l.writeLkType = .writeIntent ∧ l.writeTxn = t
  | .writeLock => l.HoldsWriteLock t

instance (l : NonBlockingLock) (t : TxNumber) (k : LockType) : Decidable (l.Holds t k) :=
  match k with
  | .noLock => inferInstanceAs (Decidable (_ ∧ _))
  | .readIntent | .readLock => inferInstanceAs (Decidable (_ ∈ _))
  | .writeIntent | .writeLock => inferInstanceAs (Decidable (_ ∧ _))

/-- With the requests that wait: nobody is in two places, and only the write lock is asked for by
the transaction that has the write slot. -/
structure Kinds (l : NonBlockingLock) (queue : List LockQueueEntry) : Prop where
  intents : ∀ t ∈ l.readIntentions, t ∉ l.readLocks ∧ l.owner ≠ some t
  reads : ∀ t ∈ l.readLocks, l.owner ≠ some t
  once : (queue.map (·.req.txn)).Nodup
  weaker : ∀ e ∈ queue, e.lkType ≠ .writeLock → l.owner ≠ some e.req.txn

variable {l : NonBlockingLock} {queue : List LockQueueEntry} {t : TxNumber} {e : LockQueueEntry}

theorem searchLock_owner (h : l.owner = some t) :
    l.searchLock t = if l.writeLkType = .writeLock then .writeLock else .writeIntent :=
  if_pos (owner_eq_some.mp h)

theorem searchLock_other (h : l.owner ≠ some t) :
    l.searchLock t =
      if t ∈ l.readLocks then .readLock else if t ∈ l.readIntentions then .readIntent
      else .noLock :=
  if_neg fun owns => h (owner_eq_some.mpr owns)

/-- `SearchLock` looks at the three places of the transaction only. -/
theorem searchLock_congr {l' : NonBlockingLock}
    (slot : l'.owner = some t ∧ l'.writeLkType = l.writeLkType ∧ l.owner = some t ∨
      l'.owner ≠ some t ∧ l.owner ≠ some t) (reads : t ∈ l'.readLocks ↔ t ∈ l.readLocks)
    (intents : t ∈ l'.readIntentions ↔ t ∈ l.readIntentions) :
    l'.searchLock t = l.searchLock t := by
  obtain ⟨owns', kind, owns⟩ | ⟨other', other⟩ := slot
  · rw [searchLock_owner owns', searchLock_owner owns, kind]
  · rw [searchLock_other other', searchLock_other other]
    simp only [reads, intents]

theorem Kinds.holds_iff (h : l.Kinds queue) (t : TxNumber) (k : LockType) :
    l.Holds t k ↔ l.searchLock t = k := by
  by_cases owns : l.owner = some t
  · have notReading : t ∉ l.readLocks := fun reading => h.reads t reading owns
    have noIntent : t ∉ l.readIntentions := fun intent => (h.intents t intent).2 owns
    obtain ⟨taken, txn⟩ := owner_eq_some.mp owns
    rw [searchLock_owner owns]
    cases k <;> cases kind : l.writeLkType <;>
      simp_all [Holds, HoldsWriteLock]
  · have noSlot : ¬ (l.writeLkType ≠ .noWritelock ∧ l.writeTxn = t) :=
      fun slot => owns (owner_eq_some.mpr slot)
    have apart := h.intents t
    rw [searchLock_other owns]
    cases k <;> simp only [Holds, HoldsWriteLock] <;> grind

theorem Kinds.requeue (h : l.Kinds queue) (q : List LockQueueEntry) :
    { l with blockingQueue := q }.Kinds queue :=
  ⟨h.intents, h.reads, h.once, h.weaker⟩

theorem Kinds.sublist (h : l.Kinds queue) {q : List LockQueueEntry} (sub : q.Sublist queue) :
    l.Kinds q :=
  ⟨h.intents, h.reads, h.once.sublist (sub.map _), fun e he => h.weaker e (sub.subset he)⟩

theorem Kinds.upgrade (h : l.Kinds queue) {ty : LockType}
    (write : ty = .writeLock ∨ ty = .writeIntent) (absent : ∀ e ∈ queue, e.req.txn ≠ t) :
    (l.upgradeLock t ty).Kinds queue := by
  have owns : (l.upgradeLock t ty).owner = some t := upgradeLock_owner l t write
  have intentions : (l.upgradeLock t ty).readIntentions = l.readIntentions.erase t := by
    rcases write with rfl | rfl <;> rfl
  have reads : (l.upgradeLock t ty).readLocks = l.readLocks.erase t := by
    rcases write with rfl | rfl <;> rfl
  refine ⟨?_, ?_, h.once, ?_⟩
  · intro u mem
    rw [intentions] at mem
    obtain ⟨other, intent⟩ := Finset.mem_erase.mp mem
    rw [owns, reads]
    exact ⟨fun reading => (h.intents u intent).1 (Finset.mem_of_mem_erase reading),
      by simpa [eq_comm] using other⟩
  · intro u mem
    rw [reads] at mem
    rw [owns]
    simpa [eq_comm] using (Finset.mem_erase.mp mem).1
  · intro e he _
    rw [owns]
    simpa [eq_comm] using absent e he

theorem Kinds.addRead (h : l.Kinds queue) (other : l.owner ≠ some t) :
    (l.addReadLock t).Kinds queue := by
  have owner : (l.addReadLock t).owner = l.owner := rfl
  refine ⟨?_, ?_, h.once, h.weaker⟩
  · intro u mem
    obtain ⟨ne, intent⟩ := Finset.mem_erase.mp mem
    refine ⟨?_, (h.intents u intent).2⟩
    intro reading
    rcases Finset.mem_insert.mp reading with same | reading
    · exact ne same
    · exact (h.intents u intent).1 reading
  · intro u mem
    rw [owner]
    rcases Finset.mem_insert.mp mem with rfl | reading
    · exact other
    · exact h.reads u reading

theorem Kinds.grant {rest : List LockQueueEntry} (h : l.Kinds (e :: rest)) :
    (l.grant e).Kinds rest := by
  have behind : l.Kinds rest := h.sublist (List.sublist_cons_self e rest)
  have absent : ∀ e' ∈ rest, e'.req.txn ≠ e.req.txn := by
    intro e' he' same
    exact (List.nodup_cons.mp h.once).1 (List.mem_map.mpr ⟨e', he', same⟩)
  unfold NonBlockingLock.grant
  split
  · exact behind.upgrade (.inl rfl) absent
  · exact behind.upgrade (.inr rfl) absent
  · rename_i read
    exact behind.addRead (h.weaker e List.mem_cons_self (by simp [read]))
  · exact behind

theorem Kinds.popLoop (h : l.Kinds queue) :
    (l.popLoop queue).1.Kinds (l.popLoop queue).1.blockingQueue := by
  induction queue generalizing l with
  | nil => exact h.requeue []
  | cons e rest ih =>
    simp only [NonBlockingLock.popLoop]
    split
    · exact ih h.grant
    · exact h.requeue (e :: rest)

/-- A grant to one transaction leaves the locks of the others as they are. -/
theorem grant_searchLock_other (free : l.grantable e = true) {u : TxNumber}
    (other : e.req.txn ≠ u) : (l.grant e).searchLock u = l.searchLock u := by
  have slot {ty : LockType} (write : ty = .writeLock ∨ ty = .writeIntent)
      (noWriter : l.noWriteConflict e.req.txn = true) :
      (l.upgradeLock e.req.txn ty).searchLock u = l.searchLock u := by
    have owns : (l.upgradeLock e.req.txn ty).owner = some e.req.txn := upgradeLock_owner l _ write
    refine searchLock_congr (.inr ⟨by simpa [owns] using other, ?_⟩) ?_ ?_
    · rcases noWriteConflict_iff.mp noWriter with free | own
      · simp [free]
      · simpa [own] using other
    · rcases write with rfl | rfl <;> simp [upgradeLock, Ne.symm other]
    · rcases write with rfl | rfl <;> simp [upgradeLock, Ne.symm other]
  unfold grantable at free
  unfold NonBlockingLock.grant
  split at free
  · exact slot (.inl rfl) (Bool.and_eq_true_iff.mp free).1
  · exact slot (.inr rfl) free
  · refine searchLock_congr ?_ (by simp [addReadLock, Ne.symm other])
      (by simp [addReadLock, Ne.symm other])
    by_cases owns : l.owner = some u
    · exact .inl ⟨owns, rfl, owns⟩
    · exact .inr ⟨owns, owns⟩
  · rfl

/-- The transaction of the granted request has what it asked for, which is at least what it had. -/
theorem Kinds.grant_searchLock {rest : List LockQueueEntry} (h : l.Kinds (e :: rest)) :
    (l.grant e).searchLock e.req.txn = l.searchLock e.req.txn ∨
      (l.grant e).searchLock e.req.txn = e.lkType ∧
        (l.searchLock e.req.txn).strength ≤ e.lkType.strength := by
  have noSlot (kind : e.lkType ≠ .writeLock) : (l.searchLock e.req.txn).strength ≤ 2 := by
    rw [searchLock_other (h.weaker e List.mem_cons_self kind)]
    split
    · exact Nat.le_refl 2
    · split <;> simp [LockType.strength]
  unfold NonBlockingLock.grant
  split
  · rename_i kind
    refine .inr ⟨?_, ?_⟩
    · rw [searchLock_owner (upgradeLock_owner l _ (.inl rfl)), kind]
      rfl
    · rw [kind]
      cases l.searchLock e.req.txn <;> simp [LockType.strength]
  · rename_i kind
    refine .inr ⟨?_, ?_⟩
    · rw [searchLock_owner (upgradeLock_owner l _ (.inr rfl)), kind]
      rfl
    · rw [kind]
      exact (noSlot (by simp [kind])).trans (Nat.le_succ 2)
  · rename_i kind
    have other : (l.addReadLock e.req.txn).owner ≠ some e.req.txn :=
      h.weaker e List.mem_cons_self (by simp [kind])
    refine .inr ⟨?_, ?_⟩
    · rw [searchLock_other other, kind]
      simp [addReadLock]
    · rw [kind]
      exact noSlot (by simp [kind])
  · exact .inl rfl

/-- After the queue loop a transaction has what it had, or what its woken request asked for. -/
theorem Kinds.popLoop_searchLock (h : l.Kinds queue) (u : TxNumber) :
    (l.popLoop queue).1.searchLock u = l.searchLock u ∨
      ∃ e ∈ queue, e.req.txn = u ∧ e.req ∈ (l.popLoop queue).2 ∧
        (l.popLoop queue).1.searchLock u = e.lkType ∧
        (l.searchLock u).strength ≤ e.lkType.strength := by
  induction queue generalizing l with
  | nil => exact .inl rfl
  | cons e rest ih =>
    simp only [NonBlockingLock.popLoop]
    split
    · rename_i free
      obtain unchanged | ⟨e', he', txn, woken, got, up⟩ := ih h.grant
      · rw [unchanged]
        by_cases own : e.req.txn = u
        · subst own
          obtain same | ⟨got, up⟩ := h.grant_searchLock
          · exact .inl same
          · exact .inr ⟨e, List.mem_cons_self, rfl, List.mem_cons_self, got, up⟩
        · exact .inl (grant_searchLock_other free own)
      · have other : e.req.txn ≠ u := fun own =>
          (List.nodup_cons.mp h.once).1 (List.mem_map.mpr ⟨e', he', txn.trans own.symm⟩)
        rw [grant_searchLock_other free other] at up
        exact .inr ⟨e', List.mem_cons_of_mem e he', txn, List.mem_cons_of_mem _ woken, got, up⟩
    · exact .inl rfl

theorem findQueueRequest_eq_false :
    l.findQueueRequest t = false ↔ ∀ e ∈ l.blockingQueue, e.req.txn ≠ t := by
  simp [findQueueRequest]

theorem Kinds.enqueue (h : l.Kinds l.blockingQueue) {req : CcRequest} {ty : LockType}
    (absent : ∀ e ∈ l.blockingQueue, e.req.txn ≠ req.txn)
    (weaker : ty ≠ .writeLock → l.owner ≠ some req.txn) :
    (l.enqueue req ty).Kinds (l.enqueue req ty).blockingQueue := by
  refine ⟨h.intents, h.reads, ?_, ?_⟩
  · simp only [NonBlockingLock.enqueue, List.map_append, List.map_cons, List.map_nil]
    refine List.nodup_append.mpr ⟨h.once, List.nodup_singleton _, ?_⟩
    intro t ht t' ht' same
    obtain ⟨e, he, rfl⟩ := List.mem_map.mp ht
    exact absent e he (same.trans (List.mem_singleton.mp ht'))
  · intro e he
    rcases List.mem_append.mp he with he | he
    · exact h.weaker e he
    · rw [List.mem_singleton.mp he]
      exact weaker

theorem acquireLock_kinds (h : l.Kinds l.blockingQueue) (req : CcRequest) (protocol : CcProtocol)
    (ty : LockType) (absent : ∀ e ∈ l.blockingQueue, e.req.txn ≠ req.txn) :
    (l.acquireLock req protocol ty).2.Kinds (l.acquireLock req protocol ty).2.blockingQueue := by
  cases ty with
  | noLock => exact h
  | readIntent =>
    simp only [acquireLock, acquireReadIntent]
    split
    · exact h
    · rename_i nothing
      rw [not_or, not_or, ← owner_eq_some] at nothing
      obtain ⟨notReading, -, noSlot⟩ := nothing
      refine ⟨?_, h.reads, h.once, h.weaker⟩
      intro u mem
      rcases Finset.mem_insert.mp mem with rfl | intent
      · exact ⟨notReading, noSlot⟩
      · exact h.intents u intent
  | readLock =>
    simp only [acquireLock, acquireReadLock]
    split
    · exact h
    · rename_i nothing
      rw [not_or, ← owner_eq_some] at nothing
      split
      · exact h.addRead nothing.2
      · exact h.enqueue absent fun _ => nothing.2
  | writeIntent =>
    simp only [acquireLock, acquireWriteIntent]
    split
    · exact h
    · rename_i noSlot
      rw [← owner_eq_some] at noSlot
      split
      · exact h.upgrade (.inr rfl) absent
      · split
        · exact h.enqueue absent fun _ => noSlot
        · exact h
  | writeLock =>
    simp only [acquireLock, acquireWriteLock]
    split
    · exact h
    · split
      · exact h.upgrade (.inl rfl) absent
      · split
        · exact h.enqueue absent fun write => absurd rfl write
        · exact h

theorem Kinds.dropRead (h : l.Kinds queue) (t : TxNumber) :
    { l with readLocks := l.readLocks.erase t }.Kinds queue :=
  ⟨fun u intent => ⟨fun reading => (h.intents u intent).1 (Finset.mem_of_mem_erase reading),
      (h.intents u intent).2⟩,
    fun u reading => h.reads u (Finset.mem_of_mem_erase reading), h.once, h.weaker⟩

theorem Kinds.dropIntent (h : l.Kinds queue) (t : TxNumber) :
    (l.releaseReadIntent t).2.Kinds queue :=
  ⟨fun u intent => h.intents u (Finset.mem_of_mem_erase intent), h.reads, h.once, h.weaker⟩

theorem Kinds.dropWrite (h : l.Kinds queue) : l.dropWrite.Kinds queue := by
  have free : l.dropWrite.owner = none := rfl
  exact ⟨fun u intent => ⟨(h.intents u intent).1, by simp [free]⟩, fun _ _ => by simp [free], h.once,
    fun _ _ _ => by simp [free]⟩

theorem Kinds.downgrade (h : l.Kinds queue) (taken : l.writeLkType = .writeLock) :
    { l with writeLkType := .writeIntent }.Kinds queue := by
  have owner : { l with writeLkType := .writeIntent }.owner = l.owner := by
    simp [NonBlockingLock.owner, taken]
  exact ⟨fun u intent => owner ▸ h.intents u intent, fun u reading => owner ▸ h.reads u reading, h.once,
    fun e he weaker => owner ▸ h.weaker e he weaker⟩

theorem clearTx_kinds (h : l.Kinds l.blockingQueue) (t : TxNumber) :
    (l.clearTx t).2.1.Kinds (l.clearTx t).2.1.blockingQueue := by
  simp only [clearTx, releaseReadLock]
  by_cases reading : t ∈ l.readLocks
  · simp only [reading, ↓reduceIte]
    exact (h.dropRead t).popLoop
  · simp only [reading, ↓reduceIte, Bool.false_eq_true]
    split
    · exact h.dropIntent t
    · split
      · exact h.dropWrite.popLoop
      · exact h

/-- What a transaction has after the locks of `t` are dropped and the queue is served: the lock it
had, or a stronger one that its woken request asked for. -/
def StillHolds (l : NonBlockingLock) (r : NonBlockingLock × List CcRequest) (u : TxNumber)
    (had : LockType) : Prop :=
  r.1.searchLock u = had ∨
    ∃ e ∈ l.blockingQueue, e.req.txn = u ∧ e.req ∈ r.2 ∧ r.1.searchLock u = e.lkType ∧
      had.strength ≤ e.lkType.strength

theorem searchLock_eq_noLock (noSlot : l.owner ≠ some t) (notReading : t ∉ l.readLocks)
    (noIntent : t ∉ l.readIntentions) : l.searchLock t = .noLock := by
  rw [searchLock_other noSlot, if_neg notReading, if_neg noIntent]

theorem clearTx_stillHolds (h : l.Kinds l.blockingQueue) (t u : TxNumber) :
    l.StillHolds (l.clearTx t).2 u (if u = t then .noLock else l.searchLock u) := by
  have same {d : NonBlockingLock} (owner : d.owner = l.owner)
      (kind : d.writeLkType = l.writeLkType) :
      d.owner = some u ∧ d.writeLkType = l.writeLkType ∧ l.owner = some u ∨
        d.owner ≠ some u ∧ l.owner ≠ some u := by
    by_cases owns : l.owner = some u
    · exact .inl ⟨owner.trans owns, kind, owns⟩
    · exact .inr ⟨owner ▸ owns, owns⟩
  simp only [clearTx, releaseReadLock]
  by_cases reading : t ∈ l.readLocks
  · simp only [reading, ↓reduceIte]
    have dropped : { l with readLocks := l.readLocks.erase t }.searchLock u =
        if u = t then .noLock else l.searchLock u := by
      split
      · rename_i own
        subst own
        exact searchLock_eq_noLock (h.reads u reading) (Finset.notMem_erase u _)
          fun intent => (h.intents u intent).1 reading
      · rename_i other
        exact searchLock_congr (same rfl rfl) (by simp [other]) Iff.rfl
    rw [← dropped]
    exact (h.dropRead t).popLoop_searchLock u
  · simp only [reading, ↓reduceIte, Bool.false_eq_true]
    split
    · rename_i intent
      have intent : t ∈ l.readIntentions := of_decide_eq_true intent
      left
      split
      · rename_i own
        subst own
        exact searchLock_eq_noLock (h.intents u intent).2 reading (Finset.notMem_erase u _)
      · rename_i other
        exact searchLock_congr (same rfl rfl) Iff.rfl (by simp [releaseReadIntent, other])
    · rename_i noIntent
      have noIntent : t ∉ l.readIntentions := fun intent => noIntent (decide_eq_true intent)
      split
      · rename_i slot
        have dropped : l.dropWrite.searchLock u = if u = t then .noLock else l.searchLock u := by
          have free : l.dropWrite.owner = none := rfl
          split
          · rename_i own
            subst own
            exact searchLock_eq_noLock (by simp [free]) reading noIntent
          · rename_i other
            refine searchLock_congr (.inr ⟨by simp [free], ?_⟩) Iff.rfl Iff.rfl
            simpa [owner_eq_some.mpr slot, eq_comm] using other
        rw [← dropped]
        exact h.dropWrite.popLoop_searchLock u
      · rename_i noSlot
        rw [← owner_eq_some] at noSlot
        left
        split
        · rename_i own
          subst own
          exact searchLock_eq_noLock noSlot reading noIntent
        · rfl

end NonBlockingLock

open NonBlockingLock

/-- A transaction asks for a lock when none of its requests waits, a snapshot read waits for the
write lock of another transaction, and there are no fast reads. -/
def LockOp.InTurn (s : LockTable) : LockOp → Prop
  | .acquireLock req _ _ => s.lock.findQueueRequest req.txn = false
  | .insertBlockingQueue req =>
    s.lock.findQueueRequest req.txn = false ∧ s.lock.writeTxn ≠ req.txn
  | .acquireReadLockFast _ | .releaseReadLockFast _ => False
  | _ => True

namespace LockTable

def ReachedInTurn : LockTable → Prop :=
  Reachable (· = initial) fun s op t => op.InTurn s ∧ Step s op t

variable {s : LockTable}

theorem ReachedInTurn.exec (h : ReachedInTurn s) (op : LockOp) (turn : op.InTurn s)
    (enabled : op.Enabled s) : ReachedInTurn (op.exec s) :=
  Reachable.next h ⟨turn, enabled, rfl⟩

theorem step_kinds {s t : LockTable} {op : LockOp} (turn : op.InTurn s) (step : Step s op t)
    (h : s.lock.Kinds s.lock.blockingQueue) : t.lock.Kinds t.lock.blockingQueue := by
  obtain ⟨enabled, rfl⟩ := step
  cases op with
  | acquireLock req protocol ty =>
    exact acquireLock_kinds h req protocol ty (findQueueRequest_eq_false.mp turn)
  | acquireReadLockFast u => exact turn.elim
  | releaseReadLockFast u => exact turn.elim
  | releaseReadLock u =>
    simp only [LockOp.exec, releaseReadLock]
    split
    · exact (h.dropRead u).popLoop
    · exact h
  | releaseWriteLock u ccs =>
    simp only [LockOp.exec, releaseWriteLock]
    split
    · exact h
    · split
      · exact h.dropWrite
      · exact h.dropWrite.popLoop
  | releaseWriteIntent u =>
    simp only [LockOp.exec, releaseWriteIntent]
    split
    · exact h
    · exact h.dropWrite.popLoop
  | releaseReadIntent u => exact h.dropIntent u
  | downgradeWriteLock u =>
    simp only [LockOp.exec, downgradeWriteLock]
    split
    · exact h
    · rename_i holds
      rw [not_or, not_not] at holds
      exact (h.downgrade holds.1).popLoop
  | clearTx u => exact clearTx_kinds h u
  | insertBlockingQueue req =>
    have locked : s.lock.writeLkType = .writeLock := enabled
    obtain ⟨absent, other⟩ := turn
    refine ⟨h.intents, h.reads, List.nodup_cons.mpr ⟨?_, h.once⟩, ?_⟩
    · intro queued
      obtain ⟨e, he, same⟩ := List.mem_map.mp queued
      exact findQueueRequest_eq_false.mp absent e he same
    · intro e he weaker
      rcases List.mem_cons.mp he with rfl | he
      · exact fun owns => other (owner_eq_some.mp owns).2
      · exact h.weaker e he weaker
  | abortQueueRequest u => exact (h.sublist List.filter_sublist).requeue _
  | abortAllQueuedRequests => exact (h.sublist (List.nil_sublist _)).requeue _

theorem reachedInTurn_kinds (h : ReachedInTurn s) :
    s.lock.Kinds s.lock.blockingQueue := by
  refine h.invariant (P := fun s => s.lock.Kinds s.lock.blockingQueue) ?_ ?_
  · rintro s rfl
    exact ⟨by simp [initial, reset], by simp [initial, reset], List.nodup_nil, by simp [initial, reset]⟩
  · rintro s op t ⟨turn, step⟩ kinds
    exact step_kinds turn step kinds

/-- **One kind of lock per transaction.** A transaction holds exactly the kind of lock that
`SearchLock` returns. `ClearTx` of a transaction that does not wait leaves it without a lock, and
every other transaction keeps its lock or gets the stronger one it waits for. -/
theorem one_kind_per_tx {s : LockTable} (h : ReachedInTurn s) (t : TxNumber) :
    (∀ k, s.lock.Holds t k ↔ s.lock.searchLock t = k) ∧
      (s.lock.findQueueRequest t = false → (s.lock.clearTx t).2.1.searchLock t = .noLock) ∧
      ∀ u, u ≠ t → s.lock.StillHolds (s.lock.clearTx t).2 u (s.lock.searchLock u) := by
  have kinds := reachedInTurn_kinds h
  refine ⟨kinds.holds_iff t, ?_, ?_⟩
  · intro absent
    obtain cleared | ⟨e, he, own, -⟩ := clearTx_stillHolds kinds t t
    · simpa using cleared
    · exact absurd own (findQueueRequest_eq_false.mp absent e he)
  · intro u other
    simpa [other] using clearTx_stillHolds kinds t u

/-- Transaction 1 reads; 2 has a read intent and waits for the write lock. -/
theorem one_kind_per_tx_waiting_upgrade :
    let s := (LockOp.acquireLock ⟨2, 1⟩ .locking .writeLock).exec
      ((LockOp.acquireLock ⟨2, 0⟩ .locking .readIntent).exec
        ((LockOp.acquireLock ⟨1, 0⟩ .locking .readLock).exec initial))
    s.lock.Holds 1 .readLock ∧ (s.lock.clearTx 1).2.1.searchLock 1 = .noLock ∧
      s.lock.StillHolds (s.lock.clearTx 1).2 2 .readIntent ∧
      (s.lock.clearTx 1).2.1.searchLock 2 = .writeLock := by
  intro s
  have reading := ReachedInTurn.exec (.start rfl) (.acquireLock ⟨1, 0⟩ .locking .readLock) rfl trivial
  have intending := reading.exec (.acquireLock ⟨2, 0⟩ .locking .readIntent) rfl trivial
  have reached : ReachedInTurn s := intending.exec (.acquireLock ⟨2, 1⟩ .locking .writeLock) rfl trivial
  obtain ⟨kind, cleared, others⟩ := one_kind_per_tx reached 1
  exact ⟨(kind .readLock).mpr (by decide), cleared (by decide), others 2 (by decide), by decide⟩

theorem Reached.foldl (h : Reached s) (ops : List LockOp)
    (enabled : ∀ op ∈ ops, ∀ s, op.Enabled s) :
    Reached (ops.foldl (fun s op => op.exec s) s) := by
  induction ops generalizing s with
  | nil => exact h
  | cons op ops ih =>
    exact ih (h.exec op (enabled op List.mem_cons_self s)) fun op' later =>
      enabled op' (List.mem_cons_of_mem op later)

/-- Transaction 4 asks for the read lock a second time while its first request waits, passes the
queue behind a write intent and takes the write lock. The old request is granted when 4 downgrades:
4 is a reader and has the write intent, and a clear takes one of the two away. -/
theorem second_request_gives_two_kinds :
    let ops : List LockOp :=
      [.acquireLock ⟨1, 0⟩ .locking .writeLock, .acquireLock ⟨2, 0⟩ .locking .writeIntent,
        .acquireLock ⟨3, 0⟩ .locking .writeLock, .acquireLock ⟨4, 0⟩ .locking .readLock,
        .downgradeWriteLock 1, .acquireLock ⟨4, 1⟩ .locking .readLock, .releaseWriteIntent 1,
        .releaseWriteIntent 2, .acquireLock ⟨4, 2⟩ .locking .writeLock, .abortQueueRequest 3,
        .downgradeWriteLock 4]
    let run (n : Nat) := (ops.take n).foldl (fun s op => op.exec s) initial
    (∀ n ≤ 11, ((run n).lock.blockingQueue.map (·.req.txn)).Nodup) ∧ Reached (run 11) ∧
      (run 11).lock.Holds 4 .readLock ∧ (run 11).lock.Holds 4 .writeIntent ∧
      (run 11).lock.findQueueRequest 4 = false ∧
      ((run 11).lock.clearTx 4).2.1.searchLock 4 = .writeIntent := by
  intro ops run
  have reached : Reached (run 11) := Reached.foldl (.start rfl) ops (by simp [ops, LockOp.Enabled])
  exact ⟨by decide, reached, by decide, by decide, by decide, by decide⟩

end LockTable

end TxService
