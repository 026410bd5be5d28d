import TxService.LockRequests

/-!
# What the shard's lock functions do to the locks

`AcquireCceKeyLock`, `LockHandleForResumedRequest` and `ReleaseCceLock` in terms of the effects a
request and a release have on one lock. They keep the discipline of every lock as long as a
transaction has one outstanding request per entry, and a write lock stays with its holder through
the calls of others.
-/

namespace TxService

namespace CcShard

open NonBlockingLock

variable {K V : Type} [DecidableEq K]

@[simp] theorem keyLock_setKeyLock (s : CcShard K V) (cce : Cce K) (l : NonBlockingLock) :
    (s.setKeyLock cce l).keyLock cce = l := by simp [keyLock, setKeyLock]

theorem keyLock_setKeyLock_ne (s : CcShard K V) {cce c : Cce K} (l : NonBlockingLock)
    (h : c ≠ cce) : (s.setKeyLock cce l).keyLock c = s.keyLock c := by
  simp [keyLock, setKeyLock, h]

omit [DecidableEq K] in
@[simp] theorem keyLock_enqueue (s : CcShard K V) (cce c : Cce K) (reqs : List CcRequest) :
    (s.enqueue cce reqs).keyLock c = s.keyLock c := rfl

theorem keyLock_recycle (s : CcShard K V) (cce c : Cce K) :
    Alike (s.keyLock c) ((s.recycleKeyLock cce).keyLock c) := by
  unfold recycleKeyLock
  split
  · rename_i empty
    by_cases hc : c = cce
    · subst hc
      have : ({ s with locks := Function.update s.locks c none } : CcShard K V).keyLock c = reset := by
        simp [keyLock]
      rw [this]
      exact isEmpty_alike empty
    · have : ({ s with locks := Function.update s.locks cce none } : CcShard K V).keyLock c =
          s.keyLock c := by simp [keyLock, hc]
      rw [this]
      exact Alike.refl _
  · exact Alike.refl _

theorem keyLock_recycle_ne (s : CcShard K V) {cce c : Cce K} (h : c ≠ cce) :
    (s.recycleKeyLock cce).keyLock c = s.keyLock c := by
  unfold recycleKeyLock
  split
  · simp [keyLock, h]
  · rfl

/-- What locking leaves alone. -/
structure LockFrame (s s' : CcShard K V) : Prop where
  entries : s'.entries = s.entries
  lastReadTs : s'.lastReadTs = s.lastReadTs
  now : s'.now = s.now

theorem LockFrame.recycle {s s' : CcShard K V} (h : LockFrame s s') (cce : Cce K) :
    LockFrame s (s'.recycleKeyLock cce) := by
  unfold recycleKeyLock
  split <;> exact ⟨h.entries, h.lastReadTs, h.now⟩

theorem recycle_keeps (s : CcShard K V) (cce : Cce K) :
    (s.recycleKeyLock cce).ccQueue = s.ccQueue ∧
      (s.recycleKeyLock cce).lockHoldingTxs = s.lockHoldingTxs := by
  unfold recycleKeyLock
  split <;> exact ⟨rfl, rfl⟩

/-- Everything `AcquireCceKeyLock` can do. -/
inductive AcquireCases (s : CcShard K V) (cce : Cce K) (req : CcRequest) (txTerm : Int)
    (lockType : LockType) (protocol : CcProtocol) (readTs : Nat) (tableType : TableType)
    (snapshotRead : Prop) : (LockType × CcErrorCode) × CcShard K V → Prop
  | conflict : AcquireCases s cce req txTerm lockType protocol readTs tableType snapshotRead
      ((.noLock, .mvccReadForWriteConflict), s)
  | mustWait (read : snapshotRead) (wait : s.mustWaitWrite cce readTs = true) :
      AcquireCases s cce req txTerm lockType protocol readTs tableType snapshotRead
        ((.noLock, .mvccReadMustWaitWrite),
          s.setKeyLock cce ((s.keyLock cce).insertBlockingQueue req .readLock))
  | unlocked (free : snapshotRead → s.mustWaitWrite cce readTs = false)
      (kind : lockType ≠ .writeLock) :
      AcquireCases s cce req txTerm lockType protocol readTs tableType snapshotRead
        ((.noLock, .noError), s)
  | granted (ok : ((s.keyLock cce).acquireLock req protocol lockType).1 = .successful)
      (free : snapshotRead → s.mustWaitWrite cce readTs = false) :
      AcquireCases s cce req txTerm lockType protocol readTs tableType snapshotRead
        ((lockType, .noError),
          (s.setKeyLock cce ((s.keyLock cce).acquireLock req protocol lockType).2).upsertLockHoldingTx
            req.txn txTerm cce (decide (lockType = .writeLock)) tableType)
  | failed (err : CcErrorCode)
      (kind : err = .acquireKeyLockFailedForRwConflict ∨ err = .acquireKeyLockFailedForWwConflict) :
      AcquireCases s cce req txTerm lockType protocol readTs tableType snapshotRead
        ((lockType, err), s.setKeyLock cce (s.keyLock cce))
  | blocked (kind : lockType ≠ .noLock) :
      AcquireCases s cce req txTerm lockType protocol readTs tableType snapshotRead
        ((lockType, .acquireLockBlocked),
          s.setKeyLock cce ((s.keyLock cce).acquireLock req protocol lockType).2)

theorem acquireCceKeyLock_cases (s : CcShard K V) (cce : Cce K) (commitTs : Nat)
    (status : RecordStatus) (req : CcRequest) (txTerm : Int) (lockType : LockType)
    (ccOp : CcOperation) (isoLevel : IsolationLevel) (protocol : CcProtocol) (readTs : Nat)
    (tableType : TableType) :
    AcquireCases s cce req txTerm lockType protocol readTs tableType
      (isoLevel = .snapshot ∧ (ccOp = .read ∨ ccOp = .readSkIndex))
      (s.acquireCceKeyLock cce commitTs status req txTerm lockType ccOp isoLevel protocol readTs
        tableType) := by
  unfold acquireCceKeyLock
  split
  · exact .conflict
  · split
    · rename_i hw
      exact .mustWait ⟨hw.1, hw.2.1⟩ hw.2.2
    · rename_i hw
      have free (hs : isoLevel = .snapshot ∧ (ccOp = .read ∨ ccOp = .readSkIndex)) :
          s.mustWaitWrite cce readTs = false :=
        Bool.eq_false_iff.mpr fun wait => hw ⟨hs.1, hs.2, wait⟩
      split
      · rename_i kind
        exact .unlocked free (by rintro rfl; simp at kind)
      · rename_i kind
        simp only
        split
        · rename_i ok
          exact .granted ok free
        · rename_i failed
          rw [acquireLock_failed failed]
          refine .failed _ ?_
          split
          · exact Or.inl rfl
          · exact Or.inr rfl
        · exact .blocked fun hn => kind (Or.inl hn)

/-- A request at `cce`: its effect on that lock, and on nothing else. -/
structure RequestedAt (req : CcRequest) (ty : LockType) (cce : Cce K) (s s' : CcShard K V) :
    Prop extends LockFrame s s' where
  lock : Requested req ty (s.keyLock cce) (s'.keyLock cce)
  others : ∀ c ≠ cce, s'.keyLock c = s.keyLock c
  ccQueue : s'.ccQueue = s.ccQueue

variable {req : CcRequest} {ty : LockType} {cce : Cce K} {u : TxNumber} {s s' : CcShard K V}
  {t : TxNumber} {c : Cce K}

theorem RequestedAt.of_lock {s : CcShard K V} {l : NonBlockingLock}
    (h : Requested req ty (s.keyLock cce) l) :
    RequestedAt req ty cce s (s.setKeyLock cce l) :=
  ⟨⟨rfl, rfl, rfl⟩, by simpa using h, fun _ hc => keyLock_setKeyLock_ne s l hc, rfl⟩

omit [DecidableEq K] in
theorem mustWaitWrite_locked {s : CcShard K V} {readTs : Nat}
    (h : s.mustWaitWrite cce readTs = true) : (s.keyLock cce).writeLkType = .writeLock :=
  of_decide_eq_true (Bool.and_eq_true_iff.mp h).1

/-- Whatever comes of it, `AcquireCceKeyLock` is one request at one lock. -/
theorem AcquireCases.requestedAt {s : CcShard K V} {txTerm : Int} {lockType : LockType}
    {protocol : CcProtocol} {readTs : Nat} {tableType : TableType} {snapshotRead : Prop}
    {out : (LockType × CcErrorCode) × CcShard K V}
    (h : AcquireCases s cce req txTerm lockType protocol readTs tableType snapshotRead out)
    (tidy : Tidy (s.keyLock cce)) (fresh : req.txn ∉ (s.keyLock cce).waiting) :
    ∃ ty, RequestedAt req ty cce s out.2 := by
  have acquired := acquireLock_requested protocol lockType tidy fresh
  cases h with
  | conflict => exact ⟨.noLock, ⟨rfl, rfl, rfl⟩, .unchanged tidy, fun _ _ => rfl, rfl⟩
  | mustWait _ wait =>
    exact ⟨.readLock,
      .of_lock (insertBlockingQueue_requested tidy fresh (mustWaitWrite_locked wait))⟩
  | unlocked => exact ⟨.noLock, ⟨rfl, rfl, rfl⟩, .unchanged tidy, fun _ _ => rfl, rfl⟩
  | granted =>
    have at0 := RequestedAt.of_lock acquired
    exact ⟨lockType, ⟨rfl, rfl, rfl⟩, at0.lock, at0.others, rfl⟩
  | failed => exact ⟨lockType, .of_lock (.unchanged tidy)⟩
  | blocked => exact ⟨lockType, .of_lock acquired⟩

/-- `u` gave up what it had on `cce`: the effect on that lock, the requests that
were put back into the shard's queue, and nothing else but the record of lock
holding transactions. -/
structure ReleasedAt (u : TxNumber) (cce : Cce K) (s s' : CcShard K V) : Prop
    extends LockFrame s s' where
  lock : ∃ woken, Released u (s.keyLock cce) (s'.keyLock cce) woken ∧
    s'.ccQueue = s.ccQueue ++ woken.map fun req => (cce, req)
  others : ∀ c ≠ cce, s'.keyLock c = s.keyLock c

/-- A lock set, its waiters woken, recycled or not, and the holders' record
changed: the shape of every release. -/
theorem ReleasedAt.of_lock {s : CcShard K V} {l : NonBlockingLock} {woken : List CcRequest}
    (h : Released u (s.keyLock cce) l woken) :
    ReleasedAt u cce s ((s.setKeyLock cce l).enqueue cce woken) where
  lock := ⟨woken, by simpa using h, rfl⟩
  others c hc := keyLock_setKeyLock_ne s l hc
  entries := rfl
  lastReadTs := rfl
  now := rfl

theorem ReleasedAt.recycle (h : ReleasedAt u cce s s') :
    ReleasedAt u cce s (s'.recycleKeyLock cce) := by
  obtain ⟨woken, hr, hq⟩ := h.lock
  have queue := (recycle_keeps s' cce).1.trans hq
  exact ⟨h.toLockFrame.recycle cce, ⟨woken, hr.alike (keyLock_recycle s' cce cce), queue⟩,
    fun c hc => (keyLock_recycle_ne s' hc).trans (h.others c hc)⟩

theorem ReleasedAt.delete (h : ReleasedAt u cce s s') (txn : TxNumber) :
    ReleasedAt u cce s (s'.deleteLockHoldingTx txn cce) :=
  ⟨⟨h.entries, h.lastReadTs, h.now⟩, h.lock, h.others⟩

/-- Nothing of the locks or the queue changed that a transaction could notice. -/
structure Untouched (s s' : CcShard K V) : Prop extends LockFrame s s' where
  locks : ∀ c, Alike (s.keyLock c) (s'.keyLock c)
  ccQueue : s'.ccQueue = s.ccQueue

omit [DecidableEq K] in
theorem Untouched.refl (s : CcShard K V) : Untouched s s :=
  ⟨⟨rfl, rfl, rfl⟩, fun _ => .refl _, rfl⟩

theorem Untouched.set_same (s : CcShard K V) (cce : Cce K) :
    Untouched s ((s.setKeyLock cce (s.keyLock cce)).enqueue cce []) := by
  refine ⟨⟨rfl, rfl, rfl⟩, fun c => ?_, by simp [enqueue, setKeyLock]⟩
  by_cases hc : c = cce
  · subst hc
    simpa using Alike.refl _
  · rw [keyLock_enqueue, keyLock_setKeyLock_ne s _ hc]
    exact Alike.refl _

theorem Untouched.recycle (h : Untouched s s') (cce : Cce K) :
    Untouched s (s'.recycleKeyLock cce) :=
  ⟨h.toLockFrame.recycle cce, fun c => (h.locks c).trans (keyLock_recycle s' cce c),
    (recycle_keeps s' cce).1.trans h.ccQueue⟩

theorem releaseCceLock_cases (s : CcShard K V) (cce : Cce K) (u : TxNumber) (ty : LockType)
    (recycleLock : Bool) (h : Tidy (s.keyLock cce)) :
    (((s.keyLock cce).unlock u ty).1 = .noLock ∧
      Untouched s (s.releaseCceLock cce u ty recycleLock) ∧
      (s.releaseCceLock cce u ty recycleLock).lockHoldingTxs = s.lockHoldingTxs) ∨
    ((((s.keyLock cce).unlock u ty).1 = .writeLock ↔ (s.keyLock cce).HoldsWriteLock u) ∧
      ReleasedAt u cce s (s.releaseCceLock cce u ty recycleLock) ∧
      (s.releaseCceLock cce u ty recycleLock).lockHoldingTxs = s.lockHoldingTxs.delete u cce) := by
  unfold releaseCceLock
  cases hlock : s.locks cce with
  | none =>
    have : s.keyLock cce = reset := by simp [keyLock, hlock]
    exact Or.inl ⟨by rw [this]; exact reset_unlock u ty, .refl s, rfl⟩
  | some lock =>
    have hkey : s.keyLock cce = lock := by simp [keyLock, hlock]
    subst hkey
    rcases unlock_released u ty h with ⟨hno, hsame⟩ | ⟨hne, hrel, hty⟩
    · refine Or.inl ⟨hno, ?_, ?_⟩
      · simpa only [hno, hsame, ↓reduceIte, reduceCtorEq] using Untouched.set_same s cce
      · simp only [hno, ↓reduceIte]
        rfl
    · refine Or.inr ⟨hty, ?_⟩
      have rel : Released u (s.keyLock cce)
          (if ((s.keyLock cce).unlock u ty).1 = .writeLock then
            ((s.keyLock cce).unlock u ty).2.1.setWLockTs 0
          else ((s.keyLock cce).unlock u ty).2.1) ((s.keyLock cce).unlock u ty).2.2 := by
        split
        · rename_i hw
          exact hrel.setWLockTs (hty.mp hw) 0
        · exact hrel
      have base := (ReleasedAt.of_lock rel).delete u
      simp only [hne, ↓reduceIte]
      split
      · exact ⟨base.recycle, (recycle_keeps _ _).2⟩
      · exact ⟨base, rfl⟩

theorem releaseReadLock_at (s : CcShard K V) (cce : Cce K) (u : TxNumber)
    (h : Tidy (s.keyLock cce)) :
    Untouched s ((s.setKeyLock cce ((s.keyLock cce).releaseReadLock u).2.1).enqueue cce
      ((s.keyLock cce).releaseReadLock u).2.2) ∨
    ReleasedAt u cce s ((s.setKeyLock cce ((s.keyLock cce).releaseReadLock u).2.1).enqueue cce
      ((s.keyLock cce).releaseReadLock u).2.2) := by
  cases hs : ((s.keyLock cce).releaseReadLock u).1 with
  | false =>
    rw [releaseReadLock_failed hs]
    exact Or.inl (.set_same s cce)
  | true => exact Or.inr (.of_lock (releaseReadLock_released h hs))

theorem releaseWriteIntent_at (s : CcShard K V) (cce : Cce K) (u : TxNumber)
    (h : Tidy (s.keyLock cce)) :
    Untouched s ((s.setKeyLock cce ((s.keyLock cce).releaseWriteIntent u).2.1).enqueue cce
      ((s.keyLock cce).releaseWriteIntent u).2.2) ∨
    ReleasedAt u cce s ((s.setKeyLock cce ((s.keyLock cce).releaseWriteIntent u).2.1).enqueue cce
      ((s.keyLock cce).releaseWriteIntent u).2.2) := by
  cases hs : ((s.keyLock cce).releaseWriteIntent u).1 with
  | false =>
    rw [releaseWriteIntent_failed hs]
    exact Or.inl (.set_same s cce)
  | true => exact Or.inr (.of_lock (releaseWriteIntent_released h hs))

/-- Everything `LockHandleForResumedRequest` can do: keep the lock and register
it, or release it and forget it. -/
theorem lockHandleForResumedRequest_cases (s : CcShard K V) (cce : Cce K) (commitTs : Nat)
    (status : RecordStatus) (req : CcRequest) (txTerm : Int) (ccOp : CcOperation)
    (isoLevel : IsolationLevel) (protocol : CcProtocol) (readTs : Nat) (isCoveringKeys : Bool)
    (tableType : TableType) (h : Tidy (s.keyLock cce)) :
    let r := s.lockHandleForResumedRequest cce commitTs status req txTerm ccOp isoLevel protocol
      readTs isCoveringKeys tableType
    r = ((deduceLockType ccOp isoLevel protocol isCoveringKeys, .noError),
      s.upsertLockHoldingTx req.txn txTerm cce
        (decide (deduceLockType ccOp isoLevel protocol isCoveringKeys = .writeLock)) tableType) ∨
    (r.1.1 = .noLock ∧ ccOp ≠ .write ∧ (Untouched s r.2 ∨ ReleasedAt req.txn cce s r.2) ∧
      r.2.lockHoldingTxs = s.lockHoldingTxs.delete req.txn cce) := by
  intro r
  have recycled {s' : CcShard K V} (hs : Untouched s s' ∨ ReleasedAt req.txn cce s s')
      (txs : s'.lockHoldingTxs = s.lockHoldingTxs) :
      (Untouched s ((s'.recycleKeyLock cce).deleteLockHoldingTx req.txn cce) ∨
        ReleasedAt req.txn cce s ((s'.recycleKeyLock cce).deleteLockHoldingTx req.txn cce)) ∧
      ((s'.recycleKeyLock cce).deleteLockHoldingTx req.txn cce).lockHoldingTxs =
        s.lockHoldingTxs.delete req.txn cce := by
    constructor
    · rcases hs with hs | hs
      · have := hs.recycle cce
        exact Or.inl ⟨⟨this.entries, this.lastReadTs, this.now⟩, this.locks, this.ccQueue⟩
      · exact Or.inr (hs.recycle.delete req.txn)
    · rw [deleteLockHoldingTx, (recycle_keeps s' cce).2, txs]
  simp only [r, lockHandleForResumedRequest]
  split
  · rename_i hc
    refine Or.inr ⟨rfl, ?_, recycled (releaseReadLock_at s cce req.txn h) rfl⟩
    rintro rfl
    simp [deduceLockType] at hc
  · split
    · rename_i hc
      refine Or.inr ⟨rfl, ?_, recycled (releaseWriteIntent_at s cce req.txn h) rfl⟩
      rintro rfl
      simp [deduceLockType] at hc
    · exact Or.inl rfl

theorem clearTxOn_cases (s : CcShard K V) (u : TxNumber) (cce : Cce K)
    (h : Tidy (s.keyLock cce)) :
    Untouched s (clearTxOn u s cce) ∨ ReleasedAt u cce s (clearTxOn u s cce) := by
  unfold clearTxOn
  cases hlock : s.locks cce with
  | none => exact Or.inl (.refl s)
  | some lock =>
    have hkey : s.keyLock cce = lock := by simp [keyLock, hlock]
    subst hkey
    rcases clearTx_released u h with ⟨-, same⟩ | ⟨-, rel, -⟩
    · simp only [same]
      exact Or.inl ((Untouched.set_same s cce).recycle cce)
    · exact Or.inr (ReleasedAt.of_lock rel).recycle

/-- A transaction has no request on the entry that is queued or about to resume. -/
def Idle (s : CcShard K V) (cce : Cce K) (txn : TxNumber) : Prop :=
  txn ∉ (s.keyLock cce).waiting ∧ ∀ req, (cce, req) ∈ s.ccQueue → req.txn ≠ txn

/-- Every lock is tidy, and a request is either queued at a lock or about to
resume, once. -/
structure Orderly (s : CcShard K V) : Prop where
  tidy : ∀ c, Tidy (s.keyLock c)
  once : (s.ccQueue.map fun p => (p.1, p.2.txn)).Nodup
  left : ∀ c req, (c, req) ∈ s.ccQueue → req.txn ∉ (s.keyLock c).waiting

omit [DecidableEq K] in
theorem initial_orderly {s : CcShard K V} (locks : ∀ c, s.locks c = none)
    (queue : s.ccQueue = []) : Orderly s where
  tidy c := by simpa [keyLock, locks c] using reset_tidy
  once := by simp [queue]
  left := by simp [queue]

omit [DecidableEq K] in
theorem Orderly.congr (o : Orderly s) (locks : s'.locks = s.locks)
    (queue : s'.ccQueue = s.ccQueue) : Orderly s' := by
  have same (c : Cce K) : s'.keyLock c = s.keyLock c := by unfold keyLock; rw [locks]
  exact ⟨fun c => same c ▸ o.tidy c, queue ▸ o.once, fun c r hr => same c ▸ o.left c r (queue ▸ hr)⟩

theorem RequestedAt.orderly (h : RequestedAt req ty cce s s') (o : Orderly s)
    (idle : Idle s cce req.txn) :
    Orderly s' := by
  refine ⟨?_, by rw [h.ccQueue]; exact o.once, ?_⟩
  · intro c
    by_cases hc : c = cce
    · exact hc ▸ h.lock.tidy
    · exact h.others c hc ▸ o.tidy c
  · intro c r hr
    rw [h.ccQueue] at hr
    by_cases hc : c = cce
    · subst hc
      intro hw
      obtain ⟨e, he, heq⟩ := List.mem_map.mp hw
      rcases h.lock.queue e he with he | rfl
      · exact o.left c r hr (List.mem_map.mpr ⟨e, he, heq⟩)
      · exact idle.2 r hr heq.symm
    · rw [h.others c hc]
      exact o.left c r hr

theorem ReleasedAt.orderly (h : ReleasedAt u cce s s') (o : Orderly s) : Orderly s' := by
  obtain ⟨woken, rel, queue⟩ := h.lock
  have shrinks (c : Cce K) (t : TxNumber) (ht : t ∈ (s'.keyLock c).waiting) :
      t ∈ (s.keyLock c).waiting := by
    by_cases hc : c = cce
    · subst hc
      obtain ⟨e, he, rfl⟩ := List.mem_map.mp ht
      exact List.mem_map_of_mem (rel.queue e he)
    · rwa [h.others c hc] at ht
  refine ⟨?_, ?_, ?_⟩
  · intro c
    by_cases hc : c = cce
    · exact hc ▸ rel.tidy
    · exact h.others c hc ▸ o.tidy c
  · rw [queue, List.map_append, List.nodup_append]
    refine ⟨o.once, ?_, ?_⟩
    · have := rel.once.map (f := fun t => (cce, t)) fun _ _ heq => (Prod.mk.inj heq).2
      simpa [List.map_map, Function.comp_def] using this
    · -- what resumes already was not waiting, what is woken was
      rintro a ha b hb rfl
      obtain ⟨⟨c, r⟩, hr, rfl⟩ := List.mem_map.mp ha
      obtain ⟨p, hp, heq⟩ := List.mem_map.mp hb
      obtain ⟨r', hr', rfl⟩ := List.mem_map.mp hp
      obtain ⟨rfl, htx⟩ := Prod.mk.inj heq
      obtain ⟨e, he, rfl, -⟩ := rel.wakes r' hr'
      exact o.left cce r hr (htx ▸ List.mem_map_of_mem he)
  · intro c r hr
    rw [queue, List.mem_append] at hr
    rcases hr with hr | hr
    · exact fun hw => o.left c r hr (shrinks c r.txn hw)
    · obtain ⟨r', hr', heq⟩ := List.mem_map.mp hr
      obtain ⟨rfl, rfl⟩ := Prod.mk.inj heq
      obtain ⟨e, -, -, left, -⟩ := rel.wakes r' hr'
      exact left

omit [DecidableEq K] in
theorem Untouched.orderly (h : Untouched s s') (o : Orderly s) :
    Orderly s' where
  tidy c := (h.locks c).tidy (o.tidy c)
  once := by rw [h.ccQueue]; exact o.once
  left c r hr := by
    rw [h.ccQueue] at hr
    rw [(h.locks c).waiting]
    exact o.left c r hr

theorem Orderly.dequeue {s : CcShard K V} (o : Orderly s) (cce : Cce K) (req : CcRequest) :
    Orderly (s.dequeue cce req) where
  tidy := o.tidy
  once := o.once.sublist (List.erase_sublist.map _)
  left c r hr := o.left c r (List.mem_of_mem_erase hr)

/-- The transaction of a request that resumes is idle. -/
theorem Orderly.dequeue_idle {s : CcShard K V} (o : Orderly s) (h : (cce, req) ∈ s.ccQueue) :
    Idle (s.dequeue cce req) cce req.txn := by
  refine ⟨o.left cce req h, ?_⟩
  intro r hr htx
  obtain ⟨hne, hmem⟩ := (List.Nodup.of_map _ o.once).mem_erase_iff.mp hr
  exact hne (List.inj_on_of_nodup_map o.once hmem h (by simp [htx]))

/-- `t` has the write lock of `c`, and no request of it there is about to resume. -/
def Holding (s : CcShard K V) (t : TxNumber) (c : Cce K) : Prop :=
  (s.keyLock c).HoldsWriteLock t ∧ ∀ req, (c, req) ∈ s.ccQueue → req.txn ≠ t

theorem RequestedAt.holding (h : RequestedAt req ty cce s s') (hold : Holding s t c) :
    Holding s' t c := by
  refine ⟨?_, by rw [h.ccQueue]; exact hold.2⟩
  by_cases hc : c = cce
  · subst hc
    exact h.lock.keeps t hold.1
  · rw [h.others c hc]
    exact hold.1

theorem ReleasedAt.holding (h : ReleasedAt u cce s s') (hold : Holding s t c)
    (ne : t ≠ u ∨ c ≠ cce) : Holding s' t c := by
  obtain ⟨woken, rel, queue⟩ := h.lock
  by_cases hc : c = cce
  · subst hc
    have ht : t ≠ u := ne.resolve_right fun hn => hn rfl
    refine ⟨rel.keeps t ht hold.1, ?_⟩
    rw [queue, rel.quiet t ht hold.1]
    simpa using hold.2
  · refine ⟨by rw [h.others c hc]; exact hold.1, ?_⟩
    intro req hreq
    rw [queue, List.mem_append] at hreq
    rcases hreq with hreq | hreq
    · exact hold.2 req hreq
    · obtain ⟨r, -, heq⟩ := List.mem_map.mp hreq
      exact absurd (congrArg Prod.fst heq).symm hc

omit [DecidableEq K] in
theorem Untouched.holding (h : Untouched s s') (hold : Holding s t c) : Holding s' t c :=
  ⟨((h.locks c).writer t).mpr hold.1, by rw [h.ccQueue]; exact hold.2⟩

theorem Holding.dequeue {s : CcShard K V} (hold : Holding s t c) (cce : Cce K) (req : CcRequest) :
    Holding (s.dequeue cce req) t c :=
  ⟨hold.1, fun r hr => hold.2 r (List.mem_of_mem_erase hr)⟩

end CcShard

end TxService
