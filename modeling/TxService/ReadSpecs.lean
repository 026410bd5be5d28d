import TxService.RequestSpecs

/-!
# What a read does

`Execute(ReadCc)`, the first time or after it was blocked: its effect on the
locks, and the version its result comes from.
-/

namespace TxService

variable {K : Type}

theorem ReadCc.isReadSnapshot_kind {r : ReadCc K} (h : r.isReadSnapshot = true) :
    r.isolation = .snapshot ∧ (r.ccOp = .read ∨ r.ccOp = .readSkIndex) := by
  unfold ReadCc.isReadSnapshot at h
  unfold ReadCc.ccOp
  split at h <;> simp_all
  split <;> simp

theorem ReadCc.isReadSnapshot_lockType {r : ReadCc K} (h : r.isReadSnapshot = true) :
    r.lockType = .noLock := by
  obtain ⟨iso, op | op⟩ := ReadCc.isReadSnapshot_kind h <;>
    simp [ReadCc.lockType, deduceLockType, iso, op]

theorem ReadCc.ccOp_ne_write (r : ReadCc K) : r.ccOp ≠ .write := by
  unfold ReadCc.ccOp
  split
  · simp
  · split <;> simp
  · split <;> simp

theorem ReadCc.lockType_ne_writeLock (r : ReadCc K) : r.lockType ≠ .writeLock := by
  have := r.ccOp_ne_write
  unfold ReadCc.lockType deduceLockType
  split
  · split <;> simp
  · simp
  · contradiction
  · split
    · simp
    · simp
    · split <;> simp
    · split <;> simp

namespace CcShard

open NonBlockingLock

variable {K V : Type} [DecidableEq K]

/-- A read that is new, or that resumes with the lock it waited for. -/
def ReadReady (s : CcShard K V) (r : ReadCc K) : BlockedBy → Prop
  | .notBlocked => Idle s r.cce r.req.txn
  | .blockByLock => (r.cce, r.req) ∈ s.ccQueue ∧ r.isReadSnapshot = false
  | .blockByPostWrite => (r.cce, r.req) ∈ s.ccQueue

/-- The assertion of the read that must be at least as new as its secondary key:
the write it waits for holds the lock. -/
def WriteOnItsWay (s : CcShard K V) (r : ReadCc K) : Prop :=
  (s.entries r.cce).payloadStatus = .normal ∧ r.isolation = .readCommitted ∧
    0 < (s.entries r.cce).commitTs ∧ (s.entries r.cce).commitTs < r.readTimestamp →
  (s.keyLock r.cce).hasWriteLock = true ∧ (s.keyLock r.cce).writeTxn ≠ r.req.txn

/-- The shard a read is executed on: without the read, if it was queued. -/
def takenUp (s : CcShard K V) (r : ReadCc K) : BlockedBy → CcShard K V
  | .notBlocked => s
  | _ => s.dequeue r.cce r.req

variable {r : ReadCc K} {s : CcShard K V}

theorem lockForRead_spec {blockedBy : BlockedBy} (o : Orderly s) (ready : ReadReady s r blockedBy) :
    let locked := s.lockForRead r blockedBy
    Idle (s.takenUp r blockedBy) r.cce r.req.txn ∧
      Effect r.req.txn r.cce false (locked.1.2.waitsFor r.lockType) (s.takenUp r blockedBy) locked.2 ∧
      LockFrame s locked.2 ∧ (locked.1.2 = .acquireLockBlocked → r.isReadSnapshot = false) ∧
      (blockedBy = .notBlocked → r.isReadSnapshot = true → locked.1.2 = .noError →
        s.mustWaitWrite r.cce r.readTimestamp = false) := by
  cases blockedBy with
  | notBlocked =>
    have acquired := acquireCceKeyLock_cases s r.cce (s.entries r.cce).commitTs
      (s.entries r.cce).payloadStatus r.req r.txTerm r.lockType r.ccOp r.isolation r.protocol
      r.readTimestamp r.cce.tableName.type
    exact ⟨ready, acquired.effect o ready fun hw => absurd hw r.lockType_ne_writeLock, acquired.frame,
      fun hb => Bool.eq_false_iff.mpr fun snap =>
        acquired.blocked_kind hb (ReadCc.isReadSnapshot_lockType snap),
      fun _ snap ok => acquired.no_wait ok (ReadCc.isReadSnapshot_kind snap)⟩
  | blockByLock =>
    have code := lockHandleForResumedRequest_code (s.dequeue r.cce r.req) r.cce
      (s.entries r.cce).commitTs (s.entries r.cce).payloadStatus r.req r.txTerm r.ccOp r.isolation
      r.protocol r.readTimestamp r.isCoveringKeys r.cce.tableName.type
    obtain ⟨effect, frame⟩ := lockHandleForResumedRequest_effect (s.dequeue r.cce r.req) r.cce
      (s.entries r.cce).commitTs (s.entries r.cce).payloadStatus r.req r.txTerm r.ccOp r.isolation
      r.protocol r.readTimestamp r.isCoveringKeys r.cce.tableName.type (o.dequeue r.cce r.req)
    have waits : (s.lockForRead r .blockByLock).1.2.waitsFor r.lockType = none := by
      rcases code with code | code <;> simp [lockForRead, code, CcErrorCode.waitsFor]
    exact ⟨o.dequeue_idle ready.1, waits ▸ effect, ⟨frame.entries, frame.lastReadTs, frame.now⟩,
      fun _ => ready.2, by simp⟩
  | blockByPostWrite =>
    have o' := o.dequeue r.cce r.req
    refine ⟨o.dequeue_idle ready, ?_, ⟨rfl, rfl, rfl⟩, by simp [lockForRead], by simp⟩
    rcases releaseReadLock_at (s.dequeue r.cce r.req) r.cce r.req.txn (o'.tidy r.cce) with h | h
    · exact .of_untouched h o'
    · exact .of_released h o'

/-- The specification of `Execute(ReadCc)`. -/
structure ReadSpec (s : CcShard K V) (r : ReadCc K) (blockedBy : BlockedBy)
    (out : Outcome (ReadResult V) × CcShard K V) : Prop where
  effect : Effect r.req.txn r.cce false (out.1.waitsFor r.lockType) s out.2
  quiet : ∀ req, (r.cce, req) ∈ out.2.ccQueue → req.txn ≠ r.req.txn
  entries : out.2.entries = s.entries
  lastReadTs : s.lastReadTs ≤ out.2.lastReadTs
  now : out.2.now = s.now
  known : blockedBy = .notBlocked → out.1 ≠ .fetching →
    (s.entries r.cce).payloadStatus ≠ .unknown
  blocked : out.1 = .blockedByLock → r.isReadSnapshot = false
  finished : ∀ res, out.1 = .finished res → r.isReadSnapshot = false →
    res.ts = (s.entries r.cce).commitTs
  snapshot : ∀ res, out.1 = .finished res → r.isReadSnapshot = true →
    res.ts = ((s.entries r.cce).mvccGet r.readTimestamp s.lastReadTs).1.commitTs ∧
    res.recStatus = ((s.entries r.cce).mvccGet r.readTimestamp s.lastReadTs).1.payloadStatus ∧
    out.2.lastReadTs = ((s.entries r.cce).mvccGet r.readTimestamp s.lastReadTs).2 ∧
    (blockedBy = .notBlocked → s.mustWaitWrite r.cce r.readTimestamp = false)

theorem mvccGet_lastReadTs (e : CcEntry V) (ts lastReadTs : Nat) :
    lastReadTs ≤ (e.mvccGet ts lastReadTs).2 := by
  unfold CcEntry.mvccGet
  split
  · exact Nat.le_refl _
  · split
    · exact Nat.le_max_right _ _
    · split <;> exact Nat.le_refl _

theorem readLocked_effect (o : Orderly s) (idle : Idle s r.cce r.req.txn)
    (promise : WriteOnItsWay s r) :
    Effect r.req.txn r.cce false ((s.readLocked r).1.waitsFor r.lockType) s (s.readLocked r).2 := by
  unfold readLocked
  simp only
  split
  · exact (Effect.of_untouched (.refl s) o).congr rfl rfl
  · split
    · rename_i waits
      have locked : (s.keyLock r.cce).writeLkType = .writeLock :=
        of_decide_eq_true (promise waits).1
      exact .of_requested (.of_lock (insertBlockingQueue_requested (o.tidy _) idle.1 locked)) o idle
        (by simp) (Or.inl rfl)
    · exact .of_untouched (.refl s) o

/-- What the read proper hands out, and leaves alone. -/
structure ReadLockedSpec (s : CcShard K V) (r : ReadCc K)
    (out : Outcome (ReadResult V) × CcShard K V) : Prop where
  entries : out.2.entries = s.entries
  lastReadTs : s.lastReadTs ≤ out.2.lastReadTs
  now : out.2.now = s.now
  blocked : out.1 ≠ .blockedByLock
  finished : ∀ res, out.1 = .finished res → r.isReadSnapshot = false →
    res.ts = (s.entries r.cce).commitTs
  snapshot : ∀ res, out.1 = .finished res → r.isReadSnapshot = true →
    res.ts = ((s.entries r.cce).mvccGet r.readTimestamp s.lastReadTs).1.commitTs ∧
    res.recStatus = ((s.entries r.cce).mvccGet r.readTimestamp s.lastReadTs).1.payloadStatus ∧
    out.2.lastReadTs = ((s.entries r.cce).mvccGet r.readTimestamp s.lastReadTs).2

theorem readLocked_spec (s : CcShard K V) (r : ReadCc K) :
    ReadLockedSpec s r (s.readLocked r) := by
  unfold readLocked
  simp only
  split
  · rename_i snap
    refine ⟨rfl, mvccGet_lastReadTs _ _ _, rfl, by simp, by simp [snap], ?_⟩
    rintro res hres -
    obtain rfl := Outcome.finished.inj hres
    exact ⟨rfl, rfl, rfl⟩
  · rename_i snap
    split
    · exact ⟨rfl, Nat.le_refl _, rfl, by simp, by simp, by simp⟩
    · refine ⟨rfl, Nat.le_refl _, rfl, by simp, ?_, fun _ _ hs => absurd hs snap⟩
      rintro res hres -
      obtain rfl := Outcome.finished.inj hres
      rfl

theorem executeReadCc_spec {blockedBy : BlockedBy} (o : Orderly s) (ready : ReadReady s r blockedBy)
    (promise : (s.lockForRead r blockedBy).1.2 = .noError →
      WriteOnItsWay (s.lockForRead r blockedBy).2 r) :
    ReadSpec s r blockedBy (s.executeReadCc r blockedBy) := by
  obtain ⟨idle, effect, frame, blocked, free⟩ := lockForRead_spec o ready
  have back {queued : Option LockType} {s' : CcShard K V}
      (h : Effect r.req.txn r.cce false queued (s.takenUp r blockedBy) s') :
      Effect r.req.txn r.cce false queued s s' := by
    cases blockedBy with
    | notBlocked => exact h
    | blockByLock => exact h.after_dequeue
    | blockByPostWrite => exact h.after_dequeue
  simp only [executeReadCc]
  split
  · rename_i fetch
    obtain ⟨rfl, -⟩ := fetch
    have effect : Effect r.req.txn r.cce false none s s := .of_untouched (.refl s) o
    exact ⟨effect, effect.quiet idle, rfl, Nat.le_refl _, rfl, by simp, by simp, by simp, by simp⟩
  · rename_i fetch
    have known (hb : blockedBy = .notBlocked) : (s.entries r.cce).payloadStatus ≠ .unknown :=
      fun hu => fetch ⟨hb, hu⟩
    generalize s.lockForRead r blockedBy = locked at *
    obtain ⟨⟨ty, code⟩, s'⟩ := locked
    simp only at effect frame blocked free promise ⊢
    have stopped {queued : Option LockType} {out : Outcome (ReadResult V)}
        (h : Effect r.req.txn r.cce false queued (s.takenUp r blockedBy) s')
        (hq : out.waitsFor r.lockType = queued)
        (hb : out = .blockedByLock → r.isReadSnapshot = false)
        (hf : ∀ res, out ≠ .finished res) :
        ReadSpec s r blockedBy (out, s') :=
      ⟨hq ▸ back h, h.quiet idle, frame.entries, Nat.le_of_eq frame.lastReadTs.symm, frame.now,
        fun hb _ => known hb, hb, fun res hres => absurd hres (hf res),
        fun res hres => absurd hres (hf res)⟩
    cases code with
    | noError =>
      have effect' := effect.trans
        (readLocked_effect effect.orderly (effect.idle idle) (promise rfl)) idle.1
      have spec := readLocked_spec s' r
      refine ⟨back effect', effect'.quiet idle, spec.entries.trans frame.entries, ?_,
        spec.now.trans frame.now, fun hb _ => known hb, fun hb => absurd hb spec.blocked, ?_, ?_⟩
      · exact frame.lastReadTs ▸ spec.lastReadTs
      · intro res hres hs
        rw [spec.finished res hres hs, frame.entries]
      · intro res hres hs
        obtain ⟨hts, hstatus, hlast⟩ := spec.snapshot res hres hs
        rw [frame.entries, frame.lastReadTs] at hts hstatus hlast
        exact ⟨hts, hstatus, hlast, fun hb => free hb hs rfl⟩
    | mvccReadMustWaitWrite => exact stopped effect rfl (by simp) (by simp)
    | acquireLockBlocked => exact stopped effect rfl (fun _ => blocked rfl) (by simp)
    | _ => exact stopped effect rfl (by simp) (by simp)

end CcShard

end TxService
