import TxService.LockWorld

/-!
# The checkpoint timestamp and the active writers

A checkpoint up to `ActiveTxMinTs` must not overlap a transaction that is still
to commit: the record of every transaction with a write lock covers that lock.
-/

namespace TxService

open Transition NonBlockingLock

variable {K V : Type} [DecidableEq K]

namespace LockWorld

/-- A noted write lock is held, its owner has nothing else pending on the entry,
and the shard's record covers it. -/
structure Tracked (w : LockWorld K V) : Prop where
  clock : 0 < w.shard.now
  orderly : w.shard.Orderly
  held : ∀ t c ts, w.registered t c = some ts → (w.shard.keyLock c).HoldsWriteLock t
  idle : ∀ t c ts, w.registered t c = some ts → ∀ req, (c, req) ∈ w.shard.ccQueue → req.txn ≠ t
  covered : ∀ t c ts, w.registered t c = some ts →
    w.shard.lockHoldingTxs.Covers t c (w.lastWrite t c.ngId)

variable {w : LockWorld K V} {r : LockRequest K}

omit [DecidableEq K] in
theorem Tracked.holding (h : Tracked w) {t : TxNumber} {c : Cce K} {ts : Nat}
    (reg : w.registered t c = some ts) : w.shard.Holding t c :=
  ⟨h.held t c ts reg, h.idle t c ts reg⟩

omit [DecidableEq K] in
/-- A new state is tracked if every lock still noted is still held and covered. -/
theorem Tracked.of_holding (clock : 0 < w.shard.now) (orderly : w.shard.Orderly)
    (noted : ∀ t c ts, w.registered t c = some ts →
      w.shard.Holding t c ∧ w.shard.lockHoldingTxs.Covers t c (w.lastWrite t c.ngId)) :
    Tracked w :=
  ⟨clock, orderly, fun t c ts reg => (noted t c ts reg).1.1, fun t c ts reg => (noted t c ts reg).1.2,
    fun t c ts reg => (noted t c ts reg).2⟩

/-- What registering a lock does to the records of the locks noted before. -/
theorem Tracked.covered_upsert (h : Tracked w) (isWrite : Bool)
    (meta' : r.tableType.isMeta = true → ∀ c ts, w.registered r.req.txn c = some ts →
      c.ngId = r.cce.ngId → c.tableName.type.isMeta = true) {t : TxNumber} {c : Cce K} {ts : Nat}
    (reg : w.registered t c = some ts) :
    (w.shard.lockHoldingTxs.upsert w.shard.now r.req.txn r.txTerm r.cce isWrite r.tableType).Covers
      t c (if isWrite = true ∧ t = r.req.txn ∧ c.ngId = r.cce.ngId then w.shard.now
        else w.lastWrite t c.ngId) := by
  by_cases same : t = r.req.txn ∧ c.ngId = r.cce.ngId
  · obtain ⟨rfl, ng⟩ := same
    have table : c.tableName.type.isMeta = false → r.tableType.isMeta = false := by
      intro data
      by_contra hmeta
      have := meta' (by simpa using hmeta) c ts reg ng
      simp [data] at this
    have := LockHoldingTxs.upsert_covers_same (h.covered _ c ts reg) h.clock r.txTerm isWrite ng
      table
    simpa [ng] using this
  · have ne : (c.ngId, t) ≠ (r.cce.ngId, r.req.txn) := by
      intro heq
      exact same ⟨(Prod.mk.inj heq).2, (Prod.mk.inj heq).1⟩
    have := LockHoldingTxs.upsert_covers_other (h.covered t c ts reg) w.shard.now r.txTerm isWrite
      r.tableType ne
    simpa [same] using this

theorem Tracked.note (h : Tracked w) {s : CcShard K V} (orderly : s.Orderly)
    (now : s.now = w.shard.now) (hold : ∀ t c, w.shard.Holding t c → s.Holding t c)
    (txs : s.lockHoldingTxs =
      w.shard.lockHoldingTxs.upsert w.shard.now r.req.txn r.txTerm r.cce true r.tableType)
    (table : r.tableType.isMeta = r.cce.tableName.type.isMeta)
    (meta' : r.tableType.isMeta = true → ∀ c ts, w.registered r.req.txn c = some ts →
      c.ngId = r.cce.ngId → c.tableName.type.isMeta = true) (own : s.Holding r.req.txn r.cce) :
    Tracked (w.note s r.req.txn r.cce) := by
  refine .of_holding (show 0 < s.now by rw [now]; exact h.clock) orderly ?_
  intro t c ts reg
  simp only [LockWorld.note] at reg ⊢
  rw [txs]
  by_cases same : t = r.req.txn ∧ c = r.cce
  · obtain ⟨rfl, rfl⟩ := same
    refine ⟨own, ?_⟩
    simp only [and_self, ↓reduceIte]
    exact LockHoldingTxs.upsert_covers_new _ h.clock _ _ fun data => by rw [table]; exact data
  · rw [if_neg same] at reg
    refine ⟨hold t c (h.holding reg), ?_⟩
    simpa using h.covered_upsert true meta' reg

theorem exec_acquire_tracked (h : Tracked w) {lockType : LockType}
    (enabled : Enabled w (.acquire r lockType)) (clean : NoMetaUnderData w (.acquire r lockType)) :
    Tracked (w.exec (.acquire r lockType)) := by
  have acquired := CcShard.acquireCceKeyLock_cases w.shard r.cce r.commitTs r.payloadStatus r.req
    r.txTerm lockType r.ccOp r.isoLevel r.protocol r.readTs r.tableType
  obtain ⟨ty, at0⟩ := acquired.requestedAt (h.orderly.tidy r.cce) enabled.1.1
  simp only [exec]
  generalize w.shard.acquireCceKeyLock r.cce r.commitTs r.payloadStatus r.req r.txTerm lockType
    r.ccOp r.isoLevel r.protocol r.readTs r.tableType = out at acquired at0 ⊢
  have clock : 0 < out.2.now := at0.now ▸ h.clock
  have orderly := at0.orderly h.orderly enabled.1
  -- the request did not take the write lock, and at most registered a weaker one
  have kept (txs : out.2.lockHoldingTxs = w.shard.lockHoldingTxs ∨
      out.2.lockHoldingTxs = w.shard.lockHoldingTxs.upsert w.shard.now r.req.txn r.txTerm r.cce
        false r.tableType) : Tracked { w with shard := out.2 } := by
    refine .of_holding clock orderly fun t c ts reg => ⟨at0.holding (h.holding reg), ?_⟩
    rcases txs with txs | txs
    · simpa only [txs] using h.covered t c ts reg
    · simpa only [txs, Bool.false_eq_true, false_and, ↓reduceIte] using
        h.covered_upsert false clean reg
  cases acquired with
  | conflict => exact kept (Or.inl rfl)
  | mustWait => exact kept (Or.inl rfl)
  | unlocked => exact kept (Or.inl rfl)
  | failed err kind =>
    have : err ≠ .noError := by rcases kind with rfl | rfl <;> simp
    simpa [this] using kept (Or.inl rfl)
  | blocked => simpa using kept (Or.inl rfl)
  | granted ok =>
    by_cases hty : lockType = .writeLock
    · subst hty
      have own : (w.shard.setKeyLock r.cce
          ((w.shard.keyLock r.cce).acquireLock r.req r.protocol .writeLock).2).Holding
          r.req.txn r.cce :=
        ⟨by simpa using acquireLock_writeLock ok, enabled.1.2⟩
      simp only [↓reduceIte]
      exact h.note orderly rfl (fun _ _ hold => at0.holding hold) rfl enabled.2 clean own
    · simpa [hty] using kept (Or.inr (by simp [CcShard.upsertLockHoldingTx, CcShard.setKeyLock, hty]))

theorem exec_resume_tracked (h : Tracked w) (enabled : Enabled w (.resume r))
    (clean : NoMetaUnderData w (.resume r)) :
    Tracked (w.exec (.resume r)) := by
  have orderly := h.orderly.dequeue r.cce r.req
  have hold {t : TxNumber} {c : Cce K} {ts : Nat} (reg : w.registered t c = some ts) :
      (w.shard.dequeue r.cce r.req).Holding t c := (h.holding reg).dequeue r.cce r.req
  have resumed := CcShard.lockHandleForResumedRequest_cases (w.shard.dequeue r.cce r.req) r.cce
    r.commitTs r.payloadStatus r.req r.txTerm r.ccOp r.isoLevel r.protocol r.readTs
    r.isCoveringKeys r.tableType (orderly.tidy r.cce)
  simp only [exec]
  generalize (w.shard.dequeue r.cce r.req).lockHandleForResumedRequest r.cce r.commitTs
    r.payloadStatus r.req r.txTerm r.ccOp r.isoLevel r.protocol r.readTs r.isCoveringKeys
    r.tableType = out at resumed ⊢
  rcases resumed with rfl | ⟨noLock, -, effect, txs⟩
  · -- the lock is kept and registered
    by_cases hty : deduceLockType r.ccOp r.isoLevel r.protocol r.isCoveringKeys = .writeLock
    · simp only [hty, ↓reduceIte, decide_true]
      split
      · rename_i held
        exact h.note ⟨orderly.tidy, orderly.once, orderly.left⟩ rfl
          (fun _ _ hold => hold.dequeue r.cce r.req) rfl enabled.2 clean
          ⟨held, (h.orderly.dequeue_idle enabled.1).2⟩
      · refine .of_holding h.clock ⟨orderly.tidy, orderly.once, orderly.left⟩ ?_
        intro t c ts reg
        have covered := h.covered_upsert true clean reg
        simp only [true_and] at covered
        exact ⟨hold reg, covered⟩
    · simp only [hty, Prod.mk.injEq, false_and, ↓reduceIte, decide_false]
      refine .of_holding h.clock ⟨orderly.tidy, orderly.once, orderly.left⟩ ?_
      intro t c ts reg
      have covered := h.covered_upsert false clean reg
      simp only [Bool.false_eq_true, false_and, ↓reduceIte] at covered
      exact ⟨hold reg, covered⟩
  · -- the lock is released and forgotten; nothing of the transaction was noted here
    have other {t : TxNumber} {c : Cce K} {ts : Nat} (reg : w.registered t c = some ts) :
        t ≠ r.req.txn ∨ c ≠ r.cce := by
      by_contra both
      simp only [not_or, not_not] at both
      obtain ⟨rfl, rfl⟩ := both
      exact h.idle _ _ ts reg r.req enabled.1 rfl
    rw [if_neg (by rw [Prod.ext_iff, noLock]; simp)]
    have now : out.2.now = w.shard.now := by
      rcases effect with u | rel
      · exact u.now
      · exact rel.now
    refine .of_holding (show 0 < out.2.now by rw [now]; exact h.clock) ?_ ?_
    · rcases effect with u | rel
      · exact u.orderly orderly
      · exact rel.orderly orderly
    · intro t c ts reg
      refine ⟨?_, ?_⟩
      · rcases effect with u | rel
        · exact u.holding (hold reg)
        · exact rel.holding (hold reg) (other reg)
      · simp only [txs]
        exact LockHoldingTxs.delete_covers (h.covered t c ts reg) (other reg)

/-- A read lock that only kept an entry in memory is released when the read resumes. -/
theorem exec_resumeSnapshotRead_tracked (h : Tracked w) {cce : Cce K} {req : CcRequest}
    (enabled : Enabled w (.resumeSnapshotRead cce req)) :
    Tracked (w.exec (.resumeSnapshotRead cce req)) := by
  have other {t : TxNumber} {c : Cce K} {ts : Nat} (reg : w.registered t c = some ts) :
      t ≠ req.txn ∨ c ≠ cce := by
    by_contra both
    simp only [not_or, not_not] at both
    obtain ⟨rfl, rfl⟩ := both
    exact h.idle _ _ ts reg req enabled rfl
  have orderly := h.orderly.dequeue cce req
  rcases CcShard.releaseReadLock_at (w.shard.dequeue cce req) cce req.txn (orderly.tidy cce)
    with u | rel
  · refine .of_holding h.clock (u.orderly orderly) fun t c ts reg => ?_
    exact ⟨u.holding ((h.holding reg).dequeue cce req), h.covered t c ts reg⟩
  · refine .of_holding h.clock (rel.orderly orderly) fun t c ts reg => ?_
    exact ⟨rel.holding ((h.holding reg).dequeue cce req) (other reg), h.covered t c ts reg⟩

theorem exec_release_tracked (h : Tracked w) (cce : Cce K) (txn : TxNumber) (lkType : LockType)
    (recycleLock : Bool) :
    Tracked (w.exec (.release cce txn lkType recycleLock)) := by
  rcases CcShard.releaseCceLock_cases w.shard cce txn lkType recycleLock (h.orderly.tidy cce) with
    ⟨nothing, u, txs⟩ | ⟨kind, rel, txs⟩
  · refine .of_holding (u.now ▸ h.clock) (u.orderly h.orderly) fun t c ts reg => ?_
    simp only [exec, nothing, reduceCtorEq, and_false, ↓reduceIte] at reg
    exact ⟨u.holding (h.holding reg), by simpa only [exec, txs] using h.covered t c ts reg⟩
  · refine .of_holding (rel.now ▸ h.clock) (rel.orderly h.orderly) fun t c ts reg => ?_
    simp only [exec] at reg
    split at reg
    · cases reg
    · rename_i kept
      -- a lock still noted is another one: this one would have been found as a write lock
      have other : t ≠ txn ∨ c ≠ cce := by
        by_contra both
        simp only [not_or, not_not] at both
        obtain ⟨rfl, rfl⟩ := both
        exact kept ⟨rfl, rfl, kind.mpr (h.held _ _ ts reg)⟩
      refine ⟨rel.holding (h.holding reg) other, ?_⟩
      simpa only [exec, txs] using LockHoldingTxs.delete_covers (h.covered t c ts reg) other

/-- `ClearTx` goes over the entries of one transaction; the locks that others
have stay theirs. -/
theorem clearAll_holding (txn : TxNumber) (cces : List (Cce K)) {s : CcShard K V}
    (o : s.Orderly) :
    (cces.foldl (CcShard.clearTxOn txn) s).Orderly ∧
      (cces.foldl (CcShard.clearTxOn txn) s).now = s.now ∧
      ∀ t c, t ≠ txn → s.Holding t c → (cces.foldl (CcShard.clearTxOn txn) s).Holding t c := by
  induction cces generalizing s with
  | nil => exact ⟨o, rfl, fun _ _ _ hold => hold⟩
  | cons cce rest ih =>
    rcases CcShard.clearTxOn_cases s txn cce (o.tidy cce) with u | rel
    · obtain ⟨ho, hn, hh⟩ := ih (u.orderly o)
      exact ⟨ho, hn.trans u.now, fun t c ht hold => hh t c ht (u.holding hold)⟩
    · obtain ⟨ho, hn, hh⟩ := ih (rel.orderly o)
      exact ⟨ho, hn.trans rel.now, fun t c ht hold => hh t c ht (rel.holding hold (Or.inl ht))⟩

theorem exec_clearTx_tracked (h : Tracked w) (txn : TxNumber) :
    Tracked (w.exec (.clearTx txn)) := by
  obtain ⟨orderly, now, holding⟩ := clearAll_holding txn (w.shard.heldBy txn) h.orderly
  refine .of_holding (by rw [show (w.exec (.clearTx txn)).shard.now = w.shard.now from now]
                         exact h.clock)
    ⟨orderly.tidy, orderly.once, orderly.left⟩ fun t c ts reg => ?_
  simp only [exec] at reg
  split at reg
  · cases reg
  · rename_i kept
    have ht : t ≠ txn := by
      rintro rfl
      obtain ⟨info, found, listed, -⟩ := h.covered t c ts reg
      have mem : c ∈ w.shard.heldBy t :=
        List.mem_flatMap.mpr ⟨⟨(c.ngId, t), info⟩, AList.mem_lookup_iff.mp found, by simpa using listed⟩
      exact kept ⟨rfl, mem, clearTx_writeLock (h.orderly.tidy c) (h.held t c ts reg)⟩
    refine ⟨holding t c ht (h.holding reg), ?_⟩
    exact LockHoldingTxs.eraseAll_covers _ (by simp) (h.covered t c ts reg) ht

theorem step_tracked {w w' : LockWorld K V} {event : LockEvent K} (step : Step w event w')
    (h : Tracked w) : Tracked w' := by
  obtain ⟨enabled, clean, rfl⟩ := step
  cases event with
  | acquire r lockType => exact exec_acquire_tracked h enabled clean
  | resume r => exact exec_resume_tracked h enabled clean
  | resumeSnapshotRead cce req => exact exec_resumeSnapshotRead_tracked h enabled
  | release cce txn lkType recycleLock => exact exec_release_tracked h cce txn lkType recycleLock
  | clearTx txn => exact exec_clearTx_tracked h txn
  | advance ts =>
    exact ⟨Nat.lt_of_lt_of_le h.clock (Nat.le_max_left _ _),
      ⟨h.orderly.tidy, h.orderly.once, h.orderly.left⟩, h.held, h.idle, h.covered⟩

theorem reached_tracked (h : Reached w) : Tracked w := by
  refine h.invariant ?_ fun _ _ _ step hw => step_tracked step hw
  rintro w ⟨locks, queue, -, clock, fresh⟩
  refine .of_holding clock (CcShard.initial_orderly locks queue) fun t c ts reg => ?_
  simp [fresh t c] at reg

/-- **Checkpoint below the active writers.** In every run in which no transaction
locks a meta table of a node group under its own data write lock there, the
checkpoint timestamp of the node group is below the latest write lock time of
every transaction that has a registered data write lock in it. -/
theorem activeTxMinTs_below_writers {w : LockWorld K V} (h : Reached w) (txn : TxNumber)
    (cce : Cce K) (ts : Nat) (registered : w.registered txn cce = some ts)
    (data : cce.tableName.type.isMeta = false) (clockTs : Nat) :
    (w.shard.keyLock cce).HoldsWriteLock txn ∧
      (w.shard.activeTxMinTs cce.ngId clockTs).1 < w.lastWrite txn cce.ngId :=
  ⟨(reached_tracked h).held txn cce ts registered,
    CcShard.activeTxMinTs_lt ((reached_tracked h).covered txn cce ts registered) data clockTs⟩

/-- A shard at time 1 that nobody uses yet. -/
def start : LockWorld Nat Nat :=
  ⟨⟨fun _ => .initial, fun _ => none, ∅, 0, 1, []⟩, fun _ _ => none, fun _ _ => 0⟩

/-- Transaction 7 asks for the write lock of a key of one data table. -/
def writeRequest (key : Nat) : LockRequest Nat :=
  ⟨⟨0, ⟨"t", .primary⟩, key⟩, ⟨7, key⟩, 1, 0, .unknown, .write, .repeatableRead, .occ, 0, false,
    .primary⟩

/-- Transaction 7 locks two keys, at time 1 and at time 5. -/
def twoWrites : LockWorld Nat Nat :=
  ((start.exec (.acquire (writeRequest 1) .writeLock)).exec (.advance 5)).exec
    (.acquire (writeRequest 2) .writeLock)

theorem twoWrites_reached : Reached twoWrites := by
  have data (w : LockWorld Nat Nat) (key : Nat) :
      NoMetaUnderData w (.acquire (writeRequest key) .writeLock) :=
    fun isMeta => by simp [writeRequest, TableType.isMeta] at isMeta
  have first : Reached (start.exec (.acquire (writeRequest 1) .writeLock)) :=
    Reached.exec (.start ⟨fun _ => rfl, rfl, rfl, by decide, fun _ _ => rfl⟩)
      (.acquire (writeRequest 1) .writeLock) ⟨⟨by decide, fun _ => nofun⟩, rfl⟩ (data _ 1)
  have later := first.exec (.advance 5) trivial trivial
  exact later.exec (.acquire (writeRequest 2) .writeLock) ⟨⟨by decide, fun _ => nofun⟩, rfl⟩
    (data _ 2)

/-- The time of the first lock is gone from the record: with both locks held, the
checkpoint timestamp is 4, above the time 1 of the first. -/
theorem activeTxMinTs_above_first_lock :
    Reached twoWrites ∧ twoWrites.registered 7 (writeRequest 1).cce = some 1 ∧
    (twoWrites.shard.keyLock (writeRequest 1).cce).HoldsWriteLock 7 ∧
    (twoWrites.shard.activeTxMinTs 0 10).1 = 4 ∧
    ¬ (twoWrites.shard.activeTxMinTs 0 10).1 < 1 :=
  ⟨twoWrites_reached, by decide, by decide, by decide, by decide⟩

theorem activeTxMinTs_below_latest_lock :
    (twoWrites.shard.keyLock (writeRequest 1).cce).HoldsWriteLock 7 ∧
    (twoWrites.shard.activeTxMinTs 0 10).1 < twoWrites.lastWrite 7 0 ∧
    twoWrites.lastWrite 7 0 = 5 :=
  have below := activeTxMinTs_below_writers twoWrites_reached 7 (writeRequest 1).cce 1 (by decide)
    (by decide) 10
  ⟨below.1, below.2, by decide⟩

end LockWorld

end TxService
