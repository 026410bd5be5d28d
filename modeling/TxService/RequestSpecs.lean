import TxService.RequestEffects

/-!
# What the requests of a writer do

One specification for each `Execute` but the read's: its effect on the locks, and
what a result says about the entry, the shard's `last_read_ts_` and the write lock.
-/

namespace TxService

/-- The lock a request that stopped without a result waits for. -/
def Outcome.waitsFor {α : Type} (ty : LockType) : Outcome α → Option LockType
  | .blockedByLock => some ty
  | .blockedByPostWrite => some .readLock
  | _ => none

def CcErrorCode.waitsFor (ty : LockType) : CcErrorCode → Option LockType
  | .acquireLockBlocked => some ty
  | .mvccReadMustWaitWrite => some .readLock
  | _ => none

namespace CcShard

open NonBlockingLock

variable {K V : Type} [DecidableEq K] {s : CcShard K V} {cce : Cce K} {req : CcRequest}
  {txTerm : Int} {lockType : LockType} {protocol : CcProtocol} {readTs : Nat}
  {tableType : TableType} {snapshotRead : Prop} {out : (LockType × CcErrorCode) × CcShard K V}
  {asks : Bool}

theorem AcquireCases.effect
    (h : AcquireCases s cce req txTerm lockType protocol readTs tableType snapshotRead out)
    (o : Orderly s) (idle : Idle s cce req.txn) (kind : lockType = .writeLock → asks = true) :
    Effect req.txn cce asks (out.1.2.waitsFor lockType) s out.2 := by
  have tidy := o.tidy cce
  have acquired := acquireLock_requested protocol lockType tidy idle.1
  cases h with
  | conflict => exact .of_untouched (.refl s) o
  | mustWait _ wait =>
    exact .of_requested
      (.of_lock (insertBlockingQueue_requested tidy idle.1 (mustWaitWrite_locked wait))) o idle
      (by simp) (Or.inl rfl)
  | unlocked => exact .of_untouched (.refl s) o
  | granted ok =>
    have queue := acquireLock_successful ok
    exact (Effect.of_requested (.of_lock acquired) o idle kind (Or.inr (by simpa using queue))).congr
      rfl rfl
  | failed err code =>
    have waits : err.waitsFor lockType = none := by rcases code with rfl | rfl <;> rfl
    have same : Requested req lockType (s.keyLock cce) (s.keyLock cce) := .unchanged tidy
    exact waits ▸ .of_requested (.of_lock same) o idle kind (Or.inr (by simp))
  | blocked => exact .of_requested (.of_lock acquired) o idle kind (Or.inl rfl)

section
variable (h : AcquireCases s cce req txTerm lockType protocol readTs tableType snapshotRead out)
include h

theorem AcquireCases.frame :
    LockFrame s out.2 := by
  cases h <;> exact ⟨rfl, rfl, rfl⟩

theorem AcquireCases.waits_for_snapshot (wait : out.1.2 = .mvccReadMustWaitWrite) :
    snapshotRead := by
  cases h with
  | mustWait read => exact read
  | failed err kind => rcases kind with rfl | rfl <;> cases wait
  | _ => cases wait

theorem AcquireCases.blocked_kind (blocked : out.1.2 = .acquireLockBlocked) :
    lockType ≠ .noLock := by
  cases h with
  | blocked kind => exact kind
  | failed err kind => rcases kind with rfl | rfl <;> cases blocked
  | _ => cases blocked

theorem AcquireCases.no_wait (ok : out.1.2 = .noError) (read : snapshotRead) :
    s.mustWaitWrite cce readTs = false := by
  cases h with
  | unlocked free => exact free read
  | granted _ free => exact free read
  | failed err kind => rcases kind with rfl | rfl <;> cases ok
  | _ => cases ok

end

/-- A write lock is granted only to its holder or where nobody has it. -/
theorem AcquireCases.alone
    (h : AcquireCases s cce req txTerm .writeLock protocol readTs tableType snapshotRead out)
    (tidy : Tidy (s.keyLock cce)) (fresh : req.txn ∉ (s.keyLock cce).waiting)
    (ok : out.1.2 = .noError) :
    ∀ t, (s.keyLock cce).HoldsWriteLock t → t = req.txn := by
  cases h with
  | unlocked _ kind => exact absurd rfl kind
  | granted granted =>
    intro t ht
    have keeps := (acquireLock_requested protocol .writeLock tidy fresh).keeps t ht
    exact keeps.unique (acquireLock_writeLock granted)
  | failed err kind => rcases kind with rfl | rfl <;> cases ok
  | _ => cases ok

theorem releaseCceLock_effect (s : CcShard K V) (cce : Cce K) (u : TxNumber) (ty : LockType)
    (recycleLock : Bool) (o : Orderly s) :
    Effect u cce asks none s (s.releaseCceLock cce u ty recycleLock) ∧
      LockFrame s (s.releaseCceLock cce u ty recycleLock) := by
  rcases releaseCceLock_cases s cce u ty recycleLock (o.tidy cce) with ⟨-, h, -⟩ | ⟨-, h, -⟩
  · exact ⟨.of_untouched h o, h.toLockFrame⟩
  · exact ⟨.of_released h o, h.toLockFrame⟩

/-- A resumed request keeps its lock, or gives it back. -/
theorem lockHandleForResumedRequest_effect (s : CcShard K V) (cce : Cce K) (commitTs : Nat)
    (status : RecordStatus) (req : CcRequest) (txTerm : Int) (ccOp : CcOperation)
    (isoLevel : IsolationLevel) (protocol : CcProtocol) (readTs : Nat) (isCoveringKeys : Bool)
    (tableType : TableType) (o : Orderly s) :
    let r := s.lockHandleForResumedRequest cce commitTs status req txTerm ccOp isoLevel protocol
      readTs isCoveringKeys tableType
    Effect req.txn cce asks none s r.2 ∧ LockFrame s r.2 := by
  intro r
  rcases lockHandleForResumedRequest_cases s cce commitTs status req txTerm ccOp isoLevel protocol
    readTs isCoveringKeys tableType (o.tidy cce) with h | ⟨-, -, h | h, -⟩
  · have frame : LockFrame s r.2 := by rw [show r = _ from h]; exact ⟨rfl, rfl, rfl⟩
    refine ⟨?_, frame⟩
    rw [show r = _ from h]
    exact (Effect.of_untouched (.refl s) o).congr rfl rfl
  · exact ⟨.of_untouched h o, h.toLockFrame⟩
  · exact ⟨.of_released h o, h.toLockFrame⟩

theorem lockHandleForResumedRequest_code (s : CcShard K V) (cce : Cce K) (commitTs : Nat)
    (status : RecordStatus) (req : CcRequest) (txTerm : Int) (ccOp : CcOperation)
    (isoLevel : IsolationLevel) (protocol : CcProtocol) (readTs : Nat) (isCoveringKeys : Bool)
    (tableType : TableType) :
    let r := s.lockHandleForResumedRequest cce commitTs status req txTerm ccOp isoLevel protocol
      readTs isCoveringKeys tableType
    r.1.2 = .noError ∨ r.1.2 = .mvccReadForWriteConflict := by
  simp only [lockHandleForResumedRequest]
  split
  · exact Or.inl rfl
  · split
    · exact Or.inr rfl
    · exact Or.inl rfl

/-- An acquisition that is new, or that resumes with the lock it waited for. -/
def AcquireReady (s : CcShard K V) (r : AcquireCc K) : Bool → Prop
  | true => (r.cce, r.req) ∈ s.ccQueue ∧ (s.keyLock r.cce).HoldsWriteLock r.req.txn
  | false => Idle s r.cce r.req.txn

theorem lockForWrite_spec {r : AcquireCc K} {blockByLock : Bool} (o : Orderly s)
    (ready : AcquireReady s r blockByLock) :
    let locked := s.lockForWrite r blockByLock
    Effect r.req.txn r.cce true (locked.1.2.waitsFor .writeLock) s locked.2 ∧ LockFrame s locked.2 ∧
      (∀ req, (r.cce, req) ∈ locked.2.ccQueue → req.txn ≠ r.req.txn) ∧
      locked.1.2 ≠ .mvccReadMustWaitWrite ∧
      (locked.1.2 = .noError → ∀ t, (s.keyLock r.cce).HoldsWriteLock t → t = r.req.txn) := by
  cases blockByLock with
  | true =>
    have code := lockHandleForResumedRequest_code (s.dequeue r.cce r.req) r.cce
      (s.entries r.cce).commitTs (s.entries r.cce).payloadStatus r.req r.txTerm .write r.isolation
      r.protocol 0 false r.cce.tableName.type
    obtain ⟨effect, frame⟩ := lockHandleForResumedRequest_effect (s.dequeue r.cce r.req) r.cce
      (s.entries r.cce).commitTs (s.entries r.cce).payloadStatus r.req r.txTerm .write r.isolation
      r.protocol 0 false r.cce.tableName.type (o.dequeue r.cce r.req)
    have waits : (s.lockForWrite r true).1.2.waitsFor .writeLock = none ∧
        (s.lockForWrite r true).1.2 ≠ .mvccReadMustWaitWrite := by
      rcases code with code | code <;> simp [lockForWrite, code, CcErrorCode.waitsFor]
    exact ⟨waits.1 ▸ effect.after_dequeue, ⟨frame.entries, frame.lastReadTs, frame.now⟩,
      effect.quiet (o.dequeue_idle ready.1), waits.2, fun _ t ht => ht.unique ready.2⟩
  | false =>
    have acquired := acquireCceKeyLock_cases s r.cce (s.entries r.cce).commitTs
      (s.entries r.cce).payloadStatus r.req r.txTerm
      (deduceLockType .write r.isolation r.protocol false) .write r.isolation r.protocol 0
      r.cce.tableName.type
    have effect := acquired.effect o ready fun _ => rfl
    refine ⟨effect, acquired.frame, effect.quiet ready, fun wait => ?_,
      acquired.alone (o.tidy r.cce) ready.1⟩
    rcases (acquired.waits_for_snapshot wait).2 with hop | hop <;> cases hop

/-- What acquiring a key can do to its entry: one that is unknown may turn out
never to have existed. -/
structure EntryFound (e e' : CcEntry V) : Prop where
  known : e.payloadStatus ≠ .unknown → e' = e
  unknown : e.payloadStatus = .unknown → e'.archives = e.archives ∧
    (e'.payloadStatus = .unknown ∧ e'.commitTs = e.commitTs ∨
      e.commitTs = 0 ∧ e'.payloadStatus = .deleted ∧ e'.commitTs = 1)

theorem EntryFound.refl (e : CcEntry V) : EntryFound e e :=
  ⟨fun _ => rfl, fun h => ⟨rfl, Or.inl ⟨h, rfl⟩⟩⟩

theorem setUnknown_found {e : CcEntry V} (h : e.payloadStatus = .unknown) :
    EntryFound e ((e.setCommitTsPayloadStatus 1 .deleted).setCkptTs 1) := by
  refine ⟨fun hn => absurd h hn, fun _ => ?_⟩
  unfold CcEntry.setCommitTsPayloadStatus CcEntry.setCkptTs
  split
  · rename_i hc
    have zero : e.commitTs = 0 := by omega
    split <;> exact ⟨rfl, Or.inr ⟨zero, rfl, rfl⟩⟩
  · split <;> exact ⟨rfl, Or.inl ⟨h, rfl⟩⟩

structure AcquireSpec (s : CcShard K V) (r : AcquireCc K)
    (out : Outcome AcquireKeyResult × CcShard K V) : Prop where
  effect : Effect r.req.txn r.cce true (out.1.waitsFor .writeLock) s out.2
  quiet : ∀ req, (r.cce, req) ∈ out.2.ccQueue → req.txn ≠ r.req.txn
  others : ∀ c ≠ r.cce, out.2.entries c = s.entries c
  entry : EntryFound (s.entries r.cce) (out.2.entries r.cce)
  unfinished : (∀ res, out.1 ≠ .finished res) → out.2.entries = s.entries
  lastReadTs : out.2.lastReadTs = s.lastReadTs
  now : out.2.now = s.now
  waits : out.1 ≠ .blockedByPostWrite
  finished : ∀ res, out.1 = .finished res →
    max s.lastReadTs (out.2.keyLock r.cce).wlockTs = res.lastValiTs ∧
    (res.commitTs = if 0 < (s.entries r.cce).commitTs then (s.entries r.cce).commitTs else s.now) ∧
    ∀ t, (s.keyLock r.cce).HoldsWriteLock t → t = r.req.txn

theorem executeAcquireCc_spec (cfg : ShardConfig) {r : AcquireCc K} {blockByLock : Bool}
    (o : Orderly s) (ready : AcquireReady s r blockByLock) :
    AcquireSpec s r (s.executeAcquireCc cfg r blockByLock) := by
  obtain ⟨effect, frame, quiet, noWait, alone⟩ := lockForWrite_spec o ready
  simp only [executeAcquireCc]
  generalize s.lockForWrite r blockByLock = locked at *
  obtain ⟨⟨ty, code⟩, s'⟩ := locked
  simp only at effect frame quiet noWait alone ⊢
  have stopped {out : Outcome AcquireKeyResult}
      (hw : out.waitsFor .writeLock = code.waitsFor .writeLock)
      (hp : out ≠ .blockedByPostWrite) (hf : ∀ res, out ≠ .finished res) :
      AcquireSpec s r (out, s') :=
    ⟨hw ▸ effect, quiet, fun c _ => by rw [frame.entries], frame.entries ▸ .refl _,
      fun _ => frame.entries, frame.lastReadTs, frame.now, hp, fun res hres => absurd hres (hf res)⟩
  cases code with
  | noError =>
    have noted := effect.setWLockTs (alone rfl) (max r.ts s'.now)
    simp only
    split
    · rename_i hc
      refine ⟨noted.congr rfl rfl, quiet, fun c hne => ?_, ?_, by simp, frame.lastReadTs, frame.now,
        by simp, ?_⟩
      · simp [setEntry, hne, setKeyLock, frame.entries]
      · simpa [setEntry] using setUnknown_found hc.1
      · rintro res hres
        obtain rfl := Outcome.finished.inj hres
        refine ⟨?_, by rw [← frame.now], alone rfl⟩
        rw [← frame.lastReadTs]
        simp [keyLock, setEntry, setKeyLock, NonBlockingLock.setWLockTs]
    · refine ⟨noted, quiet, fun c _ => congrFun frame.entries c, ?_, fun _ => frame.entries,
        frame.lastReadTs, frame.now, by simp, ?_⟩
      · simpa only [setKeyLock, frame.entries] using EntryFound.refl _
      · rintro res hres
        obtain rfl := Outcome.finished.inj hres
        refine ⟨?_, by rw [← frame.now], alone rfl⟩
        rw [← frame.lastReadTs]
        simp [keyLock, setKeyLock, NonBlockingLock.setWLockTs]
  | mvccReadMustWaitWrite => exact absurd rfl noWait
  | _ => exact stopped rfl (by simp) (by simp)

structure PostReadSpec (s : CcShard K V) (r : PostReadCc K)
    (out : Outcome Unit × CcShard K V) : Prop where
  effect : Effect r.txn r.cce false none s out.2
  entries : out.2.entries = s.entries
  lastReadTs : s.lastReadTs ≤ out.2.lastReadTs
  now : out.2.now = s.now
  finished : out.1 = .finished () → 0 < r.keyTs →
    r.commitTs ≤ out.2.lastReadTs ∧
    (∀ t, (s.keyLock r.cce).HoldsWriteLock t → t = r.txn) ∧
    ((s.entries r.cce).payloadStatus ≠ .unknown → (s.entries r.cce).commitTs = r.keyTs)

theorem executePostReadCc_spec (r : PostReadCc K) (o : Orderly s) :
    PostReadSpec s r (s.executePostReadCc r) := by
  simp only [executePostReadCc]
  split
  · obtain ⟨effect, frame⟩ := releaseCceLock_effect s r.cce r.txn .noLock
      (decide (r.cce.tableName.type ≠ .catalog)) o
    exact ⟨effect, frame.entries, Nat.le_of_eq frame.lastReadTs.symm, frame.now, by simp⟩
  · rename_i current
    generalize hs : (if 0 < r.keyTs then s.updateLastReadTs r.commitTs else s) = s₁
    have same : s₁.locks = s.locks ∧ s₁.ccQueue = s.ccQueue ∧ s₁.entries = s.entries ∧
        s₁.now = s.now ∧ s.lastReadTs ≤ s₁.lastReadTs := by
      subst hs
      split
      · exact ⟨rfl, rfl, rfl, rfl, Nat.le_max_left _ _⟩
      · exact ⟨rfl, rfl, rfl, rfl, Nat.le_refl _⟩
    obtain ⟨locks, queue, entries, now, last⟩ := same
    obtain ⟨effect, frame⟩ := releaseCceLock_effect s₁ r.cce r.txn .noLock
      (decide (r.cce.tableName.type ≠ .catalog)) (o.congr locks queue)
    refine ⟨effect.congr_left locks queue, frame.entries.trans entries,
      last.trans_eq frame.lastReadTs.symm, frame.now.trans now, ?_⟩
    intro hfin hkey
    refine ⟨?_, ?_, ?_⟩
    · rw [frame.lastReadTs, ← hs, if_pos hkey]
      exact Nat.le_max_right _ _
    · intro t ht
      by_contra hne
      simp [hkey, hasWriteLock, ht.1, ht.2, hne] at hfin
    · intro known
      by_contra hne
      exact current ⟨known, hkey, fun heq => hne heq.symm⟩

/-- The entry once a version no older than its own is written. -/
def overwrite (cfg : ShardConfig) (recycleTs : Nat) (e : CcEntry V) (r : PostWriteCc K V) :
    CcEntry V :=
  (if cfg.enableMvcc then e.archiveForMvcc recycleTs else e).installVersion r.commitTs r.isDel
    r.payload

structure PostWriteSpec (cfg : ShardConfig) (recycleTs : Nat) (s : CcShard K V)
    (r : PostWriteCc K V) (s' : CcShard K V) : Prop where
  effect : Effect r.txn r.cce false none s s'
  lastReadTs : s'.lastReadTs = s.lastReadTs
  now : s'.now = s.now
  entries : s'.entries = if (s.keyLock r.cce).HoldsWriteLock r.txn ∧ 0 < r.commitTs then
    Function.update s.entries r.cce (overwrite cfg recycleTs (s.entries r.cce) r) else s.entries
  released : (s'.keyLock r.cce).HoldsWriteLock r.txn →
    ∃ e ∈ (s.keyLock r.cce).blockingQueue, e.req.txn = r.txn ∧ e.lkType = .writeLock

theorem releaseCceLock_released {u : TxNumber} (recycleLock : Bool) (o : Orderly s)
    (held : (s.keyLock cce).HoldsWriteLock u)
    (h : ((s.releaseCceLock cce u .writeLock recycleLock).keyLock cce).HoldsWriteLock u) :
    ∃ e ∈ (s.keyLock cce).blockingQueue, e.req.txn = u ∧ e.lkType = .writeLock := by
  have found : ((s.keyLock cce).unlock u .writeLock).1 = .writeLock := by
    simp [unlock, releaseWriteLock, held.1, held.2]
  rcases releaseCceLock_cases s cce u .writeLock recycleLock (o.tidy cce) with
    ⟨noLock, -⟩ | ⟨-, rel, -⟩
  · cases noLock.symm.trans found
  · obtain ⟨woken, rel, -⟩ := rel.lock
    rcases rel.writer u h with ⟨hne, -⟩ | ⟨e, he, htx, hty, -⟩
    · exact absurd rfl hne
    · exact ⟨e, he, htx, hty⟩

theorem executePostWriteCc_spec (cfg : ShardConfig) (recycleTs : Nat) {r : PostWriteCc K V}
    (o : Orderly s) (notUpload : r.isUpload = false)
    (newer : (s.keyLock r.cce).HoldsWriteLock r.txn → 0 < r.commitTs →
      (s.entries r.cce).commitTs ≤ r.commitTs) :
    PostWriteSpec cfg recycleTs s r (s.executePostWriteCc cfg recycleTs r).2 := by
  simp only [executePostWriteCc]
  by_cases held : (s.keyLock r.cce).HoldsWriteLock r.txn
  · rw [if_neg (by simp [hasWriteLock, held.1, held.2])]
    split
    · rename_i hpos
      have keep : (if cfg.enableMvcc then (s.entries r.cce).archiveForMvcc recycleTs
          else s.entries r.cce).commitTs = (s.entries r.cce).commitTs := by
        split
        · exact (CcEntry.archiveForMvcc_frame _ _).1
        · rfl
      rw [if_neg (by rw [keep]; exact Nat.not_lt.mpr (newer held hpos)),
        if_neg (by simp [notUpload])]
      have o' : Orderly (s.setEntry r.cce (overwrite cfg recycleTs (s.entries r.cce) r)) :=
        o.congr rfl rfl
      obtain ⟨effect, frame⟩ := releaseCceLock_effect _ r.cce r.txn .writeLock true o'
      exact ⟨effect.congr_left rfl rfl, frame.lastReadTs, frame.now,
        frame.entries.trans (if_pos ⟨held, hpos⟩).symm,
        releaseCceLock_released (s := s.setEntry r.cce _) true o' held⟩
    · rename_i hpos
      obtain ⟨effect, frame⟩ := releaseCceLock_effect s r.cce r.txn .writeLock true o
      exact ⟨effect, frame.lastReadTs, frame.now,
        frame.entries.trans (if_neg fun hc => hpos hc.2).symm,
        releaseCceLock_released true o held⟩
  · rw [if_pos ⟨notUpload, by
      simpa only [HoldsWriteLock, not_and_or, hasWriteLock, decide_eq_false_iff_not] using held⟩]
    exact ⟨.of_untouched (.refl s) o, rfl, rfl, (if_neg fun hc => held hc.1).symm,
      fun h => absurd h held⟩

end CcShard

end TxService
