import TxService.ShardLocks

/-!
# Runs of a shard's lock functions

The shard knows its writers from one record per transaction and node group, which each acquisition
overwrites and each release partly erases.
-/

namespace TxService

open Transition NonBlockingLock

variable {K V : Type} [DecidableEq K]

namespace LockHoldingTxs

/-- The record that covers a write lock: it lists the entry, carries the time of
the latest write lock, and is not taken for one of a meta table. -/
def Covers (txs : LockHoldingTxs K) (txn : TxNumber) (cce : Cce K) (wlockTs : Nat) : Prop :=
  ∃ info, txs.lookup (cce.ngId, txn) = some info ∧ cce ∈ info.cceList ∧
    info.wlockTs = wlockTs ∧ 0 < wlockTs ∧
    (cce.tableName.type.isMeta = false → info.tableType.isMeta = false)

variable {txs : LockHoldingTxs K} {txn u : TxNumber} {cce c : Cce K} {w : Nat}

theorem upsert_covers_other (h : txs.Covers txn c w) (now : Nat) (term : Int) (isWrite : Bool)
    (ty : TableType) (ne : (c.ngId, txn) ≠ (cce.ngId, u)) :
    (txs.upsert now u term cce isWrite ty).Covers txn c w := by
  obtain ⟨info, found, rest⟩ := h
  exact ⟨info, by rw [upsert, AList.lookup_insert_ne ne, found], rest⟩

/-- A further lock of the same transaction keeps its earlier locks covered, at the
time of the new one if that is a write lock. -/
theorem upsert_covers_same {txn : TxNumber} (h : txs.Covers txn c w) {now : Nat} (clock : 0 < now)
    (term : Int) (isWrite : Bool) {ty : TableType} (ng : c.ngId = cce.ngId)
    (table : c.tableName.type.isMeta = false → ty.isMeta = false) :
    (txs.upsert now txn term cce isWrite ty).Covers txn c (if isWrite then now else w) := by
  obtain ⟨info, found, listed, ts, positive, -⟩ := h
  rw [ng] at found
  refine ⟨_, by rw [ng, upsert, AList.lookup_insert], ?_, ?_, ?_, table⟩
  · simp only [found, Option.getD_some]
    exact List.mem_insert_of_mem listed
  · simp only [found, Option.getD_some, ts]
  · split
    · exact clock
    · exact positive

theorem upsert_covers_new (txs : LockHoldingTxs K) {now : Nat} (clock : 0 < now) (txn : TxNumber)
    (term : Int) {cce : Cce K} {ty : TableType}
    (table : cce.tableName.type.isMeta = false → ty.isMeta = false) :
    (txs.upsert now txn term cce true ty).Covers txn cce now :=
  ⟨_, by rw [upsert, AList.lookup_insert], List.mem_insert_self, rfl, clock, table⟩

theorem delete_covers (h : txs.Covers txn c w) (ne : txn ≠ u ∨ c ≠ cce) :
    (txs.delete u cce).Covers txn c w := by
  obtain ⟨info, found, listed, rest⟩ := h
  unfold delete
  by_cases key : (c.ngId, txn) = (cce.ngId, u)
  · rw [Prod.mk.injEq] at key
    have hc : c ≠ cce := ne.resolve_left fun hn => hn key.2
    have kept : c ∈ info.cceList.erase cce := (List.mem_erase_of_ne hc).mpr listed
    rw [← key.1, ← key.2, found]
    simp only [List.ne_nil_of_mem kept, ↓reduceIte]
    exact ⟨_, AList.lookup_insert _, kept, rest⟩
  · refine ⟨info, ?_, listed, rest⟩
    split
    · exact found
    · split
      · rw [AList.lookup_erase_ne key, found]
      · rw [AList.lookup_insert_ne key, found]

omit [DecidableEq K] in
theorem eraseAll_covers {c : Cce K} (keys : List (NodeGroupId × TxNumber))
    (own : ∀ key ∈ keys, key.2 = u) (h : txs.Covers txn c w) (ne : txn ≠ u) :
    Covers (keys.foldl (fun txs ngTx => txs.erase ngTx) txs) txn c w := by
  induction keys generalizing txs with
  | nil => exact h
  | cons key rest ih =>
    refine ih (fun k hk => own k (List.mem_cons_of_mem _ hk)) ?_
    obtain ⟨info, found, covered⟩ := h
    have hne : (c.ngId, txn) ≠ key := by
      rintro rfl
      exact ne (own _ List.mem_cons_self)
    exact ⟨info, by rw [AList.lookup_erase_ne hne, found], covered⟩

end LockHoldingTxs

omit [DecidableEq K] in
/-- A covered write lock on a data table keeps the checkpoint below its time. -/
theorem CcShard.activeTxMinTs_lt {s : CcShard K V} {txn : TxNumber} {cce : Cce K} {w : Nat}
    (h : s.lockHoldingTxs.Covers txn cce w) (data : cce.tableName.type.isMeta = false)
    (clockTs : Nat) : (s.activeTxMinTs cce.ngId clockTs).1 < w := by
  obtain ⟨info, found, -, ts, positive, table⟩ := h
  have mem : w - 1 ∈ s.activeTxTs cce.ngId := by
    refine List.mem_filterMap.mpr ⟨⟨(cce.ngId, txn), info⟩, AList.mem_lookup_iff.mp found, ?_⟩
    have : w ≠ 0 := by omega
    simp [table data, ts, this]
  unfold activeTxMinTs
  cases hmin : (s.activeTxTs cce.ngId).min? with
  | none =>
    rw [List.min?_eq_none_iff.mp hmin] at mem
    cases mem
  | some minTs =>
    have := (List.min?_eq_some_iff.mp hmin).2 _ mem
    simp only
    omega

/-- The arguments of a lock request, as the cc maps pass them. -/
structure LockRequest (K : Type) where
  cce : Cce K
  req : CcRequest
  txTerm : Int
  commitTs : Nat
  payloadStatus : RecordStatus
  ccOp : CcOperation
  isoLevel : IsolationLevel
  protocol : CcProtocol
  readTs : Nat
  isCoveringKeys : Bool
  /-- The type of the map that locks, which for a bucket may be the range map. -/
  tableType : TableType

inductive LockEvent (K : Type)
  | acquire (r : LockRequest K) (lockType : LockType)
  | resume (r : LockRequest K)
  | resumeSnapshotRead (cce : Cce K) (req : CcRequest)
  | release (cce : Cce K) (txn : TxNumber) (lkType : LockType) (recycleLock : Bool)
  | clearTx (txn : TxNumber)
  | advance (ts : Nat)

/-- A shard, with what an observer notes down: at what time the write lock that a
transaction has on an entry was registered, and the time of its latest write
lock registration in a node group. -/
structure LockWorld (K V : Type) where
  shard : CcShard K V
  registered : TxNumber → Cce K → Option Nat
  lastWrite : TxNumber → NodeGroupId → Nat

namespace LockWorld

/-- A transaction sends one request at a time for an entry, and a request resumes
after the shard has put it back into its queue. -/
def Enabled (w : LockWorld K V) : LockEvent K → Prop
  | .acquire r _ => w.shard.Idle r.cce r.req.txn ∧ r.tableType.isMeta = r.cce.tableName.type.isMeta
  | .resume r => (r.cce, r.req) ∈ w.shard.ccQueue ∧
      r.tableType.isMeta = r.cce.tableName.type.isMeta
  | .resumeSnapshotRead cce req => (cce, req) ∈ w.shard.ccQueue
  | _ => True

def note (w : LockWorld K V) (s : CcShard K V) (txn : TxNumber) (cce : Cce K) : LockWorld K V :=
  ⟨s, fun t c => if t = txn ∧ c = cce then some w.shard.now else w.registered t c,
    fun t g => if t = txn ∧ g = cce.ngId then w.shard.now else w.lastWrite t g⟩

def exec (w : LockWorld K V) : LockEvent K → LockWorld K V
  | .acquire r lockType =>
    let out := w.shard.acquireCceKeyLock r.cce r.commitTs r.payloadStatus r.req r.txTerm lockType
      r.ccOp r.isoLevel r.protocol r.readTs r.tableType
    if out.1 = (.writeLock, .noError) then w.note out.2 r.req.txn r.cce
    else { w with shard := out.2 }
  | .resume r =>
    let out := (w.shard.dequeue r.cce r.req).lockHandleForResumedRequest r.cce r.commitTs
      r.payloadStatus r.req r.txTerm r.ccOp r.isoLevel r.protocol r.readTs r.isCoveringKeys
      r.tableType
    if out.1 = (.writeLock, .noError) then
      let noted := w.note out.2 r.req.txn r.cce
      -- a lock that was cleared before the request resumed is not held
      if (out.2.keyLock r.cce).HoldsWriteLock r.req.txn then noted
      else { noted with registered := w.registered }
    else { w with shard := out.2 }
  | .resumeSnapshotRead cce req =>
    let r := (w.shard.keyLock cce).releaseReadLock req.txn
    { w with shard := ((w.shard.dequeue cce req).setKeyLock cce r.2.1).enqueue cce r.2.2 }
  | .release cce txn lkType recycleLock =>
    { w with
      shard := w.shard.releaseCceLock cce txn lkType recycleLock
      registered := fun t c =>
        if t = txn ∧ c = cce ∧ ((w.shard.keyLock cce).unlock txn lkType).1 = .writeLock then none
        else w.registered t c }
  | .clearTx txn =>
    { w with
      shard := w.shard.clearTx txn
      registered := fun t c =>
        if t = txn ∧ c ∈ w.shard.heldBy txn ∧ ((w.shard.keyLock c).clearTx txn).1 = .writeLock
        then none else w.registered t c }
  | .advance ts => { w with shard := w.shard.updateTsBase ts }

/-- While a transaction has a registered write lock on a data table of a node
group, it locks no meta table there. -/
def NoMetaUnderData (w : LockWorld K V) : LockEvent K → Prop
  | .acquire r _ | .resume r => r.tableType.isMeta = true → ∀ c ts,
      w.registered r.req.txn c = some ts → c.ngId = r.cce.ngId →
      c.tableName.type.isMeta = true
  | _ => True

def Step (w : LockWorld K V) (event : LockEvent K) (w' : LockWorld K V) : Prop :=
  Enabled w event ∧ NoMetaUnderData w event ∧ w' = w.exec event

/-- A shard that nobody uses yet, its clock running. -/
def Initial (w : LockWorld K V) : Prop :=
  (∀ cce, w.shard.locks cce = none) ∧ w.shard.ccQueue = [] ∧ w.shard.lockHoldingTxs = ∅ ∧
    0 < w.shard.now ∧ ∀ txn cce, w.registered txn cce = none

/-- The states of the runs in which no transaction locks a meta table of a node
group under its data write lock. -/
def Reached : LockWorld K V → Prop := Reachable Initial Step

theorem Reached.exec {w : LockWorld K V} (h : Reached w) (event : LockEvent K)
    (enabled : Enabled w event) (clean : NoMetaUnderData w event) : Reached (w.exec event) :=
  Reachable.next h ⟨enabled, clean, rfl⟩

end LockWorld

end TxService
