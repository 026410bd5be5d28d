import TxService.ReadSpecs

/-!
# Transactions on one shard

Any number of transactions send their requests to one shard, in any order. A blocked request is
parked until the shard resumes it. Installed versions and snapshot reads are recorded on the side.
-/

namespace TxService

open Transition

variable {K V : Type}

/-- A request that waits for a lock, or for the shard to take it up again. -/
inductive Parked (K : Type)
  | acquire (r : AcquireCc K)
  | read (r : ReadCc K) (blockedBy : BlockedBy)
  deriving DecidableEq

namespace Parked

def cce : Parked K → Cce K
  | .acquire r => r.cce
  | .read r _ => r.cce

def req : Parked K → CcRequest
  | .acquire r => r.req
  | .read r _ => r.req

/-- The lock the request is granted when it resumes. -/
def lockType : Parked K → LockType
  | .acquire _ => .writeLock
  | .read r .blockByLock => r.lockType
  | .read _ _ => .readLock

end Parked

/-- A transaction as its coordinator knows it. -/
structure TxState (K : Type) where
  reads : List (Cce K × Nat)
  acquired : List (Cce K × AcquireKeyResult)
  commitTs : Option Nat
  validated : List (Cce K × Nat)
  failed : Bool
  deriving DecidableEq

namespace TxState

def fresh : TxState K := ⟨[], [], none, [], false⟩

/-- `SetCommitTsOperation`: the smallest commit timestamp allowed. -/
def candidate (tx : TxState K) (commitTsBound : Nat) : Nat :=
  let candidate := tx.acquired.foldl
    (fun c key => max (max c (key.2.lastValiTs + 1)) (key.2.commitTs + 1)) commitTsBound
  tx.reads.foldl (fun c read => max c (read.2 + 1)) candidate

/-- Every read has been validated, and none failed. -/
def Valid (tx : TxState K) : Prop := tx.failed = false ∧ ∀ read ∈ tx.reads, read ∈ tx.validated

def noteRead (tx : TxState K) (r : ReadCc K) : Outcome (ReadResult V) → TxState K
  | .finished res =>
    if r.isReadSnapshot then tx else { tx with reads := (r.cce, res.ts) :: tx.reads }
  | _ => tx

def noteAcquire (tx : TxState K) (cce : Cce K) : Outcome AcquireKeyResult → TxState K
  | .finished res => { tx with acquired := (cce, res) :: tx.acquired }
  | _ => tx

def notePostRead (tx : TxState K) (cce : Cce K) (versionTs : Nat) : Outcome Unit → TxState K
  | .finished _ => { tx with validated := (cce, versionTs) :: tx.validated }
  | _ => { tx with failed := true }

end TxState

/-- A snapshot read is answered if it found a version, live or deleted: the entry,
the read timestamp and the version. -/
def ReadCc.answers (r : ReadCc K) : Outcome (ReadResult V) → List (Cce K × Nat × Nat)
  | .finished res =>
    if r.isReadSnapshot = true ∧ (res.recStatus = .normal ∨ res.recStatus = .deleted) then
      [(r.cce, r.readTimestamp, res.ts)]
    else []
  | _ => []

def ReadCc.parks (r : ReadCc K) : Outcome (ReadResult V) → Option (Parked K)
  | .blockedByLock => some (.read r .blockByLock)
  | .blockedByPostWrite => some (.read r .blockByPostWrite)
  | _ => none

def AcquireCc.parks (r : AcquireCc K) : Outcome AcquireKeyResult → Option (Parked K)
  | .blockedByLock => some (.acquire r)
  | _ => none

structure TxWorld (K V : Type) where
  shard : CcShard K V
  txs : TxNumber → TxState K
  parked : TxNumber → Cce K → Option (Parked K)
  /-- The versions of each entry, newest first. -/
  installed : Cce K → List Nat
  /-- The snapshot reads answered from memory. -/
  answered : List (Cce K × Nat × Nat)

/-- `releaseRead` and `releaseWrite` are what a transaction sends that aborts. -/
inductive TxEvent (K V : Type)
  | read (r : ReadCc K)
  | acquire (r : AcquireCc K)
  | resume (txn : TxNumber) (cce : Cce K)
  | setCommitTs (txn : TxNumber) (commitTsBound commitTs : Nat)
  | postRead (txn : TxNumber) (cce : Cce K) (versionTs : Nat)
  | postWrite (txn : TxNumber) (cce : Cce K) (isDel : Bool) (payload : Option V) (recycleTs : Nat)
  | releaseRead (txn : TxNumber) (cce : Cce K)
  | releaseWrite (txn : TxNumber) (cce : Cce K)
  | advance (ts : Nat)

namespace TxWorld

variable [DecidableEq K]

def park (parked : TxNumber → Cce K → Option (Parked K)) (txn : TxNumber) (cce : Cce K)
    (p : Option (Parked K)) : TxNumber → Cce K → Option (Parked K) :=
  Function.update parked txn (Function.update (parked txn) cce p)

def afterAcquire (w : TxWorld K V) (r : AcquireCc K)
    (out : Outcome AcquireKeyResult × CcShard K V) : TxWorld K V where
  shard := out.2
  txs := Function.update w.txs r.req.txn ((w.txs r.req.txn).noteAcquire r.cce out.1)
  parked := park w.parked r.req.txn r.cce (r.parks out.1)
  -- a key that turned out never to have existed has its first version now
  installed := if (w.shard.entries r.cce).payloadStatus = .unknown ∧
      (out.2.entries r.cce).payloadStatus ≠ .unknown then
    Function.update w.installed r.cce ((out.2.entries r.cce).commitTs :: w.installed r.cce)
    else w.installed
  answered := w.answered

def afterRead (w : TxWorld K V) (r : ReadCc K) (out : Outcome (ReadResult V) × CcShard K V) :
    TxWorld K V where
  shard := out.2
  txs := Function.update w.txs r.req.txn ((w.txs r.req.txn).noteRead r out.1)
  parked := park w.parked r.req.txn r.cce (r.parks out.1)
  installed := w.installed
  answered := r.answers out.1 ++ w.answered

def afterPostRead (w : TxWorld K V) (r : PostReadCc K) (out : Outcome Unit × CcShard K V) :
    TxWorld K V :=
  { w with
    shard := out.2
    txs := Function.update w.txs r.txn ((w.txs r.txn).notePostRead r.cce r.keyTs out.1) }

/-- Every write that found its lock counts as installed. -/
def afterPostWrite (w : TxWorld K V) (r : PostWriteCc K V) (s' : CcShard K V) : TxWorld K V :=
  { w with
    shard := s'
    installed := if (w.shard.keyLock r.cce).HoldsWriteLock r.txn ∧ 0 < r.commitTs then
      Function.update w.installed r.cce (r.commitTs :: w.installed r.cce) else w.installed }

def exec (cfg : ShardConfig) (w : TxWorld K V) : TxEvent K V → TxWorld K V
  | .read r => w.afterRead r (w.shard.executeReadCc r .notBlocked)
  | .acquire r => w.afterAcquire r (w.shard.executeAcquireCc cfg r false)
  | .resume txn cce =>
    match w.parked txn cce with
    | none => w
    | some (.acquire r) => w.afterAcquire r (w.shard.executeAcquireCc cfg r true)
    | some (.read r blockedBy) => w.afterRead r (w.shard.executeReadCc r blockedBy)
  | .setCommitTs txn _ commitTs =>
    { w with txs := Function.update w.txs txn { w.txs txn with commitTs := some commitTs } }
  | .postRead txn cce versionTs =>
    let r : PostReadCc K := ⟨cce, txn, versionTs, (w.txs txn).commitTs.getD 0⟩
    w.afterPostRead r (w.shard.executePostReadCc r)
  | .postWrite txn cce isDel payload recycleTs =>
    let r : PostWriteCc K V :=
      ⟨cce, false, txn, (w.txs txn).commitTs.getD 0, isDel, payload, false⟩
    w.afterPostWrite r (w.shard.executePostWriteCc cfg recycleTs r).2
  | .releaseRead txn cce => { w with shard := (w.shard.executePostReadCc ⟨cce, txn, 0, 0⟩).2 }
  | .releaseWrite txn cce =>
    { w with shard := (w.shard.executePostWriteCc cfg 0 ⟨cce, false, txn, 0, false, none, false⟩).2 }
  | .advance ts => { w with shard := w.shard.updateTsBase ts }

/-- The assertion a read makes where it decides to wait for a write. -/
def Promised (s : CcShard K V) (r : ReadCc K) (blockedBy : BlockedBy) : Prop :=
  (s.lockForRead r blockedBy).1.2 = .noError →
    CcShard.WriteOnItsWay (s.lockForRead r blockedBy).2 r

/-- A transaction has one request at a time on an entry, locks a key once, and
reads and locks before it chooses its commit timestamp. -/
def Enabled (w : TxWorld K V) : TxEvent K V → Prop
  | .read r => (w.txs r.req.txn).commitTs = none ∧ w.parked r.req.txn r.cce = none ∧
    Promised w.shard r .notBlocked
  | .acquire r => (w.txs r.req.txn).commitTs = none ∧ w.parked r.req.txn r.cce = none ∧
    ∀ key ∈ (w.txs r.req.txn).acquired, key.1 ≠ r.cce
  | .resume txn cce =>
    match w.parked txn cce with
    | none => False
    | some (.acquire r) => (cce, r.req) ∈ w.shard.ccQueue
    | some (.read r blockedBy) => (cce, r.req) ∈ w.shard.ccQueue ∧ Promised w.shard r blockedBy
  | .setCommitTs txn commitTsBound commitTs => (w.txs txn).commitTs = none ∧
    (∀ cce, w.parked txn cce = none) ∧ (w.txs txn).candidate commitTsBound ≤ commitTs
  | .postRead txn cce versionTs => (w.txs txn).commitTs ≠ none ∧
    (cce, versionTs) ∈ (w.txs txn).reads
  | .postWrite txn cce _ _ _ => (w.txs txn).commitTs ≠ none ∧ (w.txs txn).Valid ∧
    ∃ res, (cce, res) ∈ (w.txs txn).acquired
  | .releaseRead txn cce => w.parked txn cce = none
  | .releaseWrite txn cce => w.parked txn cce = none
  | .advance _ => True

def Step (cfg : ShardConfig) (w : TxWorld K V) (e : TxEvent K V) (w' : TxWorld K V) : Prop :=
  w.Enabled e ∧ w' = w.exec cfg e

/-- Nothing has happened yet. What is known of an entry has a timestamp, and
without MVCC there is nothing but its newest version. -/
structure Initial (cfg : ShardConfig) (w : TxWorld K V) : Prop where
  locks : ∀ c, w.shard.locks c = none
  ccQueue : w.shard.ccQueue = []
  now : 0 < w.shard.now
  positive : ∀ c, (w.shard.entries c).payloadStatus ≠ .unknown → 0 < (w.shard.entries c).commitTs
  archives : cfg.enableMvcc = false → ∀ c, (w.shard.entries c).archives.getD [] = []
  txs : ∀ t, w.txs t = .fresh
  parked : ∀ t c, w.parked t c = none
  installed : ∀ c, w.installed c = if (w.shard.entries c).payloadStatus = .unknown then []
    else [(w.shard.entries c).commitTs]
  answered : w.answered = []

def Reached (cfg : ShardConfig) : TxWorld K V → Prop := Reachable (Initial cfg) (Step cfg)

theorem Reached.exec {cfg : ShardConfig} {w : TxWorld K V} (h : Reached cfg w) (e : TxEvent K V)
    (enabled : w.Enabled e) : Reached cfg (w.exec cfg e) :=
  Reachable.next h ⟨enabled, rfl⟩

/-- The key the examples are about, and a shard where everything is at version 1. -/
def oneEntry : Cce Nat := ⟨0, ⟨"t", .primary⟩, 5⟩

def versionOne : TxWorld Nat Nat where
  shard := ⟨fun _ => ⟨some 7, 1, .normal, 0, none⟩, fun _ => none, ∅, 0, 1, []⟩
  txs _ := .fresh
  parked _ _ := none
  installed _ := [1]
  answered := []

theorem versionOne_initial (cfg : ShardConfig) : Initial cfg versionOne :=
  ⟨fun _ => rfl, rfl, by decide, fun _ _ => Nat.one_pos, fun _ _ => rfl, fun _ => rfl,
    fun _ _ => rfl, fun _ => rfl, rfl⟩

end TxWorld

/-- What a parked request can be: a snapshot read never waits for a lock of its own. -/
def Parked.Sensible : Parked K → Prop
  | .acquire _ => True
  | .read r blockedBy =>
    blockedBy = .blockByPostWrite ∨ (blockedBy = .blockByLock ∧ r.isReadSnapshot = false)

/-- Whatever waits at a lock or is about to resume is parked, and what is about to
resume has its lock. -/
structure Linked (s : CcShard K V) (parked : TxNumber → Cce K → Option (Parked K)) : Prop where
  orderly : CcShard.Orderly s
  queued : ∀ c, ∀ e ∈ (s.keyLock c).blockingQueue,
    ∃ p, parked e.req.txn c = some p ∧ p.lockType = e.lkType
  resuming : ∀ c req, (c, req) ∈ s.ccQueue →
    ∃ p, parked req.txn c = some p ∧ (s.keyLock c).Has req.txn p.lockType
  fits : ∀ t c p, parked t c = some p → p.cce = c ∧ p.req.txn = t ∧ p.Sensible

namespace Linked

variable {s s' : CcShard K V} {parked : TxNumber → Cce K → Option (Parked K)}

theorem idle (h : Linked s parked) {t : TxNumber} {c : Cce K} (free : parked t c = none) :
    CcShard.Idle s c t := by
  refine ⟨fun hw => ?_, fun req hr htx => ?_⟩
  · obtain ⟨e, he, rfl⟩ := List.mem_map.mp hw
    obtain ⟨p, hp, -⟩ := h.queued c e he
    cases free.symm.trans hp
  · obtain ⟨p, hp, -⟩ := h.resuming c req hr
    cases (htx ▸ free).symm.trans hp

theorem park_same [DecidableEq K] (t : TxNumber) (c : Cce K) (p : Option (Parked K)) :
    TxWorld.park parked t c p t c = p := by simp [TxWorld.park]

theorem park_ne [DecidableEq K] {t u : TxNumber} {c cce : Cce K} (p : Option (Parked K))
    (ne : t ≠ u ∨ c ≠ cce) : TxWorld.park parked u cce p t c = parked t c := by
  unfold TxWorld.park
  by_cases ht : t = u
  · subst ht
    have hc := ne.resolve_left fun hn => hn rfl
    simp [hc]
  · simp [ht]

/-- A request that does not wait leaves its transaction without outstanding ones. -/
theorem park_free [DecidableEq K] (p : Option (Parked K)) (t : TxNumber) (cce : Cce K)
    (free : ∀ c, parked t c = none) (finished : p = none) (c : Cce K) :
    TxWorld.park parked t cce p t c = none := by
  by_cases hc : c = cce
  · rw [hc, park_same, finished]
  · rw [park_ne p (Or.inr hc)]
    exact free c

theorem step [DecidableEq K] (h : Linked s parked) {u : TxNumber} {cce : Cce K}
    {asks : Bool} {queued : Option LockType} (effect : CcShard.Effect u cce asks queued s s')
    (free : u ∉ (s.keyLock cce).waiting)
    (quiet : ∀ req, (cce, req) ∈ s'.ccQueue → req.txn ≠ u) {p : Option (Parked K)}
    (waits : ∀ ty, queued = some ty → ∃ q, p = some q ∧ q.lockType = ty)
    (fits : ∀ q, p = some q → q.cce = cce ∧ q.req.txn = u ∧ q.Sensible) :
    Linked s' (TxWorld.park parked u cce p) := by
  refine ⟨effect.orderly, ?_, ?_, ?_⟩
  · intro c e he
    rcases effect.queue c e he with he | ⟨rfl, rfl, hty⟩
    · have ne : e.req.txn ≠ u ∨ c ≠ cce := by
        by_contra hn
        obtain ⟨rfl, rfl⟩ := (not_or.mp hn).imp not_not.mp not_not.mp
        exact free (List.mem_map_of_mem he)
      rw [park_ne p ne]
      exact h.queued c e he
    · rw [park_same]
      exact waits e.lkType hty
  · intro c req hr
    have ne : req.txn ≠ u ∨ c ≠ cce := by
      by_contra hn
      obtain ⟨htx, rfl⟩ := (not_or.mp hn).imp not_not.mp not_not.mp
      exact quiet req hr htx
    rw [park_ne p ne]
    rcases effect.resumed c req hr with hr' | ⟨e, he, rfl, has⟩
    · obtain ⟨q, hq, has⟩ := h.resuming c req hr'
      exact ⟨q, hq, effect.has has (h.orderly.left c req hr') ne⟩
    · obtain ⟨q, hq, hty⟩ := h.queued c e he
      exact ⟨q, hq, hty ▸ has⟩
  · intro t c q hq
    by_cases ne : t ≠ u ∨ c ≠ cce
    · rw [park_ne p ne] at hq
      exact h.fits t c q hq
    · obtain ⟨rfl, rfl⟩ := (not_or.mp ne).imp not_not.mp not_not.mp
      rw [park_same] at hq
      exact fits q hq

/-- A request of a transaction with nothing parked there that does not wait. -/
theorem release [DecidableEq K] (h : Linked s parked) {u : TxNumber} {cce : Cce K}
    {asks : Bool} (effect : CcShard.Effect u cce asks none s s') (free : parked u cce = none) :
    Linked s' parked := by
  have idle := h.idle free
  have := h.step effect idle.1 (effect.quiet idle) (p := none) (by simp) (by simp)
  rwa [show TxWorld.park parked u cce none = parked by
    funext t c
    by_cases ne : t ≠ u ∨ c ≠ cce
    · exact park_ne none ne
    · obtain ⟨rfl, rfl⟩ := (not_or.mp ne).imp not_not.mp not_not.mp
      rw [park_same, free]] at this

end Linked

end TxService
