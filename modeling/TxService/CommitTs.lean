import Mathlib.Data.List.Nodup
import Mathlib.Order.MinMax
import Mathlib.Order.Nat

/-!
# The commit timestamp of a transaction

The commit protocol from `Commit` to `SetCommitTsOperation`: what locks and sets bring back makes
the candidate that `SetCommitTimestamp` raises to the clock of the shard.
-/

namespace TxService

universe u

/-- `AcquireKeyResult` of one lock. -/
structure KeyLockResult (A : Type u) where
  cceAddr : A
  term : Int
  commitTs : Nat
  lastValiTs : Nat

/-- The lock on the owner of the key was granted. -/
def KeyLockResult.Granted {A : Type u} (k : KeyLockResult A) : Prop := 0 ≤ k.term ∧ k.commitTs ≠ 0

instance {A : Type u} (k : KeyLockResult A) : Decidable k.Granted :=
  inferInstanceAs (Decidable (_ ∧ _))

/-- A write set entry with the results for its owner and for its forward addresses. -/
structure DataWrite (A : Type u) where
  owner : KeyLockResult A
  forwards : List (KeyLockResult A)

/-- `AcquireAllResult` of one key on one node group. -/
structure CatalogLockResult (A : Type u) where
  localCceAddr : A
  commitTs : Nat
  lastValiTs : Nat

/-- The results of the two stages of `CatalogAcquireAllOp`, and the cluster configuration it
read before. -/
structure CatalogWrites (A : Type u) where
  clusterConfig : A × Nat
  intents : List (CatalogLockResult A)
  locks : List (CatalogLockResult A)

structure CmdVersion where
  objectVersion : Nat
  lastValiTs : Nat

/-- The read set with the cluster configuration that `CatalogAcquireAllOp` reads. -/
def withClusterConfig {A : Type u} (catalogs : Option (CatalogWrites A)) (reads : List (A × Nat)) :
    List (A × Nat) :=
  match catalogs with
  | some c => c.clusterConfig :: reads
  | none => reads

/-- What a transaction brings to its commit: its sets, with the results its lock requests
get, and the clock and the bounds that `SetCommitTimestamp` finds. The read set has the locks on
ranges or buckets already. -/
structure CommitRequest (A : Type u) where
  commitTsBound : Nat
  cmdForward : Bool
  writes : List (DataWrite A)
  catalogs : Option (CatalogWrites A)
  cmds : List CmdVersion
  reads : List (A × Nat)
  distinct : ((withClusterConfig catalogs reads).map Prod.fst).Nodup
  now : Nat
  lowerBound : Nat

/-- The part of the transaction that the steps change. -/
structure CommitState (A : Type u) where
  commitTsBound : Nat
  acquireWrite : List (KeyLockResult A)
  catalogAcquireAll : List (CatalogLockResult A)
  reads : List (A × Nat)

variable {A : Type u} [DecidableEq A]

/-- `DedupRead`: the version that was read, or 0. -/
def readVersion (reads : List (A × Nat)) (addr : A) : Nat :=
  ((reads.find? fun r => r.1 = addr).map Prod.snd).getD 0

def eraseRead (reads : List (A × Nat)) (addr : A) : List (A × Nat) :=
  reads.filter fun r => r.1 ≠ addr

theorem nodup_eraseRead {reads : List (A × Nat)} (distinct : (reads.map Prod.fst).Nodup) (addr : A) :
    ((eraseRead reads addr).map Prod.fst).Nodup :=
  distinct.sublist ((List.filter_sublist).map Prod.fst)

/-- `AggregateAcquiredKeys`: the read set without the written keys, or `none` when one of
them has another version than the one that was read. -/
def aggregateAcquiredKeys : List (DataWrite A) → List (A × Nat) → Option (List (A × Nat))
  | [], reads => some reads
  | w :: rest, reads =>
    if w.owner.Granted then
      let version := readVersion reads w.owner.cceAddr
      if 0 < version ∧ version ≠ w.owner.commitTs then none
      else aggregateAcquiredKeys rest (eraseRead reads w.owner.cceAddr)
    else aggregateAcquiredKeys rest reads

/-- `AcquireAllOp::Forward` when all requests have succeeded: the bound and the read set, or
`none` when a key has another version than the one that was read. -/
def acquireAllForward : List (CatalogLockResult A) → Nat → List (A × Nat) →
    Option (Nat × List (A × Nat))
  | [], bound, reads => some (bound, reads)
  | c :: rest, bound, reads =>
    let version := readVersion reads c.localCceAddr
    if 0 < version ∧ version ≠ c.commitTs then none
    else acquireAllForward rest (max bound (max (c.commitTs + 1) (c.lastValiTs + 1)))
      (eraseRead reads c.localCceAddr)

def lockValues (ks : List (KeyLockResult A)) : List Nat :=
  ks.flatMap fun k => [k.lastValiTs + 1, k.commitTs + 1]

def catalogValues (cs : List (CatalogLockResult A)) : List Nat :=
  cs.flatMap fun c => [c.commitTs + 1, c.lastValiTs + 1]

def cmdValues (cmds : List CmdVersion) : List Nat :=
  cmds.flatMap fun c => [c.lastValiTs + 1, c.objectVersion + 1]

def readValues (reads : List (A × Nat)) : List Nat := reads.map fun r => r.2 + 1

/-- `Process(SetCommitTsOperation)` and `SetCommitTimestamp`. -/
def setCommitTs (i : CommitRequest A) (s : CommitState A) : Nat :=
  let candidate := (lockValues s.acquireWrite ++
    ((if i.catalogs.isSome then catalogValues s.catalogAcquireAll else []) ++
      (cmdValues i.cmds ++ readValues s.reads))).foldl max s.commitTsBound
  max i.now (max i.lowerBound candidate)

/-- `CatalogAcquireAllOp` and its `PostProcess`, which resets the operation before the
timestamp is set. -/
def catalogAcquireAll (i : CommitRequest A) (c : CatalogWrites A) (s : CommitState A) : Option Nat :=
  (acquireAllForward c.intents s.commitTsBound (c.clusterConfig :: s.reads)).bind fun intent =>
    (acquireAllForward c.locks intent.1 intent.2).map fun lock =>
      setCommitTs i { s with commitTsBound := lock.1, catalogAcquireAll := [], reads := lock.2 }

def acquiredKeys (writes : List (DataWrite A)) : List (KeyLockResult A) :=
  writes.flatMap fun w => w.owner :: w.forwards

/-- `PostProcess(AcquireWriteOperation)`: with catalog writes the operation is reset while the
catalog locks are acquired, otherwise only after the timestamp is set. -/
def postProcessAcquireWrite (i : CommitRequest A) (s : CommitState A) : Option Nat :=
  match i.catalogs with
  | some c => catalogAcquireAll i c { s with acquireWrite := [] }
  | none => some (setCommitTs i s)

/-- `Commit` up to the commit timestamp; `none` when the transaction aborts. -/
def CommitRequest.commit (i : CommitRequest A) : Option Nat :=
  let s : CommitState A := ⟨i.commitTsBound, [], [], i.reads⟩
  if i.cmdForward then
    if i.writes = [] then some (setCommitTs i s) else none
  else if i.writes ≠ [] then
    (aggregateAcquiredKeys i.writes i.reads).bind fun reads =>
      postProcessAcquireWrite i { s with acquireWrite := acquiredKeys i.writes, reads := reads }
  else
    match i.catalogs with
    | some c => catalogAcquireAll i c s
    | none => some (setCommitTs i s)

namespace CommitRequest

/-- The versions that the transaction has read by the time its timestamp is set. -/
def versionsRead (i : CommitRequest A) : List (A × Nat) :=
  if i.cmdForward then i.reads else withClusterConfig i.catalogs i.reads

/-- The timestamp is greater than everything the transaction touched. -/
structure Dominated (i : CommitRequest A) (ts : Nat) : Prop where
  data : ∀ w ∈ i.writes, w.owner.Granted → w.owner.commitTs < ts ∧ w.owner.lastValiTs < ts
  catalog : i.cmdForward = false → ∀ c ∈ i.catalogs, ∀ l ∈ c.locks,
    l.commitTs < ts ∧ l.lastValiTs < ts
  cmds : ∀ c ∈ i.cmds, c.objectVersion < ts ∧ c.lastValiTs < ts
  reads : ∀ r ∈ i.versionsRead, r.2 < ts

/-- The addresses of the data keys that the transaction has locked. -/
def dataAddrs (writes : List (DataWrite A)) : List A :=
  (writes.filter fun w => w.owner.Granted).map fun w => w.owner.cceAddr

/-- The clock and the bounds, and what the transaction touched apart from the data keys it
locked, each plus one. -/
def otherValues (i : CommitRequest A) (c : CatalogWrites A) : List Nat :=
  i.now :: i.lowerBound :: i.commitTsBound ::
    (catalogValues c.intents ++ (catalogValues c.locks ++ (cmdValues i.cmds ++
      readValues (c.clusterConfig :: i.reads.filter fun r => r.1 ∉ dataAddrs i.writes))))

/-- With both data and catalog writes, something else is greater than each timestamp of a
data lock. -/
def DataCovered (i : CommitRequest A) : Prop :=
  ∀ c ∈ i.catalogs, ∀ w ∈ i.writes, w.owner.Granted →
    (∃ v ∈ i.otherValues c, w.owner.commitTs < v) ∧ ∃ v ∈ i.otherValues c, w.owner.lastValiTs < v

end CommitRequest

end TxService
