import TxService.ObjectCache
import TxService.Transition

/-!
# An object map while buckets migrate

A node group commits, checkpoints and evicts the keys it owns; the old owners of the others send
what they had in memory, at any time.
-/

namespace TxService

open Transition

universe u v x

/-- The row that a checkpoint has exported for a key and not flushed yet, the latest version
of a key that has been committed here, and the latest that was committed elsewhere. -/
structure MigratedTable (K : Type v) (V : Type u) (B : Type x) where
  cache : ObjectCache K V B
  store : K → StoredRecord V
  exported : K → Option (StoredRecord V)
  now : Nat
  committed : K → Nat
  inherited : K → Nat

variable {K : Type v} {V : Type u} {B : Type x}

namespace MigratedTable

inductive Action (K : Type v) (V : Type u) (B : Type x)
  | tick
  | truncate (cleanTs : Nat)
  | commit (key : K) (commitTs : Nat) (payload : Option V)
  | exportForCkpt (key : K)
  | flush (key : K) (failed : Bool)
  | read (key : K) (skipMissing : Bool)
  | cleanPage (type : CleanType B) (keys busy : List K)
  | setBucketMigrating (isMigrating : Bool)
  | uploadNewBucketInfo (b : B) (dirtyNg dirtyVersion : Nat)
  | uploadBucketInfo (b : B) (ownerNg version : Nat)
  | uploadBatch (rows : List (UploadRow K V))
  | otherCommit (key : K) (version : Nat)
  | otherFlush (key : K) (record : StoredRecord V)

def owns (w : MigratedTable K V B) (b : B) : Prop := (w.cache.buckets b).bucketOwner = w.cache.ngId

instance (w : MigratedTable K V B) (b : B) : Decidable (w.owns b) :=
  inferInstanceAs (Decidable (_ = _))

section
variable [DecidableEq K] [DecidableEq B]

/-- The row of a checkpoint is in the store. -/
def flushed (w : MigratedTable K V B) (key : K) (row : StoredRecord V) : MigratedTable K V B :=
  { w with
    store := Function.update w.store key row
    cache := { w.cache with
      entries := Function.update w.cache.entries key
        ((w.cache.entries key).map fun e => e.setCkptTs row.version) }
    exported := Function.update w.exported key none }

def setBucket (w : MigratedTable K V B) (b : B) (info : MigrationBucketInfo) : MigratedTable K V B :=
  { w with cache := { w.cache with buckets := Function.update w.cache.buckets b info } }

/-- What has been committed here is inherited by others when its bucket leaves. -/
def uploadBucketInfo (mapKeyToBucketId : K → B) (w : MigratedTable K V B) (b : B)
    (ownerNg version : Nat) : MigratedTable K V B :=
  let info := (w.cache.buckets b).uploadBucketInfo ownerNg version
  { w.setBucket b info with
    inherited := fun key =>
      if mapKeyToBucketId key = b ∧ info.bucketOwner ≠ w.cache.ngId ∧
          w.inherited key < w.committed key then w.committed key
      else w.inherited key }

def step (mapKeyToBucketId : K → B) (getTTL : V → Option Nat) (w : MigratedTable K V B) :
    Action K V B → MigratedTable K V B
  | .tick => { w with now := w.now + 1 }
  | .truncate cleanTs =>
    { w with
      cache := w.cache.truncate cleanTs
      store := fun key =>
        if cleanTs ≤ w.cache.schemaTs then w.store key else { w.store key with payload := none } }
  | .commit key commitTs payload =>
    { w with
      cache := w.cache.commit key commitTs payload
      committed := Function.update w.committed key commitTs }
  | .exportForCkpt key =>
    match w.cache.entries key with
    | none => w
    | some e =>
      if e.needCkpt ∧ w.exported key = none then
        { w with
          exported := Function.update w.exported key
            (some ⟨e.commitTs, if e.payloadStatus = .normal then e.curPayload else none⟩) }
      else w
  | .flush key failed =>
    match w.exported key with
    | none => w
    | some row =>
      if failed then { w with exported := Function.update w.exported key none } else w.flushed key row
  | .read key skipMissing =>
    { w with cache := (w.cache.applyCc getTTL w.now (w.store key) key skipMissing).2 }
  | .cleanPage type keys busy =>
    { w with cache := w.cache.cleanPage mapKeyToBucketId getTTL type w.now keys busy }
  | .setBucketMigrating isMigrating => { w with cache := { w.cache with bucketsMigrating := isMigrating } }
  | .uploadNewBucketInfo b dirtyNg dirtyVersion =>
    w.setBucket b ((w.cache.buckets b).uploadNewBucketInfo w.cache.ngId dirtyNg dirtyVersion)
  | .uploadBucketInfo b ownerNg version => w.uploadBucketInfo mapKeyToBucketId b ownerNg version
  | .uploadBatch rows =>
    { w with cache := w.cache.executeUploadBatchCc mapKeyToBucketId true rows }
  | .otherCommit key version => { w with inherited := Function.update w.inherited key version }
  | .otherFlush key record => { w with store := Function.update w.store key record }

/-- Requests are for buckets of the node group, and commit later than every version of their
key. A data sync keeps a table from being truncated and a bucket from leaving. Entries of a
bucket that is not owned are uploaded ones, or are cleaned before the bucket comes back. -/
def Expected (mapKeyToBucketId : K → B) (w : MigratedTable K V B) : Action K V B → Prop
  | .tick | .flush _ _ | .setBucketMigrating _ | .uploadNewBucketInfo _ _ _ => True
  | .truncate _ => ∀ key, w.exported key = none
  | .commit key commitTs _ =>
    w.owns (mapKeyToBucketId key) ∧ w.inherited key < commitTs ∧ w.committed key < commitTs ∧
      ∀ e ∈ w.cache.entries key, e.commitTs < commitTs
  | .exportForCkpt key | .read key _ => w.owns (mapKeyToBucketId key)
  | .cleanPage type keys _ =>
    (∀ key ∈ keys, (w.cache.entries key).isSome) ∧
      match type with
      | .cleanBucketData bucketIds => ∀ b ∈ bucketIds, ¬ w.owns b
      | _ => True
  | .uploadBucketInfo b _ _ =>
    ∀ key, mapKeyToBucketId key = b → w.exported key = none ∧
      (¬ w.owns b → ∀ e ∈ w.cache.entries key, e.payloadStatus ≠ .unknown → e.flushed = true)
  | .uploadBatch rows => ∀ row ∈ rows, row.commitTs ≤ w.inherited row.key
  | .otherCommit key version =>
    ¬ w.owns (mapKeyToBucketId key) ∧ w.inherited key < version ∧ w.committed key < version
  | .otherFlush key _ => ¬ w.owns (mapKeyToBucketId key)

end

/-- The map is empty and the flag not set; the store has any records. -/
def initial (ngId schemaTs : Nat) (buckets : B → MigrationBucketInfo) (store : K → StoredRecord V) :
    MigratedTable K V B where
  cache := ⟨ngId, schemaTs, fun _ => none, false, false, buckets⟩
  store := store
  exported _ := none
  now := 0
  committed _ := 0
  inherited key := (store key).version

/-- Every bucket is of another node group, and the store is empty. -/
def elsewhere : MigratedTable Nat Nat Nat :=
  initial 1 0 (fun _ => ⟨⟨2, 1, noOwner, 0⟩, false⟩) fun _ => ⟨0, none⟩

/-- What a map comes to by steps that are safe in some sense. -/
def ReachedBy [DecidableEq K] [DecidableEq B] (mapKeyToBucketId : K → B) (getTTL : V → Option Nat)
    (safe : MigratedTable K V B → Action K V B → Prop) : MigratedTable K V B → Prop :=
  Reachable (fun w => ∃ ngId schemaTs buckets store, w = initial ngId schemaTs buckets store)
    fun w action w' => (Expected mapKeyToBucketId w action ∧ safe w action) ∧
      w' = step mapKeyToBucketId getTTL w action

theorem ReachedBy.onward [DecidableEq K] [DecidableEq B] {mapKeyToBucketId : K → B}
    {getTTL : V → Option Nat} {safe : MigratedTable K V B → Action K V B → Prop}
    {w : MigratedTable K V B} (h : ReachedBy mapKeyToBucketId getTTL safe w) (action : Action K V B)
    (expected : Expected mapKeyToBucketId w action) (allowed : safe w action) :
    ReachedBy mapKeyToBucketId getTTL safe (step mapKeyToBucketId getTTL w action) :=
  h.next ⟨⟨expected, allowed⟩, rfl⟩

end MigratedTable

end TxService
