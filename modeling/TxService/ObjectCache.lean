import Mathlib.Logic.Function.Basic
import TxService.SyncTables
import TxService.RangeOwnership

/-!
# The object map of a core as a cache

Page cleaning evicts persistent entries, and a bucket that migrates to the node group is warmed up
by `UploadBatchCc` requests of its old owner.
-/

namespace TxService

universe u v x

/-- A bucket, and whether it accepts uploads while it migrates. -/
structure MigrationBucketInfo extends BucketInfo where
  acceptsUploadBatch : Bool := false

/-- `ClearDirty`. -/
def BucketInfo.clearDirty (b : BucketInfo) : BucketInfo :=
  { b with dirtyBucketOwner := noOwner, dirtyVersion := 0 }

namespace MigrationBucketInfo

/-- `UploadNewBucketInfo` on the node group `ngId`. -/
def uploadNewBucketInfo (b : MigrationBucketInfo) (ngId dirtyNg : NodeGroupId) (dirtyVersion : Nat) :
    MigrationBucketInfo where
  toBucketInfo := b.setDirty dirtyNg dirtyVersion
  acceptsUploadBatch := if dirtyNg = ngId then true else b.acceptsUploadBatch

def uploadBucketInfo (b : MigrationBucketInfo) (ownerNg : NodeGroupId) (version : Nat) :
    MigrationBucketInfo where
  toBucketInfo := b.clearDirty.set ownerNg version
  acceptsUploadBatch := b.acceptsUploadBatch

end MigrationBucketInfo

/-- A record as the store has it; without a payload it is deleted. -/
structure StoredRecord (V : Type u) where
  version : Nat
  payload : Option V

/-- A key of an `UploadBatchCc`. -/
structure UploadRow (K : Type v) (V : Type u) where
  key : K
  status : RecordStatus
  record : Option V
  commitTs : Nat

/-- `evict` is page cleaning without a request. -/
inductive CleanType (B : Type x)
  | evict
  | cleanBucketData (bucketIds : List B)
  | cleanForAlterTable (cleanTs : Nat)
  | cleanDeletedData

structure ObjectCache (K : Type v) (V : Type u) (B : Type x) where
  ngId : NodeGroupId
  schemaTs : Nat
  entries : K → Option (SyncEntry V)
  ccmHasFullEntries : Bool
  bucketsMigrating : Bool
  buckets : B → MigrationBucketInfo

variable {K : Type v} {V : Type u} {B : Type x}

/-- The record of an entry with a time to live has expired. -/
def expired (getTTL : V → Option Nat) (now : Nat) (payload : Option V) : Bool :=
  match payload.bind getTTL with
  | some ttl => decide (ttl < now)
  | none => false

namespace StoredRecord

def live (getTTL : V → Option Nat) (now : Nat) (r : StoredRecord V) : Bool :=
  r.payload.isSome && !expired getTTL now r.payload

end StoredRecord

namespace SyncEntry

/-- `Execute(UploadBatchCc)` on the entry of a key: an older version is discarded, and the
buffered commands that the version has are dropped. -/
def upload (e : SyncEntry V) (dirtyBucketData : Bool) (row : UploadRow K V) : SyncEntry V :=
  if row.commitTs ≤ e.commitTs then e
  else
    let payload := if row.status = .normal then row.record else none
    let e := (e.withBuffered payload e.bufferedCmds).setCommitTsPayloadStatus row.commitTs row.status
    let e := if dirtyBucketData then e.setCkptTs row.commitTs else e
    (e.withBuffered e.curPayload
      (e.bufferedCmds.dropWhile fun c => decide (c.newVersion ≤ row.commitTs))).commitBufferedCommands
        row.commitTs

end SyncEntry

namespace CleanType

section
variable [DecidableEq B] (mapKeyToBucketId : K → B) (getTTL : V → Option Nat)

def isCleanTarget (now : Nat) (key : K) (e : SyncEntry V) : CleanType B → Bool
  | .evict => true
  | .cleanBucketData bucketIds => decide (mapKeyToBucketId key ∈ bucketIds)
  | .cleanForAlterTable cleanTs => decide (e.commitTs ≤ cleanTs ∧ 1 < e.commitTs)
  | .cleanDeletedData => e.payloadStatus == .deleted || expired getTTL now e.curPayload

end

/-- `busy` means that the entry has a lock or is being checkpointed. -/
def canBeCleaned (busy : Bool) (e : SyncEntry V) : CleanType B → Bool
  | .cleanBucketData _ => true
  | .evict | .cleanForAlterTable _ | .cleanDeletedData => !busy && e.flushed

def affectCacheCompleteness : CleanType B → Bool
  | .evict | .cleanForAlterTable _ => true
  | .cleanBucketData _ | .cleanDeletedData => false

end CleanType

namespace ObjectCache

variable [DecidableEq K]

/-- The entry of a key, a new one if there is none. -/
def findEmplace (w : ObjectCache K V B) (key : K) : SyncEntry V := (w.entries key).getD .initial

def setEntry (w : ObjectCache K V B) (key : K) (e : SyncEntry V) : ObjectCache K V B :=
  { w with entries := Function.update w.entries key (some e) }

/-- What a commit of a transaction leaves. -/
def commit (w : ObjectCache K V B) (key : K) (commitTs : Nat) (payload : Option V) :
    ObjectCache K V B :=
  w.setEntry key ((w.findEmplace key).commit commitTs (statusOf payload) payload)

/-- An unknown entry is taken as deleted when all records are in memory, and filled from
the store otherwise. -/
def fetchKv (w : ObjectCache K V B) (getTTL : V → Option Nat) (now : Nat) (stored : StoredRecord V)
    (e : SyncEntry V) : SyncEntry V :=
  if e.payloadStatus = .unknown then
    if w.ccmHasFullEntries then (e.setCommitTsPayloadStatus 1 .deleted).setCkptTs 1
    else if stored.live getTTL now then
      e.backFill w.schemaTs true stored.version .normal stored.payload
    else e.backFill w.schemaTs true 1 .deleted none
  else e

/-- The lookup of `Execute(ApplyCc)`, and the status it finds. `skipMissing` means that the
command needs no entry if the object does not exist. -/
def applyCc (w : ObjectCache K V B) (getTTL : V → Option Nat) (now : Nat) (stored : StoredRecord V)
    (key : K) (skipMissing : Bool) : RecordStatus × ObjectCache K V B :=
  if w.ccmHasFullEntries ∧ skipMissing ∧ w.entries key = none then (.deleted, w)
  else
    let e := w.fetchKv getTTL now stored (w.findEmplace key)
    (e.payloadStatus, w.setEntry key e)

/-- A key is skipped if its version is not valid or if its bucket does not accept uploads. The
request is answered with an error when no buckets migrate, but carried out all the same. -/
def uploadKey (mapKeyToBucketId : K → B) (dirtyBucketData : Bool) (w : ObjectCache K V B)
    (row : UploadRow K V) : ObjectCache K V B :=
  if row.commitTs ≤ 1 ∨ (w.buckets (mapKeyToBucketId row.key)).acceptsUploadBatch = false then w
  else w.setEntry row.key ((w.findEmplace row.key).upload dirtyBucketData row)

def executeUploadBatchCc (mapKeyToBucketId : K → B) (w : ObjectCache K V B) (dirtyBucketData : Bool)
    (rows : List (UploadRow K V)) : ObjectCache K V B :=
  rows.foldl (uploadKey mapKeyToBucketId dirtyBucketData) w

section
variable [DecidableEq B] (mapKeyToBucketId : K → B) (getTTL : V → Option Nat)

/-- `MarkCleanForOrphanKey` on a key of the page. -/
def marked (w : ObjectCache K V B) (type : CleanType B) (now : Nat) (busy : List K) (key : K) : Bool :=
  match w.entries key with
  | none => false
  | some e =>
    type.isCleanTarget mapKeyToBucketId getTTL now key e && type.canBeCleaned (decide (key ∈ busy)) e

/-- The buckets after `KickoutPage`: it stops the uploads of the keys whose pointer is null,
and marking a key leaves its pointer as it is. -/
def kickoutBuckets (w : ObjectCache K V B) (keys : List K) (b : B) : MigrationBucketInfo :=
  if w.bucketsMigrating ∧ ∃ key ∈ keys, mapKeyToBucketId key = b ∧ w.entries key = none then
    { w.buckets b with acceptsUploadBatch := false }
  else w.buckets b

/-- `CleanPage` of the page with the keys. -/
def cleanPage (w : ObjectCache K V B) (type : CleanType B) (now : Nat) (keys busy : List K) :
    ObjectCache K V B :=
  let cleanSet := keys.filter (w.marked mapKeyToBucketId getTTL type now busy)
  let evictedValidKey := type.affectCacheCompleteness &&
    cleanSet.any fun key => (w.entries key).any fun e => e.payloadStatus == .normal
  { w with
    entries := fun key => if key ∈ cleanSet then none else w.entries key
    ccmHasFullEntries := w.ccmHasFullEntries && !evictedValidKey
    buckets := w.kickoutBuckets mapKeyToBucketId keys }

end

/-- `CleanCcmPages` of a table that is truncated, with the new schema. -/
def truncate (w : ObjectCache K V B) (cleanTs : Nat) : ObjectCache K V B :=
  if cleanTs ≤ w.schemaTs then w
  else { w with entries := fun _ => none, ccmHasFullEntries := true, schemaTs := cleanTs }

end ObjectCache

end TxService
