import Mathlib.Algebra.Ring.Nat
import Mathlib.Data.List.TakeWhile
import TxService.RangeOwnership
import TxService.Transition

/-!
# Where the writes of a transaction go

Before it acquires write locks a transaction locks the ranges or buckets of its write keys and notes
the owner of each key and the node groups its write is forwarded to.
-/

namespace TxService.WriteForwards

open Transition

universe u v

/-- The node group in the higher 22 bits of a `uint32_t`, the residual of the hash in the lower 10. -/
def shardCode (ng hash : Nat) : Nat := (ng <<< 10) % 4294967296 ||| hash &&& 0x3FF

/-- What `WriteSetEntry` has of the sharding: `forward_addr_` by its keys. `visits` counts how often
the entry was given its code. -/
structure WriteSetEntry where
  keyShardCode : Nat
  forwardAddr : List Nat
  visits : Nat

/-- `try_emplace` into `forward_addr_`. -/
def tryEmplace (addr : List Nat) (code : Nat) : List Nat :=
  if code ∈ addr then addr else addr ++ [code]

/-- The write keys of a table with their entries, in key order. -/
abbrev TableWriteSet (K : Type v) := List (K × WriteSetEntry)

/-- The tables come in the order in which the unordered map is walked. A table without keys is
erased from the map. -/
structure WriteSet (Name : Type u) (K : Type v) [LinearOrder K] where
  tables : List (Name × TableWriteSet K)
  nonempty : ∀ t ∈ tables, t.2 ≠ []
  ascending : ∀ t ∈ tables, t.2.Pairwise fun a b => a.1 < b.1
  fresh : ∀ t ∈ tables, ∀ w ∈ t.2, w.2.forwardAddr = [] ∧ w.2.visits = 0

/-- A node group has 22 bits in a sharding code, and a bucket migrates to another node group. -/
def Placed (b : BucketInfo) : Prop :=
  b.bucketOwner < 4194304 ∧
    (b.dirtyBucketOwner ≠ noOwner → b.dirtyBucketOwner < 4194304 ∧ b.dirtyBucketOwner ≠ b.bucketOwner)

instance (b : BucketInfo) : Decidable (Placed b) := inferInstanceAs (Decidable (_ ∧ _))

/-- A range as `range_rec_` has it, with no start or end for the infinities. A dirty range is being
split at its new keys. -/
structure RangeRecord (K : Type v) [LinearOrder K] where
  startKey : Option K
  endKey : Option K
  isDirty : Bool
  newKey : List K
  rangeOwnerNg : BucketInfo
  newRangeOwnerNgs : List BucketInfo
  ascending : newKey.Pairwise (· < ·)
  owners : newRangeOwnerNgs.length = newKey.length
  placed : Placed rangeOwnerNg
  newPlaced : ∀ b ∈ newRangeOwnerNgs, Placed b

variable {Name : Type u} {K : Type v} [LinearOrder K]

namespace RangeRecord

def Contains (r : RangeRecord K) (key : K) : Prop :=
  (∀ start ∈ r.startKey, start ≤ key) ∧ ∀ last ∈ r.endKey, key < last

instance (r : RangeRecord K) (key : K) : Decidable (r.Contains key) :=
  inferInstanceAs (Decidable (_ ∧ _))

/-- The new ranges of a split with their buckets. -/
def newRanges (r : RangeRecord K) : List (K × BucketInfo) :=
  if r.isDirty then r.newKey.zip r.newRangeOwnerNgs else []

/-- The key will lie in the new range of this bucket. -/
def FallsInto (r : RangeRecord K) (key : K) (b : BucketInfo) : Prop :=
  ∃ before start after, r.newRanges = before ++ (start, b) :: after ∧ start ≤ key ∧
    ∀ x ∈ after, key < x.1

/-- The node groups, other than the range's owner, that own the key once the migrations and the
split are done. -/
def Forwards (r : RangeRecord K) (key : K) (g : NodeGroupId) : Prop :=
  g ≠ r.rangeOwnerNg.bucketOwner ∧ g ≠ noOwner ∧
    (g = r.rangeOwnerNg.dirtyBucketOwner ∨ ∃ b, r.FallsInto key b ∧ b.OwnedBy g)

end RangeRecord

/-- Ranges that partition the key space. -/
structure RangePartition (K : Type v) [LinearOrder K] where
  rangeOf : K → RangeRecord K
  contains : ∀ key, (rangeOf key).Contains key
  unique : ∀ key other, (rangeOf key).Contains other → rangeOf other = rangeOf key

/-- The buckets of the keys when tables are partitioned by hash. -/
structure HashBuckets where
  mapKeyHashToBucketId : Nat → Nat
  getBucketInfo : Nat → BucketInfo
  placed : ∀ id, Placed (getBucketInfo id)

/-- The pointer into the new ranges that is carried from key to key. -/
structure Cursor (K : Type v) where
  rest : List (K × BucketInfo)
  newRangeNg : NodeGroupId
  newRangeNewBucketNg : NodeGroupId

/-- The inner loop of `LockWriteRangesOp::Advance`. -/
def skip (key : K) : List (K × BucketInfo) → NodeGroupId → NodeGroupId → Cursor K
  | [], ng, bucketNg => ⟨[], ng, bucketNg⟩
  | (start, b) :: rest, ng, bucketNg =>
    if key < start then ⟨(start, b) :: rest, ng, bucketNg⟩
    else skip key rest b.bucketOwner b.dirtyBucketOwner

def Cursor.advance (c : Cursor K) (key : K) : Cursor K :=
  skip key c.rest c.newRangeNg c.newRangeNewBucketNg

/-- The turn of the outer loop for one write entry. -/
def RangeRecord.visit (r : RangeRecord K) (c : Cursor K) (hash : Nat) (e : WriteSetEntry) :
    WriteSetEntry :=
  let rangeNg := r.rangeOwnerNg.bucketOwner
  let newBucketNg := r.rangeOwnerNg.dirtyBucketOwner
  let addr :=
    if newBucketNg ≠ noOwner then tryEmplace e.forwardAddr (shardCode newBucketNg hash)
    else e.forwardAddr
  let addr :=
    if c.newRangeNg ≠ noOwner then
      let addr :=
        if c.newRangeNg ≠ rangeNg then tryEmplace addr (shardCode c.newRangeNg hash) else addr
      if c.newRangeNewBucketNg ≠ noOwner ∧ c.newRangeNewBucketNg ≠ rangeNg then
        tryEmplace addr (shardCode c.newRangeNewBucketNg hash)
      else addr
    else addr
  ⟨shardCode rangeNg hash, addr, e.visits + 1⟩

/-- The outer loop, with `ForwardWriteCnt`. -/
def RangeRecord.visitKeys (r : RangeRecord K) (hash : K → Nat) :
    Cursor K → Nat → TableWriteSet K → TableWriteSet K × Nat
  | _, cnt, [] => ([], cnt)
  | c, cnt, (key, e) :: keys =>
    let c := c.advance key
    let e := r.visit c (hash key) e
    let (visited, cnt) := r.visitKeys hash c (cnt + e.forwardAddr.length) keys
    ((key, e) :: visited, cnt)

/-- The iterators of an operation: the tables before `table_it_`, the keys of its table before
`write_key_it_`, and what is left from the two on. -/
structure LockWriteOp (Name : Type u) (K : Type v) where
  done : List (Name × TableWriteSet K)
  before : TableWriteSet K
  rest : List (Name × TableWriteSet K)
  forwardWriteCnt : Nat

namespace LockWriteOp

def init (w : WriteSet Name K) : LockWriteOp Name K := ⟨[], [], w.tables, 0⟩

/-- The end of both `Advance`: after the last key of a table its iterators move to the next one. -/
def moveTo (op : LockWriteOp Name K) (name : Name) (visited keys : TableWriteSet K)
    (tables : List (Name × TableWriteSet K)) (cnt : Nat) : LockWriteOp Name K :=
  match keys with
  | [] => ⟨op.done ++ [(name, op.before ++ visited)], [], tables, cnt⟩
  | key :: keys => ⟨op.done, op.before ++ visited, (name, key :: keys) :: tables, cnt⟩

def lowerBound (key : K) (keys : TableWriteSet K) : Nat :=
  (keys.takeWhile fun w => w.1 < key).length

/-- The position of the first key of the table at or above the end of the range. -/
def nextRangeStart (r : RangeRecord K) (keys : TableWriteSet K) : Nat :=
  match r.endKey with
  | none => keys.length
  | some last => lowerBound last keys

/-- `PostProcess` of a granted range lock with `LockWriteRangesOp::Advance`. -/
def advanceRange (hash : K → Nat) (ranges : Name → RangePartition K) (op : LockWriteOp Name K) :
    Option (LockWriteOp Name K) :=
  match op.rest with
  | (name, (key, e) :: keys) :: tables =>
    let r := (ranges name).rangeOf key
    if r.Contains key then
      let n := nextRangeStart r (op.before ++ (key, e) :: keys) - op.before.length
      let (visited, cnt) := r.visitKeys hash ⟨r.newRanges, noOwner, noOwner⟩ op.forwardWriteCnt
        (((key, e) :: keys).take n)
      some (op.moveTo name visited (((key, e) :: keys).drop n) tables cnt)
    else none
  | _ => none

/-- `LockWriteBucketsOp::Advance`. -/
def advanceBucket (hash : K → Nat) (buckets : HashBuckets) (op : LockWriteOp Name K) :
    Option (LockWriteOp Name K) :=
  match op.rest with
  | (name, (key, e) :: keys) :: tables =>
    let b := buckets.getBucketInfo (buckets.mapKeyHashToBucketId (hash key))
    let migrating := b.dirtyBucketOwner ≠ noOwner
    let addr :=
      if migrating then tryEmplace e.forwardAddr (shardCode b.dirtyBucketOwner (hash key))
      else e.forwardAddr
    let cnt := if migrating then op.forwardWriteCnt + 1 else op.forwardWriteCnt
    let e := ⟨shardCode b.bucketOwner (hash key), addr, e.visits + 1⟩
    some (op.moveTo name [(key, e)] keys tables cnt)
  | _ => none

/-- How the next key gets its range or bucket: a bucket that `FastToGetBucket` has, a lock that is
granted, or a lock that is refused and asked for again. -/
inductive Lock
  | cached
  | granted
  | refused

def rangeStep (hash : K → Nat) (ranges : Name → RangePartition K) (op : LockWriteOp Name K) :
    Lock → Option (LockWriteOp Name K)
  | .cached => none
  | .granted => op.advanceRange hash ranges
  | .refused => some op

def bucketStep (hash : K → Nat) (buckets : HashBuckets) (op : LockWriteOp Name K) :
    Lock → Option (LockWriteOp Name K)
  | .cached | .granted => op.advanceBucket hash buckets
  | .refused => some op

end LockWriteOp

/-- An address list with one entry for each of the targets and no other. -/
structure Sends (hash : Nat) (addr : List Nat) (targets : NodeGroupId → Prop) : Prop where
  code : ∀ c ∈ addr, c = shardCode (c >>> 10) hash
  once : (addr.map (· >>> 10)).Nodup
  mem_iff : ∀ g, g ∈ addr.map (· >>> 10) ↔ targets g

/-- A write entry that was visited once and goes to its owner and these targets. -/
structure Served (owner : NodeGroupId) (targets : NodeGroupId → Prop) (hash : Nat)
    (e : WriteSetEntry) : Prop where
  visited : e.visits = 1
  code : e.keyShardCode = shardCode owner hash
  owner : e.keyShardCode >>> 10 = owner
  forwards : Sends hash e.forwardAddr targets

def forwardCnt (keys : TableWriteSet K) : Nat := (keys.map fun w => w.2.forwardAddr.length).sum

def keysOf (tables : List (Name × TableWriteSet K)) : List (Name × List K) :=
  tables.map fun t => (t.1, t.2.map Prod.fst)

/-- All tables of the write set were walked: they have their keys, each key is served, and the
forwarded writes are counted. -/
structure Finished (w : WriteSet Name K) (served : Name → K → WriteSetEntry → Prop)
    (op : LockWriteOp Name K) : Prop where
  keys : keysOf op.done = keysOf w.tables
  served : ∀ t ∈ op.done, ∀ x ∈ t.2, served t.1 x.1 x.2
  count : op.forwardWriteCnt = (op.done.map fun t => forwardCnt t.2).sum

/-- Every run of the operation that is through with all tables has finished its work, and every run
can be brought to that. -/
def Completes (w : WriteSet Name K) (served : Name → K → WriteSetEntry → Prop)
    (step : LockWriteOp Name K → LockWriteOp.Lock → Option (LockWriteOp Name K)) : Prop :=
  ∀ locks op, Run (fun op lock op' => step op lock = some op') (.init w) locks op →
    (op.rest = [] → Finished w served op) ∧
      ∃ later op', Run (fun op lock op' => step op lock = some op') op later op' ∧ op'.rest = []

/-- The key is served as the range that has it is placed. -/
def RangeServed (hash : K → Nat) (ranges : Name → RangePartition K) (name : Name) (key : K)
    (e : WriteSetEntry) : Prop :=
  let r := (ranges name).rangeOf key
  Served r.rangeOwnerNg.bucketOwner (r.Forwards key) (hash key) e

/-- The key is served as its bucket is placed. -/
def BucketServed (hash : K → Nat) (buckets : HashBuckets) (key : K) (e : WriteSetEntry) : Prop :=
  let b := buckets.getBucketInfo (buckets.mapKeyHashToBucketId (hash key))
  Served b.bucketOwner (fun g => g ≠ noOwner ∧ g = b.dirtyBucketOwner) (hash key) e

theorem shardCode_shiftRight {ng : Nat} (bits : ng < 4194304) (hash : Nat) :
    shardCode ng hash >>> 10 = ng := by
  have fits : (ng <<< 10) % 4294967296 = ng <<< 10 := by
    rw [Nat.shiftLeft_eq]
    omega
  have residual : (hash &&& 0x3FF) >>> 10 = 0 := by
    have : hash &&& 0x3FF ≤ 0x3FF := Nat.and_le_right
    rw [Nat.shiftRight_eq_div_pow]
    omega
  rw [shardCode, fits, Nat.shiftRight_or_distrib, residual, Nat.shiftLeft_shiftRight, Nat.or_zero]

theorem Sends.nil (hash : Nat) : Sends hash [] fun _ => False where
  code := nofun
  once := List.nodup_nil
  mem_iff := by simp

variable {hash : Nat} {addr : List Nat} {g : NodeGroupId} {r : RangeRecord K}
  {passed : List (K × BucketInfo)} {c : Cursor K} {key : K}

theorem Sends.congr {S T : NodeGroupId → Prop} (sends : Sends hash addr S) (same : ∀ g, S g ↔ T g) :
    Sends hash addr T :=
  { sends with mem_iff := fun g => (sends.mem_iff g).trans (same g) }

theorem Sends.tryEmplace {S : NodeGroupId → Prop} (sends : Sends hash addr S) (bits : g < 4194304) :
    Sends hash (tryEmplace addr (shardCode g hash)) fun x => S x ∨ x = g := by
  have decoded := shardCode_shiftRight bits hash
  rw [WriteForwards.tryEmplace]
  split
  · rename_i present
    have known : S g := (sends.mem_iff g).mp (List.mem_map.mpr ⟨_, present, decoded⟩)
    refine sends.congr fun x => ⟨.inl, ?_⟩
    rintro (old | rfl)
    · exact old
    · exact known
  · rename_i absent
    have unknown : g ∉ addr.map (· >>> 10) := by
      intro present
      obtain ⟨c, member, same⟩ := List.mem_map.mp present
      exact absent (same ▸ sends.code c member ▸ member)
    refine ⟨fun c member => ?_, ?_, fun x => ?_⟩
    · rcases List.mem_append.mp member with old | new
      · exact sends.code c old
      · rw [List.mem_singleton.mp new, decoded]
    · rw [List.map_append, List.nodup_append]
      refine ⟨sends.once, by simp, fun a old b new => ?_⟩
      simp only [List.map_cons, List.map_nil, decoded, List.mem_singleton] at new
      rintro rfl
      exact unknown (new ▸ old)
    · rw [List.map_append, List.mem_append, sends.mem_iff]
      simp [decoded]

/-- The cursor has passed these new ranges and holds the owners of the last of them. -/
structure Cursor.At (r : RangeRecord K) (passed : List (K × BucketInfo)) (c : Cursor K) : Prop where
  ranges : r.newRanges = passed ++ c.rest
  ng : c.newRangeNg = passed.getLast?.elim noOwner fun x => x.2.bucketOwner
  bucketNg : c.newRangeNewBucketNg = passed.getLast?.elim noOwner fun x => x.2.dirtyBucketOwner

theorem RangeRecord.newRanges_ascending (r : RangeRecord K) :
    r.newRanges.Pairwise fun a b => a.1 < b.1 := by
  rw [RangeRecord.newRanges]
  split
  · apply List.pairwise_map.mp
    rw [List.map_fst_zip (Nat.le_of_eq r.owners.symm)]
    exact r.ascending
  · exact .nil

theorem RangeRecord.newRanges_placed (r : RangeRecord K) {x : K × BucketInfo}
    (member : x ∈ r.newRanges) : Placed x.2 := by
  rw [RangeRecord.newRanges] at member
  split at member
  · exact r.newPlaced x.2 (List.of_mem_zip member).2
  · cases member

/-- The inner loop passes the new ranges that start at or below the key. -/
theorem Cursor.At.advance (here : c.At r passed) (below : ∀ x ∈ passed, x.1 ≤ key) :
    ∃ passed', (c.advance key).At r passed' ∧ (∀ x ∈ passed', x.1 ≤ key) ∧
      ∀ x ∈ (c.advance key).rest, key < x.1 := by
  obtain ⟨rest, ng, bucketNg⟩ := c
  rw [Cursor.advance]
  induction rest generalizing passed ng bucketNg with
  | nil => exact ⟨passed, here, below, nofun⟩
  | cons x rest ih =>
    obtain ⟨start, b⟩ := x
    have ranges := here.ranges
    rw [skip]
    split
    · rename_i above
      refine ⟨passed, here, below, fun x member => ?_⟩
      rcases List.mem_cons.mp member with rfl | later
      · exact above
      · have ascending := ranges ▸ r.newRanges_ascending
        exact above.trans (List.rel_of_pairwise_cons (List.pairwise_append.mp ascending).2.1 later)
    · rename_i reached
      have onward : Cursor.At r (passed ++ [(start, b)]) ⟨rest, b.bucketOwner, b.dirtyBucketOwner⟩ :=
        ⟨by simpa using ranges, by simp, by simp⟩
      refine ih (fun x member => ?_) _ _ onward
      rcases List.mem_append.mp member with old | new
      · exact below x old
      · rw [List.mem_singleton.mp new]
        exact not_lt.mp reached

theorem takeWhile_cut {α : Type*} {p : α → Bool} {a b : List α} (yes : ∀ x ∈ a, p x = true)
    (no : ∀ x ∈ b, p x = false) : (a ++ b).takeWhile p = a := by
  rw [List.takeWhile_append_of_pos yes]
  cases b with
  | nil => simp
  | cons x b => simp [no x (by simp)]

theorem Cursor.At.fallsInto_iff (here : c.At r passed) (below : ∀ x ∈ passed, x.1 ≤ key)
    (above : ∀ x ∈ c.rest, key < x.1) (b : BucketInfo) :
    r.FallsInto key b ↔ ∃ start, passed.getLast? = some (start, b) := by
  constructor
  · rintro ⟨before, start, after, ranges, reached, later⟩
    have ascending := ranges ▸ r.newRanges_ascending
    have reachedAll : ∀ x ∈ before ++ [(start, b)], x.1 ≤ key := by
      intro x member
      rcases List.mem_append.mp member with old | new
      · have := (List.pairwise_append.mp ascending).2.2 x old (start, b) (by simp)
        exact this.le.trans reached
      · rw [List.mem_singleton.mp new]
        exact reached
    have one : r.newRanges.takeWhile (fun x => x.1 ≤ key) = passed := by
      rw [here.ranges]
      exact takeWhile_cut (by simpa using below) (by simpa using above)
    have two : r.newRanges.takeWhile (fun x => x.1 ≤ key) = before ++ [(start, b)] := by
      rw [ranges, ← List.singleton_append, ← List.append_assoc]
      exact takeWhile_cut (by simpa using reachedAll) (by simpa using later)
    have same := one.symm.trans two
    exact ⟨start, by simp [same]⟩
  · rintro ⟨start, last⟩
    obtain ⟨before, rfl⟩ := List.getLast?_eq_some_iff.mp last
    exact ⟨before, start, c.rest, by simpa using here.ranges, below (start, b) (by simp), above⟩

theorem Placed.dirty {b : BucketInfo} (placed : Placed b) (migrating : b.dirtyBucketOwner ≠ noOwner) :
    b.dirtyBucketOwner < 4194304 := (placed.2 migrating).1

theorem ne_noOwner (bits : g < 4194304) : g ≠ noOwner := by
  rintro rfl
  exact absurd bits (by decide)

theorem Sends.tryEmplace_if {S : NodeGroupId → Prop} {c : Prop} [Decidable c]
    (sends : Sends hash addr S) (bits : c → g < 4194304) :
    Sends hash (if c then WriteForwards.tryEmplace addr (shardCode g hash) else addr)
      fun x => S x ∨ c ∧ x = g := by
  split
  · rename_i holds
    exact (sends.tryEmplace (bits holds)).congr fun x => by simp [holds]
  · rename_i fails
    exact sends.congr fun x => by simp [fails]

theorem RangeRecord.visit_forwards {e : WriteSetEntry} (hash : Nat) (here : c.At r passed)
    (below : ∀ x ∈ passed, x.1 ≤ key) (above : ∀ x ∈ c.rest, key < x.1)
    (fresh : e.forwardAddr = []) :
    Sends hash (r.visit c hash e).forwardAddr (r.Forwards key) := by
  have start : Sends hash e.forwardAddr fun _ => False := fresh ▸ .nil hash
  have first := start.tryEmplace_if (c := r.rangeOwnerNg.dirtyBucketOwner ≠ noOwner) r.placed.dirty
  have falls := here.fallsInto_iff below above
  have ng := here.ng
  have bucketNg := here.bucketNg
  simp only [RangeRecord.visit]
  cases last : passed.getLast? with
  | none =>
    have unset : c.newRangeNg = noOwner := by rw [ng, last]; rfl
    rw [if_neg (not_not_intro unset)]
    refine first.congr fun g => ?_
    have nowhere : ∀ b, ¬ r.FallsInto key b := fun b => by simp [falls, last]
    simp only [RangeRecord.Forwards, nowhere, false_and, exists_false, or_false, false_or]
    grind [Placed, RangeRecord.placed]
  | some x =>
    obtain ⟨start, b⟩ := x
    have placed : Placed b := r.newRanges_placed (x := (start, b)) (by
      rw [here.ranges]
      exact List.mem_append_left _ (List.mem_of_getLast? last))
    have owner : c.newRangeNg = b.bucketOwner := by rw [ng, last]; rfl
    have dirty : c.newRangeNewBucketNg = b.dirtyBucketOwner := by rw [bucketNg, last]; rfl
    have only : ∀ b', r.FallsInto key b' ↔ b' = b := fun b' => by simp [falls, last, eq_comm]
    rw [owner, dirty, if_pos (ne_noOwner placed.1)]
    have second := first.tryEmplace_if (c := b.bucketOwner ≠ r.rangeOwnerNg.bucketOwner)
      fun _ => placed.1
    have third := second.tryEmplace_if (c := b.dirtyBucketOwner ≠ noOwner ∧
      b.dirtyBucketOwner ≠ r.rangeOwnerNg.bucketOwner) fun migrating => placed.dirty migrating.1
    refine third.congr fun g => ?_
    have bits := ne_noOwner placed.1
    simp only [RangeRecord.Forwards, only, exists_eq_left, BucketInfo.OwnedBy]
    grind [Placed, RangeRecord.placed]

theorem RangeRecord.visit_served {e : WriteSetEntry} (hash : Nat) (here : c.At r passed)
    (below : ∀ x ∈ passed, x.1 ≤ key) (above : ∀ x ∈ c.rest, key < x.1)
    (fresh : e.forwardAddr = [] ∧ e.visits = 0) :
    Served r.rangeOwnerNg.bucketOwner (r.Forwards key) hash (r.visit c hash e) where
  visited := by rw [visit, fresh.2]
  code := rfl
  owner := shardCode_shiftRight r.placed.1 hash
  forwards := visit_forwards hash here below above fresh.1

/-- The outer loop serves every key of an ascending list once. -/
theorem RangeRecord.visitKeys_spec (r : RangeRecord K) (hash : K → Nat) (keys : TableWriteSet K)
    (cnt : Nat) (here : c.At r passed) (below : ∀ x ∈ passed, ∀ w ∈ keys, x.1 ≤ w.1)
    (ascending : keys.Pairwise fun a b => a.1 < b.1)
    (fresh : ∀ w ∈ keys, w.2.forwardAddr = [] ∧ w.2.visits = 0) :
    (r.visitKeys hash c cnt keys).1.map Prod.fst = keys.map Prod.fst ∧
      (∀ w ∈ (r.visitKeys hash c cnt keys).1,
        Served r.rangeOwnerNg.bucketOwner (r.Forwards w.1) (hash w.1) w.2) ∧
      (r.visitKeys hash c cnt keys).2 = cnt + forwardCnt (r.visitKeys hash c cnt keys).1 := by
  induction keys generalizing passed c cnt with
  | nil => exact ⟨rfl, nofun, rfl⟩
  | cons w keys ih =>
    obtain ⟨key, e⟩ := w
    obtain ⟨first, ascending⟩ := List.pairwise_cons.mp ascending
    have begins : ∀ x ∈ passed, x.1 ≤ key := fun x member => below x member (key, e) (by simp)
    obtain ⟨passed', here', below', above⟩ := here.advance begins
    have served := visit_served (hash key) here' below' above (fresh (key, e) (by simp))
    obtain ⟨same, all, count⟩ := ih (cnt + (r.visit (c.advance key) (hash key) e).forwardAddr.length)
      here' (fun x member w later => (below' x member).trans (first w later).le) ascending
      fun w later => fresh w (List.mem_cons_of_mem _ later)
    refine ⟨?_, ?_, ?_⟩
    · simp [visitKeys, same]
    · intro w member
      rcases List.mem_cons.mp member with rfl | later
      · exact served
      · exact all w later
    · simp only [visitKeys, count, forwardCnt, List.map_cons, List.sum_cons]
      omega

end TxService.WriteForwards
