import TxService.FiniteTable
import TxService.ObjectCcMap
import TxService.Transition

/-!
# The object maps of a shard

An object cc map per table, with a count of its objects, and one count of the buffered commands in
all of them.
-/

namespace TxService

open Transition

universe u v w

/-- What a request does at a key. -/
inductive EntryVisit (V : Type u)
  | applyCc (ctx : RequestContext V) (r : ApplyCc V) (blockType : ApplyBlockType)
  | postWriteCc (ctx : RequestContext V) (txn : TxNumber) (commitTs : Nat)
  | uploadTxCommandsCc (txn : TxNumber) (c : TxnCmd V)
  | standbyForwardCc (ctx : RequestContext V) (m : ForwardRequest V)
  | uploadBatchCc (row : UploadRecord V)
  | replayLogCc (ctx : RequestContext V) (c : TxnCmd V)
  | backFill (ctx : RequestContext V) (commitTs : Nat) (status : RecordStatus) (record : Option V)
  | clean

/-- A key on a request's way: whether the request makes an entry for it, and whether the memory for
one is gone. -/
structure KeyVisit (K : Type v) (V : Type u) where
  key : K
  findOnly : Bool
  memoryFull : Bool
  visit : EntryVisit V

/-- A record of a batch; `accepted` if it is for this core and its bucket takes uploads. -/
structure BatchRow (K : Type v) (V : Type u) where
  key : K
  accepted : Bool
  memoryFull : Bool
  row : UploadRecord V

/-- The commands of a log record on a key; `owned` if the key is this core's. -/
structure LoggedCmds (K : Type v) (V : Type u) where
  key : K
  owned : Bool
  memoryFull : Bool
  objVersion : Nat
  ignorePreviousVersion : Bool
  cmdList : List (TxCommand V)

inductive ObjectRequest (T : Type w) (K : Type v) (V : Type u)
  | applyCc (table : T) (key : K) (ctx : RequestContext V) (r : ApplyCc V)
      (blockType : ApplyBlockType)
  | postWriteCc (table : T) (key : K) (ctx : RequestContext V) (txn : TxNumber) (commitTs : Nat)
  | uploadTxCommandsCc (table : T) (key : K) (txn : TxNumber) (c : TxnCmd V)
  | standbyForwardCc (table : T) (key : K) (ctx : RequestContext V) (schemaVersion : Nat)
      (m : ForwardRequest V)
  | uploadBatchCc (table : T) (rows : List (BatchRow K V))
  | replayLogCc (table : T) (ctx : RequestContext V) (commitTs : Nat) (cmds : List (LoggedCmds K V))
  | backFill (table : T) (key : K) (ctx : RequestContext V) (commitTs : Nat) (status : RecordStatus)
      (record : Option V)
  | cleanPage (table : T) (keys : List K)

structure ObjectShard (T : Type w) (K : Type v) (V : Type u) where
  entries : FiniteTable (T × K) (ObjectCcEntry V)
  normalObjSz : T → Int
  bufferedCmdCnt : Int

variable {T : Type w} {K : Type v} {V : Type u}

def EntryVisit.exec : EntryVisit V → ObjectCcEntry V → EntryEffect V
  | applyCc ctx r blockType => ObjectCcEntry.executeApplyCc ctx r blockType
  | postWriteCc ctx txn commitTs => ObjectCcEntry.executePostWriteCc ctx txn commitTs
  | uploadTxCommandsCc txn c => ObjectCcEntry.executeUploadTxCommandsCc txn c
  | standbyForwardCc ctx m => ObjectCcEntry.executeStandbyForwardCc ctx m
  | uploadBatchCc row => ObjectCcEntry.executeUploadBatchCc row
  | replayLogCc ctx c => ObjectCcEntry.executeReplayLogCc ctx c
  | backFill ctx commitTs status record => ObjectCcEntry.executeBackFill ctx commitTs status record
  | clean => ObjectCcEntry.clean

/-- A request that waited for the write lock has been granted it, and 1 is no version that a commit
makes. -/
def EntryVisit.Enabled (e : ObjectCcEntry V) : EntryVisit V → Prop
  | applyCc _ r .blockOnWriteLock => e.ownsWriteLock r.req.txn = true
  | applyCc _ r (.blockOnFetch .writeLock) => e.ownsWriteLock r.req.txn = true
  | standbyForwardCc _ m => 1 < m.commitTs
  | _ => True

theorem EntryVisit.enabled_noBlocking {e : ObjectCcEntry V} {ctx : RequestContext V}
    {r : ApplyCc V} : (applyCc ctx r .noBlocking).Enabled e :=
  trivial

namespace ObjectRequest

def table : ObjectRequest T K V → T
  | applyCc t .. | postWriteCc t .. | uploadTxCommandsCc t .. | standbyForwardCc t .. |
    uploadBatchCc t .. | replayLogCc t .. | backFill t .. | cleanPage t .. => t

/-- If the map has every key and the command is not for missing objects, an entry is only looked
for; so it is where the request has the entry already. -/
def findOnly (ctx : RequestContext V) (r : ApplyCc V) : ApplyBlockType → Bool
  | .noBlocking =>
    ctx.ccmHasFullEntries && decide (r.isolation ≠ .repeatableRead) &&
      (r.isReadOnly || !r.cmd.proceedOnNonExistentObject)
  | _ => true

def visits : ObjectRequest T K V → List (KeyVisit K V)
  | applyCc _ key ctx r blockType =>
    [⟨key, findOnly ctx r blockType, ctx.memoryFull, .applyCc ctx r blockType⟩]
  | postWriteCc _ key ctx txn commitTs => [⟨key, true, false, .postWriteCc ctx txn commitTs⟩]
  | uploadTxCommandsCc _ key txn c => [⟨key, true, false, .uploadTxCommandsCc txn c⟩]
  | standbyForwardCc _ key ctx schemaVersion m =>
    if schemaVersion = ctx.schemaTs then [⟨key, false, false, .standbyForwardCc ctx m⟩] else []
  | uploadBatchCc _ rows =>
    (rows.filter fun b => b.accepted && decide (1 < b.row.commitTs)).map fun b =>
      ⟨b.key, false, b.memoryFull, .uploadBatchCc b.row⟩
  | replayLogCc _ ctx commitTs cmds =>
    if commitTs < ctx.schemaTs then []
    else
      (cmds.filter (·.owned)).map fun c =>
        ⟨c.key, false, c.memoryFull,
          .replayLogCc ctx ⟨c.objVersion, commitTs, c.ignorePreviousVersion, c.cmdList⟩⟩
  | backFill _ key ctx commitTs status record =>
    [⟨key, true, false, .backFill ctx commitTs status record⟩]
  | cleanPage _ keys => keys.map fun key => ⟨key, true, false, .clean⟩

end ObjectRequest

namespace ObjectShard

variable [DecidableEq T] [DecidableEq K]

def initial : ObjectShard T K V := ⟨.empty .initial, fun _ => 0, 0⟩

def find (s : ObjectShard T K V) (x : T × K) : ObjectCcEntry V := s.entries.find .initial x

def update (s : ObjectShard T K V) (x : T × K) (c : EntryEffect V) : ObjectShard T K V where
  entries := s.entries.set x c.cce
  normalObjSz := Function.update s.normalObjSz x.1 (s.normalObjSz x.1 + c.normalObjSz)
  bufferedCmdCnt := s.bufferedCmdCnt + c.bufferedCmdCnt

/-- The keys in turn, up to one for which there is no memory. -/
def visitAll (t : T) : List (KeyVisit K V) → ObjectShard T K V → ObjectShard T K V
  | [], s => s
  | v :: rest, s =>
    if (t, v.key) ∉ s.entries.keys ∧ v.findOnly then visitAll t rest s
    else if (t, v.key) ∉ s.entries.keys ∧ v.memoryFull then s
    else visitAll t rest (s.update (t, v.key) (v.visit.exec (s.find (t, v.key))))

/-- What every visit meets at its entry. -/
def Along (P : ObjectCcEntry V → EntryVisit V → Prop) (t : T) :
    List (KeyVisit K V) → ObjectShard T K V → Prop
  | [], _ => True
  | v :: rest, s =>
    if (t, v.key) ∉ s.entries.keys ∧ v.findOnly then Along P t rest s
    else if (t, v.key) ∉ s.entries.keys ∧ v.memoryFull then True
    else P (s.find (t, v.key)) v.visit ∧
      Along P t rest (s.update (t, v.key) (v.visit.exec (s.find (t, v.key))))

def exec (s : ObjectShard T K V) (q : ObjectRequest T K V) : ObjectShard T K V :=
  visitAll q.table q.visits s

/-- The states after requests all of whose visits are enabled and meet a condition. -/
def Reached (P : ObjectCcEntry V → EntryVisit V → Prop) : ObjectShard T K V → Prop :=
  Reachable (· = initial) fun s (q : ObjectRequest T K V) s' =>
    Along (fun e v => v.Enabled e ∧ P e v) q.table q.visits s ∧ s' = s.exec q

variable {P : ObjectCcEntry V → EntryVisit V → Prop} {s : ObjectShard T K V}

theorem Reached.start :
    Reached P (initial : ObjectShard T K V) :=
  Reachable.start rfl

/-- A request on one key that has an entry, or gets one. -/
theorem Reached.next (h : Reached P s) (q : ObjectRequest T K V) {v : KeyVisit K V}
    (one : q.visits = [v])
    (there : (q.table, v.key) ∈ s.entries.keys ∨ v.findOnly = false ∧ v.memoryFull = false)
    (enabled : v.visit.Enabled (s.find (q.table, v.key)))
    (here : P (s.find (q.table, v.key)) v.visit) : Reached P (s.exec q) := by
  refine Reachable.next h ⟨?_, rfl⟩
  rw [one, Along, if_neg, if_neg]
  · exact ⟨⟨enabled, here⟩, trivial⟩
  · rintro ⟨absent, full⟩
    simp [absent, full] at there
  · rintro ⟨absent, looks⟩
    simp [absent, looks] at there

theorem visitAll_preserves {I : ObjectShard T K V → Prop}
    (step : ∀ s x v, I s → P (s.find x) v → I (s.update x (v.exec (s.find x)))) {t : T}
    {vs : List (KeyVisit K V)} (along : Along P t vs s) (h : I s) :
    I (visitAll t vs s) := by
  induction vs generalizing s with
  | nil => exact h
  | cons v rest ih =>
    simp only [Along] at along
    simp only [visitAll]
    split
    · rename_i absent
      rw [if_pos absent] at along
      exact ih along h
    · rename_i looked
      rw [if_neg looked] at along
      split
      · exact h
      · rename_i room
        rw [if_neg room] at along
        exact ih along.2 (step s _ _ h along.1)

/-- The rule for the whole run: what every visit keeps holds after every request. -/
theorem Reached.invariant {I : ObjectShard T K V → Prop} (h : Reached P s) (start : I initial)
    (step : ∀ s x v, I s → v.Enabled (s.find x) → P (s.find x) v →
      I (s.update x (v.exec (s.find x)))) : I s := by
  refine Reachable.invariant h ?_ ?_
  · rintro s rfl
    exact start
  · rintro s q s' ⟨along, rfl⟩ now
    exact visitAll_preserves (fun s x v now met => step s x v now met.1 met.2) along now

end ObjectShard

end TxService
