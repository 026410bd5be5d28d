import Mathlib.Algebra.Ring.Nat
import TxService.ObjectCcMap
import TxService.Transition

/-!
# A batch of records that is uploaded to an object map

An `UploadBatchCc` is executed on every core in rounds, and the last to report completes it. A core
whose buckets are not in migration reports an error, uploads its keys and reports again.
-/

namespace TxService.UploadBatch

open Transition

universe u v

inductive CcErrorCode
  | requestedNodeNotLeader
  | requestedTableNotExists
  | outOfMemory
  deriving DecidableEq, Repr

/-- What does not change while the request is executed. -/
structure Input (K : Type v) (V : Type u) where
  hash : K → Nat
  mapKeyHashToBucketId : Nat → Nat
  coreCnt : Nat
  rows : List (K × UploadRecord V)
  cores : 0 < coreCnt ∧ coreCnt < 2 ^ 64

/-- `finishedReqCnt` is where the sender of the request waits for it, and `freed` counts the
executions after which the request is taken back. -/
structure UploadBatchCc where
  nodeGroupTerm : Int
  unfinishedCnt : UInt64
  errCode : Option CcErrorCode
  pausedPos : Nat → Nat
  finishedReqCnt : Nat
  freed : Nat

namespace UploadBatchCc

def uploadBatchBatchSize : Nat := 128

def reset (nodeGroupTerm : Int) (coreCnt : Nat) : UploadBatchCc where
  nodeGroupTerm := nodeGroupTerm
  unfinishedCnt := .ofNat coreCnt
  errCode := none
  pausedPos := fun _ => 0
  finishedReqCnt := 0
  freed := 0

/-- The first check of a request without a term takes over the term of the leader. -/
def validTermCheck (r : UploadBatchCc) (leaderTerm : Int) : Bool × UploadBatchCc :=
  let r := if r.nodeGroupTerm < 0 then { r with nodeGroupTerm := leaderTerm } else r
  (!(decide (leaderTerm < 0) || decide (leaderTerm ≠ r.nodeGroupTerm)), r)

def setFinish (r : UploadBatchCc) : Bool × UploadBatchCc :=
  let last := r.unfinishedCnt == 1
  (last, { r with
    unfinishedCnt := r.unfinishedCnt - 1
    finishedReqCnt := if last then r.finishedReqCnt + 1 else r.finishedReqCnt })

/-- The first error stays. -/
def setError (r : UploadBatchCc) (errCode : CcErrorCode) : Bool × UploadBatchCc :=
  { r with errCode := r.errCode.or (some errCode) }.setFinish

end UploadBatchCc

/-- The entries of the map on a core. -/
abbrev Entries (K : Type v) (V : Type u) := K → Option (ObjectCcEntry V)

inductive TableState
  | fetching
  | dropped
  | present
  deriving DecidableEq, Repr

/-- What a round finds on the node. -/
structure Env (K : Type v) where
  leaderTerm : Int
  table : TableState
  isBucketsMigrating : Bool
  acceptsUploadBatch : Nat → Bool
  memoryFull : K → Bool

section
variable {K : Type v} {V : Type u}

/-- The keys that a round goes over. -/
def Input.round (i : Input K V) (keyPos : Nat) : List (K × UploadRecord V) :=
  (i.rows.drop keyPos).take UploadBatchCc.uploadBatchBatchSize

/-- The key lands on the core, its version is valid and its bucket accepts uploads. -/
def takes (i : Input K V) (env : Env K) (core : Nat) (row : K × UploadRecord V) : Bool :=
  let hash := i.hash row.1
  decide ((hash &&& 0x3FF) % i.coreCnt = core) && decide (1 < row.2.commitTs) &&
    env.acceptsUploadBatch (i.mapKeyHashToBucketId hash)

variable [DecidableEq K]

/-- The keys of a round, up to one for which there is no memory. -/
def uploadLoop (i : Input K V) (env : Env K) (core : Nat) :
    List (K × UploadRecord V) → Entries K V → Bool × Entries K V
  | [], entries => (true, entries)
  | row :: rows, entries =>
    if takes i env core row then
      if entries row.1 = none ∧ env.memoryFull row.1 then (false, entries)
      else
        let cce := (entries row.1).getD .initial
        uploadLoop i env core rows (Function.update entries row.1 (cce.executeUploadBatchCc row.2).cce)
    else uploadLoop i env core rows entries

/-- An execution of the request on a core: whether the request is in the queue again, and how often
the core has reported to it. -/
structure Executed (K : Type v) (V : Type u) where
  again : Bool
  reports : Nat
  req : UploadBatchCc
  entries : Entries K V

/-- The core reports; the request is freed if the report is the last one. -/
def reported (r : Bool × UploadBatchCc) (reports : Nat) (entries : Entries K V) : Executed K V :=
  ⟨false, reports + 1, if r.1 then { r.2 with freed := r.2.freed + 1 } else r.2, entries⟩

/-- `ObjectCcMap::Execute(UploadBatchCc)`: an error for buckets that are not migrating is reported,
and the keys are uploaded all the same. -/
def executeMap (i : Input K V) (env : Env K) (core : Nat) (r : UploadBatchCc) (entries : Entries K V) :
    Executed K V :=
  let reports := if env.isBucketsMigrating then 0 else 1
  let r := if env.isBucketsMigrating then r else (r.setError .requestedNodeNotLeader).2
  let keyPos := r.pausedPos core
  let looped := uploadLoop i env core (i.round keyPos) entries
  if looped.1 = false then reported (r.setError .outOfMemory) reports looped.2
  else
    let keyPos := keyPos + UploadBatchCc.uploadBatchBatchSize
    if keyPos < i.rows.length then
      ⟨true, reports, { r with pausedPos := Function.update r.pausedPos core keyPos }, looped.2⟩
    else reported r.setFinish reports looped.2

def execute (i : Input K V) (env : Env K) (core : Nat) (r : UploadBatchCc) (entries : Entries K V) :
    Executed K V :=
  match r.validTermCheck env.leaderTerm with
  | (false, r) => reported (r.setError .requestedNodeNotLeader) 0 entries
  | (true, r) =>
    match env.table with
    | .fetching => ⟨true, 0, r, entries⟩
    | .dropped => reported (r.setError .requestedTableNotExists) 0 entries
    | .present => executeMap i env core r entries

/-- `reports`, `refused` and `effects` say what the executions on a core have done so far: how often
it reported, whether it had to refuse the batch, and the map before and after each of them. -/
structure State (K : Type v) (V : Type u) where
  req : UploadBatchCc
  entries : Nat → Entries K V
  queued : Finset Nat
  reports : Nat → Nat
  refused : Nat → Bool
  effects : Nat → List (Entries K V × Entries K V)

def start (i : Input K V) (nodeGroupTerm : Int) (entries : Nat → Entries K V) : State K V where
  req := .reset nodeGroupTerm i.coreCnt
  entries := entries
  queued := Finset.range i.coreCnt
  reports := fun _ => 0
  refused := fun _ => false
  effects := fun _ => []

/-- The buckets of the batch migrate to this node and accept uploads. -/
def inMigration (i : Input K V) (env : Env K) : Bool :=
  env.isBucketsMigrating &&
    i.rows.all fun row => env.acceptsUploadBatch (i.mapKeyHashToBucketId (i.hash row.1))

/-- A batch is refused by a node that is not the leader, without the table, with buckets that are
not in migration or out of memory. -/
def refuses (i : Input K V) (env : Env K) (core : Nat) (r : UploadBatchCc) (entries : Entries K V) :
    Bool :=
  match r.validTermCheck env.leaderTerm with
  | (false, _) => true
  | (true, r) =>
    match env.table with
    | .fetching => false
    | .dropped => true
    | .present =>
      !inMigration i env ||
        !(uploadLoop i env core (i.round (r.pausedPos core)) entries).1

/-- Between the executions of the request others change the map of a core. -/
inductive Action (K : Type v) (V : Type u)
  | execute (core : Nat) (env : Env K)
  | others (core : Nat) (entries : Entries K V)

def run (i : Input K V) (s : State K V) (core : Nat) (env : Env K) : State K V :=
  let done := execute i env core s.req (s.entries core)
  { req := done.req
    entries := Function.update s.entries core done.entries
    queued := if done.again then s.queued else s.queued.erase core
    reports := Function.update s.reports core (s.reports core + done.reports)
    refused := Function.update s.refused core
      (s.refused core || refuses i env core s.req (s.entries core))
    effects := Function.update s.effects core ((s.entries core, done.entries) :: s.effects core) }

def step (i : Input K V) (s : State K V) : Action K V → Option (State K V)
  | .execute core env => if core ∈ s.queued then some (run i s core env) else none
  | .others core entries => some { s with entries := Function.update s.entries core entries }

/-- The request does not get as far as the map. -/
def turnedAway (r : UploadBatchCc) (env : Env K) : Bool :=
  !(r.validTermCheck env.leaderTerm).1 || decide (env.table = .dropped)

/-- There is memory for every key that the core takes. -/
def HasRoom (i : Input K V) (env : Env K) (core : Nat) : Prop :=
  ∀ row ∈ i.rows, takes i env core row = true → env.memoryFull row.1 = false

/-- A core that turns the request away has not changed its map before, and at a map the buckets of
the batch are in migration and there is memory for its keys. -/
def Allowed (i : Input K V) (s : State K V) : Action K V → Prop
  | .execute core env =>
    if turnedAway s.req env then ∀ effect ∈ s.effects core, effect.1 = effect.2
    else env.table = .present → inMigration i env = true ∧ HasRoom i env core
  | .others _ _ => True

/-- A core that refused the batch has left its map as it was, each core that is done has reported
once, the request is completed once, when every core is done, and if a core refused, with an error. -/
structure Rejects (i : Input K V) (s : State K V) : Prop where
  unchanged : ∀ core, s.refused core = true → ∀ effect ∈ s.effects core, effect.1 = effect.2
  reported : ∀ core, core < i.coreCnt → s.reports core = if core ∈ s.queued then 0 else 1
  completed : s.req.finishedReqCnt = if s.queued = ∅ then 1 else 0
  failed : ∀ core, s.refused core = true → s.req.errCode ≠ none

variable {i : Input K V} {env : Env K} {core : Nat} {r r' : UploadBatchCc} {entries : Entries K V}

theorem uploadLoop_fits {rows : List (K × UploadRecord V)}
    (room : ∀ row ∈ rows, takes i env core row = true → env.memoryFull row.1 = false) :
    (uploadLoop i env core rows entries).1 = true := by
  induction rows generalizing entries with
  | nil => rfl
  | cons row rows ih =>
    have here := room row List.mem_cons_self
    have rest := fun row mem => room row (List.mem_cons_of_mem _ mem)
    unfold uploadLoop
    split
    · rename_i taken
      rw [if_neg (by simp [here taken])]
      exact ih rest
    · exact ih rest

/-- The request has counted the same reports. -/
structure SameCounts (r r' : UploadBatchCc) : Prop where
  unfinishedCnt : r'.unfinishedCnt = r.unfinishedCnt
  errCode : r'.errCode = r.errCode
  finishedReqCnt : r'.finishedReqCnt = r.finishedReqCnt

theorem sameCounts_validTermCheck (r : UploadBatchCc) (leaderTerm : Int) :
    SameCounts r (r.validTermCheck leaderTerm).2 := by
  unfold UploadBatchCc.validTermCheck
  split <;> exact ⟨rfl, rfl, rfl⟩

/-- The ends of an execution that is allowed. -/
inductive Ended (r : UploadBatchCc) (entries : Entries K V) : Bool → Executed K V → Prop
  | away {r' : UploadBatchCc} (same : SameCounts r r') (err : CcErrorCode) :
      Ended r entries true (reported (r'.setError err) 0 entries)
  | again {r' : UploadBatchCc} (same : SameCounts r r') (entries' : Entries K V) :
      Ended r entries false ⟨true, 0, r', entries'⟩
  | finish {r' : UploadBatchCc} (same : SameCounts r r') (entries' : Entries K V) :
      Ended r entries false (reported r'.setFinish 0 entries')

theorem executeMap_ended (migrating : env.isBucketsMigrating = true) (room : HasRoom i env core)
    (same : SameCounts r r') : Ended r entries false (executeMap i env core r' entries) := by
  have fits : (uploadLoop i env core (i.round (r'.pausedPos core)) entries).1 = true :=
    uploadLoop_fits fun row mem => room row (List.mem_of_mem_drop (List.mem_of_mem_take mem))
  simp only [executeMap, migrating, if_true, fits, Bool.true_eq_false, if_false]
  split
  · refine .again ?_ _
    exact ⟨same.unfinishedCnt, same.errCode, same.finishedReqCnt⟩
  · exact .finish same _

theorem execute_ended (entries : Entries K V)
    (arrives : turnedAway r env = false → env.table = .present →
      inMigration i env = true ∧ HasRoom i env core) :
    Ended r entries (turnedAway r env) (execute i env core r entries) ∧
      refuses i env core r entries = turnedAway r env := by
  have same := sameCounts_validTermCheck r env.leaderTerm
  unfold turnedAway at arrives ⊢
  unfold execute refuses
  generalize r.validTermCheck env.leaderTerm = checked at same arrives ⊢
  obtain ⟨_ | _, r'⟩ := checked
  · exact ⟨.away same _, rfl⟩
  · cases table : env.table with
    | fetching => exact ⟨.again same _, rfl⟩
    | dropped => exact ⟨.away same _, rfl⟩
    | present =>
      obtain ⟨migration, room⟩ := arrives (by simp [table]) table
      have fits : (uploadLoop i env core (i.round (r'.pausedPos core)) entries).1 = true :=
        uploadLoop_fits fun row mem => room row (List.mem_of_mem_drop (List.mem_of_mem_take mem))
      refine ⟨executeMap_ended ?_ room same, by simp [migration, fits]⟩
      exact (Bool.and_eq_true_iff.mp migration).1

omit [DecidableEq K] in
/-- Of `n` reports that the request waits for, the last one completes it. -/
theorem reported_counts (reports : Nat) (entries : Entries K V) {n : Nat} (some_ : 0 < n)
    (bound : n < 2 ^ 64) (count : r.unfinishedCnt = .ofNat n) :
    (reported r.setFinish reports entries).req.unfinishedCnt = .ofNat (n - 1) ∧
      (reported r.setFinish reports entries).req.finishedReqCnt =
        r.finishedReqCnt + (if n - 1 = 0 then 1 else 0) ∧
      (reported r.setFinish reports entries).req.errCode = r.errCode := by
  have less : UInt64.ofNat n - 1 = UInt64.ofNat (n - 1) := by
    rw [UInt64.ofNat_sub (by omega)]
    rfl
  have last : (UInt64.ofNat n == 1) = decide (n - 1 = 0) := by
    rw [beq_eq_decide, decide_eq_decide, ← UInt64.toNat_inj, UInt64.toNat_ofNat_of_lt' bound,
      UInt64.toNat_one]
    omega
  unfold reported UploadBatchCc.setFinish
  simp only [count, last, less]
  by_cases zero : n - 1 = 0 <;> simp [zero]

structure Sound (i : Input K V) (s : State K V) : Prop extends Rejects i s where
  queued : s.queued ⊆ Finset.range i.coreCnt
  count : s.req.unfinishedCnt = .ofNat s.queued.card
  gone : ∀ core ∈ s.queued, s.refused core = false

omit [DecidableEq K] in
theorem Sound.start (i : Input K V) (nodeGroupTerm : Int) (entries : Nat → Entries K V) :
    Sound i (start i nodeGroupTerm entries) where
  unchanged _ refused := nomatch refused
  reported core inside := by simp [UploadBatch.start, inside]
  completed := by
    have some_ : Finset.range i.coreCnt ≠ ∅ := by
      simp [Nat.ne_of_gt i.cores.1]
    simp [UploadBatch.start, UploadBatchCc.reset, some_]
  failed _ refused := nomatch refused
  queued := subset_rfl
  count := by simp [UploadBatch.start, UploadBatchCc.reset]
  gone _ _ := rfl

variable {s : State K V}

omit [DecidableEq K] in
theorem Sound.report (h : Sound i s) (here : core ∈ s.queued) (same : SameCounts s.req r)
    (err : Option CcErrorCode) {entries' : Entries K V} {refused : Bool}
    (fails : refused = true → err ≠ none ∧ ∀ effect ∈ s.effects core, effect.1 = effect.2)
    (clean : refused = true → entries' = s.entries core) (kept : s.req.errCode ≠ none → err ≠ none) :
    Sound i
      { req := (UploadBatch.reported { r with errCode := err }.setFinish 0 entries').req
        entries := Function.update s.entries core entries'
        queued := s.queued.erase core
        reports := Function.update s.reports core 1
        refused := Function.update s.refused core refused
        effects := Function.update s.effects core ((s.entries core, entries') :: s.effects core) } := by
  have bound : s.queued.card < 2 ^ 64 :=
    Nat.lt_of_le_of_lt (by simpa using Finset.card_le_card h.queued) i.cores.2
  obtain ⟨count, finished, code⟩ := reported_counts (r := { r with errCode := err }) 0 entries'
    (Finset.card_pos.mpr ⟨core, here⟩) bound (same.unfinishedCnt.trans h.count)
  have less := Finset.card_erase_of_mem here
  refine ⟨⟨fun other => ?_, fun other inside => ?_, ?_, fun other => ?_⟩, ?_, ?_, ?_⟩
  · by_cases is : other = core
    · subst is
      simp only [Function.update_self, List.forall_mem_cons]
      exact fun yes => ⟨(clean yes).symm, (fails yes).2⟩
    · simp only [Function.update_of_ne is]
      exact h.unchanged other
  · by_cases is : other = core
    · subst is
      simp
    · simp only [Function.update_of_ne is, Finset.mem_erase, ne_eq, is, not_false_eq_true, true_and]
      exact h.reported other inside
  · have before : s.req.finishedReqCnt = 0 := by
      rw [h.completed, if_neg (Finset.ne_empty_of_mem here)]
    refine finished.trans ?_
    rw [← less, same.finishedReqCnt, before, Nat.zero_add]
    simp only [Finset.card_eq_zero]
  · simp only [code]
    by_cases is : other = core
    · subst is
      simp only [Function.update_self]
      exact fun yes => (fails yes).1
    · simp only [Function.update_of_ne is]
      exact fun yes => kept (h.failed other yes)
  · exact (Finset.erase_subset _ _).trans h.queued
  · rw [count, less]
  · intro other mem
    obtain ⟨is, mem⟩ := Finset.mem_erase.mp mem
    simp only [Function.update_of_ne is]
    exact h.gone other mem

omit [DecidableEq K] in
theorem Sound.again (h : Sound i s) (here : core ∈ s.queued) (same : SameCounts s.req r)
    (entries' : Entries K V) :
    Sound i
      { req := r
        entries := Function.update s.entries core entries'
        queued := s.queued
        reports := s.reports
        refused := s.refused
        effects := Function.update s.effects core ((s.entries core, entries') :: s.effects core) } := by
  refine ⟨⟨fun other yes => ?_, h.reported, ?_, fun other yes => ?_⟩, h.queued, ?_, h.gone⟩
  · by_cases is : other = core
    · subst is
      cases (h.gone other here).symm.trans yes
    · simp only [Function.update_of_ne is]
      exact h.unchanged other yes
  · exact same.finishedReqCnt.trans h.completed
  · simp only [same.errCode]
    exact h.failed other yes
  · exact same.unfinishedCnt.trans h.count

theorem Sound.run (h : Sound i s) (here : core ∈ s.queued) (allowed : Allowed i s (.execute core env)) :
    Sound i (run i s core env) := by
  unfold Allowed at allowed
  have arrives : turnedAway s.req env = false → env.table = .present →
      inMigration i env = true ∧ HasRoom i env core := by
    intro away
    simpa [away] using allowed
  obtain ⟨ended, refused⟩ := execute_ended (s.entries core) arrives
  have first : s.reports core = 0 := by
    rw [h.reported core (Finset.mem_range.mp (h.queued here)), if_pos here]
  unfold UploadBatch.run
  rw [refused, h.gone core here, Bool.false_or]
  have before : turnedAway s.req env = true → ∀ effect ∈ s.effects core, effect.1 = effect.2 := by
    intro away
    simpa [away] using allowed
  generalize execute i env core s.req (s.entries core) = done at ended ⊢
  generalize turnedAway s.req env = away at ended before ⊢
  cases ended with
  | @away r same err =>
    have failed : r.errCode.or (some err) ≠ none := by
      cases r.errCode <;> simp
    rw [first]
    exact h.report here same _ (fun _ => ⟨failed, before rfl⟩) (fun _ => rfl) fun _ => failed
  | again same entries' =>
    have kept := h.again here same entries'
    rw [← Function.update_eq_self core s.reports, ← Function.update_eq_self core s.refused,
      h.gone core here] at kept
    exact kept
  | @finish r same entries' =>
    rw [first]
    exact h.report here same r.errCode nofun nofun fun err => same.errCode ▸ err

theorem Sound.step (h : Sound i s) {a : Action K V} {s' : State K V} (taken : step i s a = some s')
    (allowed : Allowed i s a) : Sound i s' := by
  cases a with
  | execute core env =>
    simp only [UploadBatch.step, Option.ite_none_right_eq_some, Option.some.injEq] at taken
    obtain ⟨here, rfl⟩ := taken
    exact h.run here allowed
  | others core entries =>
    cases taken
    exact ⟨⟨h.unchanged, h.reported, h.completed, h.failed⟩, h.queued, h.count, h.gone⟩

/-- In every run whose executions are all allowed, a core that refuses the batch has changed nothing,
each core reports once, and the request is completed once, with the error. -/
theorem rejected_upload_has_no_effect (i : Input K V) (nodeGroupTerm : Int) (entries : Nat → Entries K V)
    (s : State K V) (reached : Reachable (· = start i nodeGroupTerm entries)
      (fun s a s' => step i s a = some s' ∧ Allowed i s a) s) : Rejects i s := by
  have sound : Sound i s := by
    refine reached.invariant ?_ ?_
    · rintro _ rfl
      exact .start i nodeGroupTerm entries
    · rintro s a s' ⟨taken, allowed⟩ h
      exact h.step taken allowed
  exact sound.toRejects

end

/-- One record for the first of the cores. -/
def oneRow (coreCnt : Nat) (cores : 0 < coreCnt ∧ coreCnt < 2 ^ 64) : Input Nat Unit where
  hash := id
  mapKeyHashToBucketId := id
  coreCnt := coreCnt
  rows := [(0, ⟨5, .normal, ()⟩)]
  cores := cores

/-- A node with the table whose buckets accept uploads. -/
def node (leaderTerm : Int) (isBucketsMigrating : Bool) : Env Nat where
  leaderTerm := leaderTerm
  table := .present
  isBucketsMigrating := isBucketsMigrating
  acceptsUploadBatch := fun _ => true
  memoryFull := fun _ => false

def twoCores : Input Nat Unit := oneRow 2 (by decide)

/-- Of two cores the first finds that the node is not the leader any more. -/
theorem rejected_upload_has_no_effect_on_two_cores :
    ∃ s, Reachable (· = start twoCores 1 fun _ _ => none)
        (fun s a s' => step twoCores s a = some s' ∧ Allowed twoCores s a) s ∧
      s.refused 0 = true ∧ s.req.errCode = some .requestedNodeNotLeader ∧ s.queued = ∅ ∧
      Rejects twoCores s := by
  have first : Reachable (· = start twoCores 1 fun _ _ => none)
      (fun s a s' => step twoCores s a = some s' ∧ Allowed twoCores s a)
      (run twoCores (start twoCores 1 fun _ _ => none) 0 (node (-1) true)) :=
    Reachable.next (a := .execute 0 (node (-1) true)) (.start rfl) ⟨rfl, nofun⟩
  have allowed : Allowed twoCores (run twoCores (start twoCores 1 fun _ _ => none) 0 (node (-1) true))
      (.execute 1 (node 1 true)) := fun _ => ⟨rfl, fun _ _ _ => rfl⟩
  have both := first.next ⟨rfl, allowed⟩
  exact ⟨_, both, rfl, rfl, rfl, rejected_upload_has_no_effect twoCores 1 _ _ both⟩

/-- A core whose buckets are not migrating reports twice and uploads the record. The sender waits in
vain for the request to be freed. -/
theorem refused_upload_is_applied :
    ∃ s, step (oneRow 1 (by decide)) (start (oneRow 1 (by decide)) 1 fun _ _ => none)
        (.execute 0 (node 1 false)) = some s ∧
      s.refused 0 = true ∧ (s.entries 0 0).isSome = true ∧ s.reports 0 = 2 ∧ s.queued = ∅ ∧
      s.req.finishedReqCnt = 1 ∧ s.req.freed = 0 ∧ s.req.unfinishedCnt = -1 ∧
      ¬ Rejects (oneRow 1 (by decide)) s := by
  refine ⟨_, rfl, rfl, rfl, rfl, rfl, rfl, rfl, rfl, fun h => ?_⟩
  have twice := h.reported 0 (by decide)
  revert twice
  decide

end TxService.UploadBatch
