import Mathlib.Algebra.Ring.Nat
import Mathlib.Data.Finset.Card
import TxService.Transition

/-!
# The completion of a parallel slice scan

A `ScanSliceCc` is dispatched to all cores, which count down; the last one completes the result, and
the execution that returns `true` hands the request back.
-/

namespace TxService.ScanSliceCc

open Transition

inductive CcErrorCode
  | requestedNodeNotLeader
  | requestedTableNotExists
  | requestedTableSchemaMismatch
  | outOfMemory
  | pinRangeSliceFailed
  | lockConflict
  | aborted
  deriving DecidableEq, Repr

structure Input where
  coreCnt : Nat
  isLocal : Bool
  txNumber : Nat
  cores : 0 < coreCnt ∧ coreCnt < 2 ^ 16

/-- `results` has what the handler result was completed with, newest first; `unpins` and `recycled`
count the calls of `UnpinSlices` and the executions that hand the request back. The request is in
the queue, or in a lock queue, of the cores of `waiting`, and in the queue of the sender to be
responded. `failed` is whether a core has reported an error. -/
structure State where
  unfinishedCoreCnt : UInt16
  err : Option CcErrorCode
  pinned : Bool
  results : List (Option CcErrorCode)
  unpins : Nat
  recycled : Nat
  waiting : Finset Nat
  responding : Bool
  failed : Bool

/-- The request is enqueued on its first core. -/
def start (core : Nat) : State where
  unfinishedCoreCnt := 1
  err := none
  pinned := false
  results := []
  unpins := 0
  recycled := 0
  waiting := {core}
  responding := false
  failed := false

namespace State

def complete (s : State) (result : Option CcErrorCode) : State :=
  { s with results := result :: s.results }

/-- The execution returns `true`. -/
def recycle (s : State) : State := { s with recycled := s.recycled + 1 }

def unpinSlices (s : State) : State := { s with unpins := s.unpins + 1 }

/-- The core is done with the request. -/
def leave (s : State) (core : Nat) : State :=
  { s with waiting := s.waiting.erase core, responding := false }

/-- The result of a local request is set, that of a remote one by the sender. -/
def setFinish (i : Input) (s : State) : Bool × State :=
  let last := s.unfinishedCoreCnt == 1
  let s := { s with unfinishedCoreCnt := s.unfinishedCoreCnt - 1 }
  (last, if last && i.isLocal then s.complete s.err else s)

def setError (s : State) (err : CcErrorCode) : Bool × State :=
  let last := decide (s.unfinishedCoreCnt ≤ 1)
  let s := { s with err := some err, unfinishedCoreCnt := s.unfinishedCoreCnt - 1, failed := true }
  (last, if last then s.complete (some err) else s)

def sendResponseIfFinished (s : State) : Bool × State :=
  if s.unfinishedCoreCnt == 0 then (true, s.complete s.err) else (false, s)

end State

def isResponseSender (i : Input) (core : Nat) : Bool := (i.txNumber &&& 0x3FF) % i.coreCnt == core

inductive TableState
  | fetching
  | dropped
  | present
  deriving DecidableEq, Repr

inductive PinStatus
  | again
  | failed (err : CcErrorCode)
  | successful
  deriving DecidableEq, Repr

/-- A scan that is blocked by a lock or yields stays with its core. -/
inductive ScanOutcome
  | stays
  | error (err : CcErrorCode)
  | finished
  deriving DecidableEq, Repr

/-- What an execution finds. -/
structure Found where
  validTerm : Bool
  table : TableState
  leader : Bool
  schemaMatches : Bool
  pin : PinStatus
  scan : ScanOutcome

/-- `return SetError(err)`. -/
def returnError (s : State) (core : Nat) (err : CcErrorCode) : State :=
  match s.setError err with
  | (true, s) => (s.leave core).recycle
  | (false, s) => s.leave core

/-- The scan of the core, to its end or to a lock. -/
def executeScan (i : Input) (s : State) (core : Nat) : ScanOutcome → State
  | .stays => s
  | .error err =>
    match s.setError err with
    | (true, s) => (s.leave core).unpinSlices.recycle
    | (false, s) => s.leave core
  | .finished =>
    match s.setFinish i with
    | (true, s) =>
      if i.isLocal then (s.leave core).unpinSlices.recycle
      else if isResponseSender i core then (s.sendResponseIfFinished.2.leave core).unpinSlices.recycle
      else { s.leave core with responding := true }
    | (false, s) => s.leave core

/-- `TemplateCcMap::Execute(ScanSliceCc)`. -/
def executeMap (i : Input) (s : State) (core : Nat) (f : Found) : State :=
  if f.leader = false then returnError s core .requestedNodeNotLeader
  else if f.schemaMatches = false then
    ((s.setError .requestedTableSchemaMismatch).2.leave core).recycle
  else
    match s.sendResponseIfFinished with
    | (true, s) => (s.leave core).unpinSlices.recycle
    | (false, s) =>
      if s.pinned then executeScan i s core f.scan
      else
        match f.pin with
        | .again => s
        | .failed err => returnError s core err
        | .successful =>
          executeScan i
            { s with
              pinned := true
              unfinishedCoreCnt := .ofNat i.coreCnt
              waiting := Finset.range i.coreCnt }
            core f.scan

def execute (i : Input) (s : State) (core : Nat) (f : Found) : State :=
  if f.validTerm = false then returnError s core .requestedNodeNotLeader
  else
    match f.table with
    | .fetching => s
    | .dropped =>
      (({ s with failed := true }.complete (some .requestedTableNotExists)).leave core).recycle
    | .present => executeMap i s core f

/-- `AbortCcRequest` on a core. -/
def abortCcRequest (s : State) (core : Nat) (err : CcErrorCode) : State :=
  match s.setError err with
  | (true, s) =>
    let s := s.leave core
    (if s.pinned then s.unpinSlices else s).recycle
  | (false, s) => s.leave core

inductive Action
  | execute (core : Nat) (f : Found)
  | abort (core : Nat) (err : CcErrorCode)

def step (i : Input) (s : State) : Action → Option State
  | .execute core f =>
    if core ∈ s.waiting ∨ s.responding = true ∧ isResponseSender i core = true then
      some (execute i s core f)
    else none
  | .abort core err => if core ∈ s.waiting then some (abortCcRequest s core err) else none

/-- No core has the request any more. -/
def State.done (s : State) : Bool := decide (s.waiting = ∅) && !s.responding

/-- The result is completed once, when every core has reported, and with an error if one reported an
error; one execution hands the request back, and slices that were pinned are unpinned once. -/
structure CompletedOnce (s : State) : Prop where
  result : s.results.length = if s.done then 1 else 0
  error : s.failed = true → ∀ result ∈ s.results, result ≠ none
  recycled : s.recycled = if s.done then 1 else 0
  unpinned : s.unpins = if s.done && s.pinned then 1 else 0

/-- The leadership is lost while no slice is pinned or other cores have still to report, and the
table is dropped or changed while no slice is pinned. -/
def Allowed (s : State) : Action → Prop
  | .execute _ f =>
    if f.validTerm = false ∨ f.table = .present ∧ f.leader = false then
      s.pinned = false ∨ 2 ≤ s.unfinishedCoreCnt
    else f.table = .dropped ∨ f.table = .present ∧ f.schemaMatches = false → s.pinned = false
  | .abort _ _ => True

structure Sound (i : Input) (s : State) : Prop extends CompletedOnce s where
  count : s.done = false → s.unfinishedCoreCnt = .ofNat s.waiting.card
  cores : s.waiting ⊆ Finset.range i.coreCnt
  responding : s.responding = true → s.waiting = ∅ ∧ s.pinned = true
  first : s.pinned = false → s.waiting.card ≤ 1
  failed : s.done = false → s.failed = true → s.err ≠ none

variable {i : Input} {s s' : State} {core : Nat}

theorem Sound.start (i : Input) (inside : core < i.coreCnt) : Sound i (start core) where
  result := by simp [ScanSliceCc.start, State.done]
  error := nofun
  recycled := by simp [ScanSliceCc.start, State.done]
  unpinned := by simp [ScanSliceCc.start, State.done]
  count _ := by simp [ScanSliceCc.start]
  cores := by simpa [ScanSliceCc.start] using inside
  responding := nofun
  first _ := by simp [ScanSliceCc.start]
  failed _ := nofun

theorem Sound.busy (h : Sound i s) (busy : s.done = false) :
    s.results = [] ∧ s.recycled = 0 ∧ s.unpins = 0 := by
  have result := h.result
  have recycled := h.recycled
  have unpinned := h.unpinned
  rw [busy] at result recycled unpinned
  exact ⟨List.length_eq_zero_iff.mp result, recycled, unpinned⟩

theorem done_of_waiting (here : core ∈ s.waiting) : s.done = false := by
  simp [State.done, Finset.ne_empty_of_mem here]

section
variable (h : Sound i s)
include h

/-- The last report, or the response: the request is handed back with a result. -/
theorem Sound.complete (busy : s.done = false) (result : Option CcErrorCode)
    (results : s'.results = result :: s.results) (recycled : s'.recycled = s.recycled + 1)
    (unpins : s'.unpins = s.unpins + if s'.pinned then 1 else 0) (waiting : s'.waiting = ∅)
    (responding : s'.responding = false) (failed : s'.failed = true → result ≠ none) :
    Sound i s' := by
  obtain ⟨noResults, noRecycled, noUnpins⟩ := h.busy busy
  have done : s'.done = true := by simp [State.done, waiting, responding]
  refine ⟨⟨?_, fun yes r mem => ?_, ?_, ?_⟩, ?_, ?_, ?_, fun _ => ?_, ?_⟩
  · simp [results, noResults, done]
  · rw [results, noResults, List.mem_singleton] at mem
    exact mem ▸ failed yes
  · simp [recycled, noRecycled, done]
  · simp [unpins, noUnpins, done]
  · simp [done]
  · simp [waiting]
  · simp [responding]
  · simp [waiting]
  · simp [done]

/-- A report that others follow, or the last one of a remote scan that the sender responds to. -/
theorem Sound.goOn (busy : s.done = false) (still : s'.done = false)
    (results : s'.results = s.results) (recycled : s'.recycled = s.recycled)
    (unpins : s'.unpins = s.unpins) (count : s'.unfinishedCoreCnt = .ofNat s'.waiting.card)
    (cores : s'.waiting ⊆ Finset.range i.coreCnt)
    (responding : s'.responding = true → s'.waiting = ∅ ∧ s'.pinned = true)
    (first : s'.pinned = false → s'.waiting.card ≤ 1) (failed : s'.failed = true → s'.err ≠ none) :
    Sound i s' := by
  obtain ⟨noResults, noRecycled, noUnpins⟩ := h.busy busy
  refine ⟨⟨?_, fun _ r mem => ?_, ?_, ?_⟩, fun _ => count, cores, responding, first, fun _ => failed⟩
  · simp [results, noResults, still]
  · rw [results, noResults] at mem
    cases mem
  · rw [recycled, noRecycled, still]
    rfl
  · rw [unpins, noUnpins, still]
    rfl

theorem Sound.toNat_count (busy : s.done = false) :
    s.unfinishedCoreCnt.toNat = s.waiting.card := by
  have bound : s.waiting.card ≤ i.coreCnt := by simpa using Finset.card_le_card h.cores
  rw [h.count busy, UInt16.toNat_ofNat_of_lt' (Nat.lt_of_le_of_lt bound i.cores.2)]

theorem Sound.count_sub_one (here : core ∈ s.waiting) :
    s.unfinishedCoreCnt - 1 = .ofNat (s.waiting.erase core).card := by
  have pos := Finset.card_pos.mpr ⟨core, here⟩
  rw [Finset.card_erase_of_mem here, h.count (done_of_waiting here), UInt16.ofNat_sub pos]
  rfl

theorem Sound.last_iff (here : core ∈ s.waiting) :
    s.unfinishedCoreCnt = 1 ↔ s.waiting.erase core = ∅ := by
  have pos := Finset.card_pos.mpr ⟨core, here⟩
  rw [← Finset.card_eq_zero, Finset.card_erase_of_mem here, ← UInt16.toNat_inj,
    h.toNat_count (done_of_waiting here), UInt16.toNat_one]
  omega

theorem Sound.setFinish_eq (here : core ∈ s.waiting) :
    s.setFinish i = (decide (s.waiting.erase core = ∅),
      { s with
        unfinishedCoreCnt := .ofNat (s.waiting.erase core).card
        results := if s.waiting.erase core = ∅ ∧ i.isLocal = true then s.err :: s.results
          else s.results }) := by
  have last : (s.unfinishedCoreCnt == 1) = decide (s.waiting.erase core = ∅) := by
    rw [beq_eq_decide, decide_eq_decide, h.last_iff here]
  simp only [State.setFinish, last, h.count_sub_one here]
  by_cases empty : s.waiting.erase core = ∅ <;> cases i.isLocal <;> simp [empty, State.complete]

theorem Sound.setError_eq (here : core ∈ s.waiting) (err : CcErrorCode) :
    s.setError err = (decide (s.waiting.erase core = ∅),
      { s with
        unfinishedCoreCnt := .ofNat (s.waiting.erase core).card
        err := some err
        failed := true
        results := if s.waiting.erase core = ∅ then some err :: s.results else s.results }) := by
  have last : decide (s.unfinishedCoreCnt ≤ 1) = decide (s.waiting.erase core = ∅) := by
    have pos := Finset.card_pos.mpr ⟨core, here⟩
    rw [decide_eq_decide, ← h.last_iff here, UInt16.le_iff_toNat_le, ← UInt16.toNat_inj,
      h.toNat_count (done_of_waiting here), UInt16.toNat_one]
    omega
  simp only [State.setError, last, h.count_sub_one here]
  by_cases empty : s.waiting.erase core = ∅ <;> simp [empty, State.complete]

theorem Sound.leave (here : core ∈ s.waiting) (more : s.waiting.erase core ≠ ∅)
    {err : Option CcErrorCode} {failed : Bool} (kept : failed = true → err ≠ none) :
    Sound i
      { s with
        unfinishedCoreCnt := .ofNat (s.waiting.erase core).card
        err := err
        failed := failed
        waiting := s.waiting.erase core
        responding := false } := by
  have fewer := Finset.card_erase_le (s := s.waiting) (a := core)
  refine h.goOn (done_of_waiting here) ?_ rfl rfl rfl rfl ?_ nofun (fun unpinned => ?_) kept
  · simp [State.done, more]
  · exact (Finset.erase_subset _ _).trans h.cores
  · exact fewer.trans (h.first unpinned)

theorem Sound.returnError (here : core ∈ s.waiting)
    (some_ : s.pinned = false ∨ s.waiting.erase core ≠ ∅) (err : CcErrorCode) :
    Sound i (returnError s core err) := by
  unfold ScanSliceCc.returnError
  rw [h.setError_eq here err]
  by_cases last : s.waiting.erase core = ∅
  · have unpinned := some_.resolve_right (not_not_intro last)
    simp only [last, decide_true, if_true]
    refine h.complete (done_of_waiting here) (some err) rfl rfl ?_ last rfl fun _ => nofun
    simp [State.leave, State.recycle, unpinned]
  · simp only [last, decide_false, if_false]
    exact h.leave here last fun _ => nofun

theorem Sound.executeScan (here : core ∈ s.waiting) (pinned : s.pinned = true)
    (scan : ScanOutcome) : Sound i (executeScan i s core scan) := by
  have busy := done_of_waiting here
  cases scan with
  | stays => exact h
  | error err =>
    simp only [ScanSliceCc.executeScan, h.setError_eq here err]
    by_cases last : s.waiting.erase core = ∅
    · simp only [last, decide_true, if_true]
      refine h.complete busy (some err) rfl rfl ?_ last rfl fun _ => nofun
      simp [State.leave, State.recycle, State.unpinSlices, pinned]
    · simp only [last, decide_false, if_false]
      exact h.leave here last fun _ => nofun
  | finished =>
    simp only [ScanSliceCc.executeScan, h.setFinish_eq here]
    by_cases last : s.waiting.erase core = ∅
    · simp only [last, decide_true, true_and]
      have failed := h.failed busy
      split
      · refine h.complete busy s.err rfl rfl ?_ last rfl failed
        simp [State.leave, State.recycle, State.unpinSlices, pinned]
      · split
        · refine h.complete busy s.err rfl rfl ?_ last rfl failed
          simp [State.leave, State.recycle, State.unpinSlices, State.sendResponseIfFinished,
            State.complete, pinned]
        · refine h.goOn busy ?_ rfl rfl rfl ?_ ?_ (fun _ => ⟨last, pinned⟩) ?_ failed
          · simp [State.done]
          · simp [State.leave, last]
          · simp [State.leave, last]
          · simp [State.leave, last]
    · simp only [last, decide_false, false_and, if_false]
      exact h.leave here last (h.failed busy)

/-- The slices are pinned and every core gets the request. -/
theorem Sound.dispatch (here : core ∈ s.waiting) :
    Sound i
      { s with
        pinned := true
        unfinishedCoreCnt := .ofNat i.coreCnt
        waiting := Finset.range i.coreCnt } := by
  have quiet : s.responding = false := by
    cases responding : s.responding with
    | false => rfl
    | true =>
      rw [(h.responding responding).1] at here
      cases here
  refine h.goOn (done_of_waiting here) ?_ rfl rfl rfl ?_ subset_rfl ?_ nofun
    (h.failed (done_of_waiting here))
  · simp [State.done, Nat.ne_of_gt i.cores.1]
  · simp
  · simp [quiet]

theorem Sound.sendResponse (core : Nat) (waiting : s.waiting = ∅) (responding : s.responding = true) :
    Sound i ((s.sendResponseIfFinished.2.leave core).unpinSlices.recycle) := by
  have busy : s.done = false := by simp [State.done, responding]
  have zero : s.unfinishedCoreCnt = 0 := by simp [h.count busy, waiting]
  have pinned := (h.responding responding).2
  simp only [State.sendResponseIfFinished, zero, BEq.rfl, if_true]
  refine h.complete busy s.err rfl rfl ?_ ?_ rfl (h.failed busy)
  · simp [State.leave, State.recycle, State.unpinSlices, State.complete, pinned]
  · simp [State.leave, State.recycle, State.unpinSlices, State.complete, waiting]

/-- A core that has to report when no slice is pinned is the only one. -/
theorem Sound.alone (here : core ∈ s.waiting) (unpinned : s.pinned = false) :
    s.waiting.erase core = ∅ := by
  have one := h.first unpinned
  rw [← Finset.card_eq_zero, Finset.card_erase_of_mem here]
  omega

end

variable {f : Found}

section
variable (h : Sound i s) (here : core ∈ s.waiting)
include h here

theorem Sound.executeMap (leads : f.leader = false → s.pinned = false ∨ s.waiting.erase core ≠ ∅)
    (schema : f.leader = true → f.schemaMatches = false → s.pinned = false) :
    Sound i (executeMap i s core f) := by
  have some_ : (s.unfinishedCoreCnt == 0) = false := by
    have pos := Finset.card_pos.mpr ⟨core, here⟩
    rw [beq_eq_false_iff_ne, ne_eq, ← UInt16.toNat_inj, h.toNat_count (done_of_waiting here),
      UInt16.toNat_zero]
    omega
  unfold ScanSliceCc.executeMap
  split
  · rename_i lost
    exact h.returnError here (leads lost) _
  · rename_i leader
    split
    · rename_i mismatch
      have unpinned := schema (by simpa using leader) mismatch
      have last := h.alone here unpinned
      simp only [h.setError_eq here, last, if_true]
      refine h.complete (done_of_waiting here) (some .requestedTableSchemaMismatch) rfl rfl ?_ last rfl
        fun _ => nofun
      simp [State.leave, State.recycle, unpinned]
    · simp only [State.sendResponseIfFinished, some_, Bool.false_eq_true, if_false]
      split
      · rename_i pinned
        exact h.executeScan here pinned _
      · rename_i unpinned
        cases f.pin with
        | again => exact h
        | failed err => exact h.returnError here (.inl (by simpa using unpinned)) err
        | successful => exact (h.dispatch here).executeScan (h.cores here) rfl _

theorem Sound.abort (err : CcErrorCode) :
    Sound i (abortCcRequest s core err) := by
  unfold abortCcRequest
  rw [h.setError_eq here err]
  by_cases last : s.waiting.erase core = ∅
  · simp only [last, decide_true, if_true]
    refine h.complete (done_of_waiting here) (some err) ?_ ?_ ?_ ?_ ?_ ?_
    all_goals cases pinned : s.pinned <;>
      simp [State.leave, State.recycle, State.unpinSlices, last]
  · simp only [last, decide_false, if_false]
    exact h.leave here last fun _ => nofun

/-- The count leaves the leadership to be lost by a core that is not the last. -/
theorem Sound.others_of_count (two : 2 ≤ s.unfinishedCoreCnt) :
    s.waiting.erase core ≠ ∅ := by
  intro last
  rw [(h.last_iff here).mpr last] at two
  exact absurd two (by decide)

theorem Sound.execute_waiting (allowed : Allowed s (.execute core f)) :
    Sound i (execute i s core f) := by
  simp only [Allowed] at allowed
  have others : s.pinned = false ∨ 2 ≤ s.unfinishedCoreCnt →
      s.pinned = false ∨ s.waiting.erase core ≠ ∅ := Or.imp_right (h.others_of_count here)
  unfold ScanSliceCc.execute
  split
  · rename_i lost
    rw [if_pos (.inl lost)] at allowed
    exact h.returnError here (others allowed) _
  · rename_i valid
    cases table : f.table with
    | fetching => exact h
    | dropped =>
      rw [if_neg (by simp [valid, table])] at allowed
      have unpinned := allowed (.inl table)
      refine h.complete (done_of_waiting here) (some .requestedTableNotExists) rfl rfl ?_
        (h.alone here unpinned) rfl fun _ => nofun
      simp [State.leave, State.recycle, State.complete, unpinned]
    | present =>
      refine h.executeMap here (fun lost => ?_) fun leader mismatch => ?_
      · rw [if_pos (.inr ⟨table, lost⟩)] at allowed
        exact others allowed
      · rw [if_neg (by simp [valid, table, leader])] at allowed
        exact allowed (.inr ⟨table, mismatch⟩)

end

theorem Sound.execute_responding (h : Sound i s) (responding : s.responding = true)
    (allowed : Allowed s (.execute core f)) : Sound i (execute i s core f) := by
  have busy : s.done = false := by simp [State.done, responding]
  obtain ⟨waiting, pinned⟩ := h.responding responding
  have zero : s.unfinishedCoreCnt = 0 := by simp [h.count busy, waiting]
  simp only [Allowed, pinned, zero] at allowed
  split at allowed
  · exact absurd allowed (by decide)
  · rename_i leads
    have valid : ¬ f.validTerm = false := fun lost => leads (.inl lost)
    rw [ScanSliceCc.execute, if_neg valid]
    cases table : f.table with
    | fetching => exact h
    | dropped => cases allowed (.inl table)
    | present =>
      have leader : ¬ f.leader = false := fun lost => leads (.inr ⟨table, lost⟩)
      have schema : ¬ f.schemaMatches = false := fun mismatch => nomatch allowed (.inr ⟨table, mismatch⟩)
      have response := h.sendResponse core waiting responding
      simp only [ScanSliceCc.executeMap, if_neg leader, if_neg schema, State.sendResponseIfFinished,
        zero, BEq.rfl, if_true] at response ⊢
      exact response

theorem Sound.step (h : Sound i s) {a : Action} (taken : step i s a = some s') (allowed : Allowed s a) :
    Sound i s' := by
  cases a with
  | execute core f =>
    simp only [ScanSliceCc.step, Option.ite_none_right_eq_some, Option.some.injEq] at taken
    obtain ⟨here | ⟨responding, -⟩, rfl⟩ := taken
    · exact h.execute_waiting here allowed
    · exact h.execute_responding responding allowed
  | abort core err =>
    simp only [ScanSliceCc.step, Option.ite_none_right_eq_some, Option.some.injEq] at taken
    obtain ⟨here, rfl⟩ := taken
    exact h.abort here err

/-- In every run whose steps are all allowed the scan is completed once, by the last core. -/
theorem slice_scan_completed_once (i : Input) (core : Nat) (inside : core < i.coreCnt) (s : State)
    (reached : Reachable (· = start core) (fun s a s' => step i s a = some s' ∧ Allowed s a) s) :
    CompletedOnce s := by
  have sound : Sound i s := by
    refine reached.invariant ?_ ?_
    · rintro _ rfl
      exact .start i inside
    · rintro s a s' ⟨taken, allowed⟩ h
      exact h.step taken allowed
  exact sound.toCompletedOnce

/-- A local scan on two cores. -/
def twoCores : Input := ⟨2, true, 0, by decide⟩

def scans (scan : ScanOutcome) : Found := ⟨true, .present, true, true, .successful, scan⟩

/-- The first core is blocked by a lock, the second is not the leader any more, and the first is
aborted from the lock queue. -/
theorem slice_scan_completed_once_aborted :
    ∃ s, Reachable (· = start 0) (fun s a s' => step twoCores s a = some s' ∧ Allowed s a) s ∧
      s.results = [some .aborted] ∧ s.recycled = 1 ∧ s.unpins = 1 ∧ CompletedOnce s := by
  have blocked : Reachable (· = start 0) (fun s a s' => step twoCores s a = some s' ∧ Allowed s a)
      (execute twoCores (start 0) 0 (scans .stays)) :=
    Reachable.next (a := .execute 0 (scans .stays)) (.start rfl) ⟨rfl, by simp [Allowed, scans]⟩
  have lost := blocked.next (a := .execute 1 { scans .stays with validTerm := false })
    ⟨rfl, by simp only [Allowed]; exact .inr (by decide)⟩
  have aborted := lost.next (a := Action.abort 0 .aborted) ⟨rfl, trivial⟩
  exact ⟨_, aborted, rfl, rfl, rfl, slice_scan_completed_once twoCores 0 (by decide) _ aborted⟩

/-- With the first core blocked by a lock, a core that finds the table dropped completes the result
and hands the request back; one that finds another schema version hands it back too, and so does the
first core at its end. -/
theorem slice_scan_ended_too_early :
    (∃ s, [.execute 0 (scans .stays), .execute 1 { scans .stays with table := .dropped }].foldlM
        (step twoCores) (start 0) = some s ∧
      s.results = [some .requestedTableNotExists] ∧ 0 ∈ s.waiting ∧ s.recycled = 1 ∧ ¬ CompletedOnce s) ∧
    ∃ s, [.execute 0 (scans .stays), .execute 1 { scans .stays with schemaMatches := false },
        .execute 0 (scans .finished)].foldlM (step twoCores) (start 0) = some s ∧
      s.recycled = 2 ∧ ¬ CompletedOnce s := by
  refine ⟨⟨_, rfl, rfl, by decide, rfl, fun h => ?_⟩, _, rfl, rfl, fun h => ?_⟩
  · exact absurd h.recycled (by decide)
  · exact absurd h.recycled (by decide)

end TxService.ScanSliceCc
