import Mathlib.Algebra.Order.Ring.Int
import Mathlib.Data.List.Basic
import TxService.Transition

/-!
# Pins on the data of a node group

Threads pin the data of a node group under the term of its leader, of a candidate or of a standby,
while the election starts and stops leaders. The terms are read and written one by one.
-/

namespace TxService.NodePins

open Transition

universe u

structure Config where
  /-- The node group is the node's own. -/
  isNative : Bool
  /-- `txservice_skip_wal`. -/
  skipWal : Bool
  /-- The node has a data store of its own, which may refuse the leadership. -/
  ownStore : Bool

/-- Whose term a pin is taken under. -/
inductive PinKind
  | leader
  | standby
  deriving DecidableEq

/-- What `PinData` does next under the mutex: it reads the term, then that of the candidate, and
counts. -/
inductive PinStage
  | first
  | second
  | count
  deriving DecidableEq

/-- What the call that holds `is_processing_` does next; `prev` is the term of the standby that
`OnLeaderStart` has read. -/
inductive Processing
  | idle
  | checkCandidate (term : Int)
  | checkLeader (term : Int)
  | readStandby (term : Int)
  | readCandidateStandby (term prev : Int)
  | waitPins (term prev : Int)
  | dropStandby (term prev : Int)
  | dropCandidateStandby (term prev : Int)
  -- a candidate standby cannot become the leader
  | dropCandidate
  | clearCandidate
  | storeStart (term prev : Int)
  | setCandidate (term prev : Int)
  | askCache (term prev : Int)
  | clearCache (term : Int)
  | restore (term : Int)
  | resetCandidate
  -- `OnLeaderStop`
  | stopLeader
  | stopCandidate
  | stopWait
  | stopClear
  deriving DecidableEq

/-- Beside the count the threads that hold a pin, once for each. -/
structure CcNode (T : Type u) where
  leaderTerm : Int
  candidateLeaderTerm : Int
  standbyTerm : Int
  candidateStandbyTerm : Int
  pinningThreads : Nat
  held : List T
  /-- `pinning_threads_mux_`. -/
  mutex : Option (T × PinKind × PinStage)
  processing : Processing
  /-- The end of the replay has set the term of the leader and not yet reset the candidate's. -/
  replaying : Bool

inductive Action (T : Type u)
  | lockPin (t : T) (kind : PinKind)
  | pinStep
  | unpinData (t : T)
  | onLeaderStart (term : Int)
  | onLeaderStop
  /-- The next step of the call; `env` is what the data store answers, and whether the in-memory
  cache has a consistent timestamp. -/
  | process (env : Bool)
  | replayFinished
  | replayDone

/-- `PrimaryTermFromStandbyTerm`. -/
def primaryTermFromStandbyTerm (standbyTerm : Int) : Int := standbyTerm / 4294967296

/-- Without a write-ahead log the cache survives; otherwise it may have to be cleared. -/
def Config.mayClear (cfg : Config) (prev : Int) : Bool :=
  cfg.isNative && decide (0 < primaryTermFromStandbyTerm prev) && !cfg.skipWal

/-- The data is cleared, or the next step drops the term of the standby. -/
def Processing.pulls : Processing → Bool
  | .dropStandby _ _ => true
  | .clearCandidate => true
  | .clearCache _ => true
  | .stopClear => true
  | _ => false

/-- From here the data may be cleared, or the term of the standby is dropped, without another look
at the pins. -/
def Processing.exposed (cfg : Config) (kind : PinKind) : Processing → Bool
  | .dropStandby _ _ => true
  | .dropCandidateStandby _ prev => cfg.mayClear prev
  | .storeStart _ prev => cfg.mayClear prev
  | .setCandidate _ prev => cfg.mayClear prev
  | .askCache _ prev => cfg.mayClear prev
  | .clearCache _ => true
  | .dropCandidate => true
  | .clearCandidate => true
  | .stopClear => kind = .standby
  | _ => false

/-- `OnLeaderStop` has reset the term of the leader. -/
def Processing.stops : Processing → Bool
  | .stopCandidate => true
  | .stopWait => true
  | .stopClear => true
  | _ => false

theorem Processing.exposed_eq {cfg : Config} {p : Processing} (other : p ≠ .stopClear) (kind kind' : PinKind) :
    p.exposed cfg kind = p.exposed cfg kind' := by
  cases p with
  | stopClear => exact absurd rfl other
  | _ => rfl

namespace CcNode

section
variable {T : Type u} (s : CcNode T)

def term : PinKind → Int
  | .leader => s.leaderTerm
  | .standby => s.standbyTerm

def candidateTerm : PinKind → Int
  | .leader => s.candidateLeaderTerm
  | .standby => s.candidateStandbyTerm

/-- `PinData` and `StandbyPinData` under the mutex. -/
def pinStep : Option (CcNode T) :=
  match s.mutex with
  | none => none
  | some (t, kind, .first) =>
    some { s with mutex := some (t, kind, if 0 < s.term kind then .count else .second) }
  | some (t, kind, .second) =>
    some { s with mutex := if 0 < s.candidateTerm kind then some (t, kind, .count) else none }
  | some (t, _, .count) =>
    some { s with pinningThreads := s.pinningThreads + 1, held := t :: s.held, mutex := none }

def unpinData [DecidableEq T] (t : T) : Option (CcNode T) :=
  if s.mutex = none ∧ t ∈ s.held then
    some { s with
      pinningThreads := if 0 < s.pinningThreads then s.pinningThreads - 1 else s.pinningThreads
      held := s.held.erase t }
  else none

/-- The call has the lock of the recovery between two writes. -/
def recovering : Bool :=
  match s.processing with
  | .stopCandidate => true
  | .resetCandidate => true
  | _ => false

def goTo (p : Processing) : CcNode T := { s with processing := p }

/-- The next step of `OnLeaderStart` or `OnLeaderStop`. -/
def process (cfg : Config) (env : Bool) : Option (CcNode T) :=
  match s.processing with
  | .idle => none
  | .checkCandidate term =>
    some (s.goTo (if term ≤ s.candidateLeaderTerm then .idle else .checkLeader term))
  | .checkLeader term => some (s.goTo (if term ≤ s.leaderTerm then .idle else .readStandby term))
  | .readStandby term => some (s.goTo (.readCandidateStandby term s.standbyTerm))
  | .readCandidateStandby term prev =>
    if 0 < prev then some (s.goTo (.waitPins term prev))
    else if 0 < s.candidateStandbyTerm then if prev < 0 then some (s.goTo .dropCandidate) else none
    else some (s.goTo (.storeStart term prev))
  | .waitPins term prev =>
    if s.mutex.isNone ∧ s.pinningThreads = 0 then some (s.goTo (.dropStandby term prev)) else none
  | .dropStandby term prev =>
    some { s.goTo (.dropCandidateStandby term prev) with standbyTerm := -1 }
  | .dropCandidateStandby term prev =>
    some { s.goTo (.storeStart term prev) with candidateStandbyTerm := -1 }
  | .dropCandidate => some { s.goTo .clearCandidate with candidateStandbyTerm := -1 }
  | .clearCandidate => some (s.goTo .idle)
  | .storeStart term prev =>
    some (s.goTo (if cfg.ownStore && !env then .idle else .setCandidate term prev))
  | .setCandidate term prev =>
    if s.replaying then none
    else some { s.goTo (.askCache term prev) with candidateLeaderTerm := term }
  | .askCache term prev =>
    let cleared := cfg.isNative && decide (0 < primaryTermFromStandbyTerm prev) && !(cfg.skipWal || env)
    some (s.goTo (if cleared then .clearCache term else .restore term))
  | .clearCache term => some (s.goTo (.restore term))
  | .restore term =>
    if !cfg.skipWal then some (s.goTo .idle)
    else if s.replaying then none
    else some { s.goTo .resetCandidate with leaderTerm := term }
  | .resetCandidate => some { s.goTo .idle with candidateLeaderTerm := -1 }
  | .stopLeader => if s.replaying then none else some { s.goTo .stopCandidate with leaderTerm := -1 }
  | .stopCandidate => some { s.goTo .stopWait with candidateLeaderTerm := -1 }
  | .stopWait =>
    if s.mutex.isNone ∧ s.pinningThreads = 0 then some (s.goTo .stopClear) else none
  | .stopClear => some (s.goTo .idle)

/-- A call of the election that finds `is_processing_` set has no effect. -/
def call (p : Processing) : Option (CcNode T) := if s.processing = .idle then some (s.goTo p) else none

variable [DecidableEq T] (cfg : Config)

def step : Action T → Option (CcNode T)
  | .lockPin t kind => if s.mutex = none then some { s with mutex := some (t, kind, .first) } else none
  | .pinStep => s.pinStep
  | .unpinData t => s.unpinData t
  | .onLeaderStart term => s.call (.checkCandidate term)
  | .onLeaderStop => s.call .stopLeader
  | .process env => s.process cfg env
  | .replayFinished =>
    if s.replaying ∨ s.recovering ∨ s.candidateLeaderTerm < 0 then none
    else some { s with leaderTerm := s.candidateLeaderTerm, replaying := true }
  | .replayDone =>
    if s.replaying then some { s with candidateLeaderTerm := -1, replaying := false } else none

def Steps (s : CcNode T) (a : Action T) (t : CcNode T) : Prop := s.step cfg a = some t

/-- Any terms, and no pins. -/
structure Start (s : CcNode T) : Prop where
  pinningThreads : s.pinningThreads = 0
  held : s.held = []
  mutex : s.mutex = none
  processing : s.processing = .idle
  replaying : s.replaying = false

end

variable {T : Type u} {cfg : Config} {s t : CcNode T} {a : Action T}

/-- A pin is held while the data is cleared, or as the term of the standby is dropped. -/
def PulledAway (s : CcNode T) : Prop := s.processing.pulls = true ∧ s.held ≠ []

/-- No pin is taken where the election counts on there being none, and a candidate standby that is
to become the leader has no pins. -/
def Allowed (cfg : Config) (s : CcNode T) : Action T → Prop
  | .pinStep => ∀ t kind, s.mutex = some (t, kind, .count) → s.processing.exposed cfg kind = false
  | .process _ => ∀ term prev, s.processing = .readCandidateStandby term prev → prev ≤ 0 →
      0 < s.candidateStandbyTerm → s.held = []
  | _ => True

/-- The terms are reset and stay so while `OnLeaderStop` waits and clears. -/
structure Stopping (s : CcNode T) : Prop where
  leader : s.leaderTerm < 0
  candidate : s.processing ≠ .stopCandidate → s.candidateLeaderTerm < 0
  replaying : s.replaying = false

theorem Stopping.same (h : Stopping s) (processing : t.processing = s.processing)
    (leader : t.leaderTerm = s.leaderTerm) (candidate : t.candidateLeaderTerm = s.candidateLeaderTerm)
    (replaying : t.replaying = s.replaying) : Stopping t := by
  obtain ⟨reset, reset', quiet⟩ := h
  exact ⟨leader ▸ reset, fun other => candidate ▸ reset' (processing ▸ other), replaying.trans quiet⟩

structure Sound (cfg : Config) (s : CcNode T) : Prop where
  counted : s.pinningThreads = s.held.length
  exposed : ∀ kind, s.processing.exposed cfg kind = true → s.held = []
  stopping : s.processing.stops = true → Stopping s
  unread : s.processing = .stopClear → ∀ t, s.mutex ≠ some (t, .leader, .count)

theorem Start.sound (h : Start s) : Sound cfg s where
  counted := by rw [h.pinningThreads, h.held]; rfl
  exposed _ _ := h.held
  stopping stop := by simp [h.processing, Processing.stops] at stop
  unread stop := by simp [h.processing] at stop

/-- Where no pins are counted on, only a leader's pin on its way may be in the way. -/
theorem Sound.exposed_other (h : Sound cfg s) {t : T} {kind : PinKind}
    (here : s.mutex = some (t, kind, .count)) (safe : s.processing.exposed cfg kind = false)
    (kind' : PinKind) : s.processing.exposed cfg kind' = false := by
  by_cases stop : s.processing = .stopClear
  · cases kind with
    | leader => exact absurd here (h.unread stop t)
    | standby => simp [stop, Processing.exposed] at safe
  · rw [Processing.exposed_eq stop kind' kind, safe]

theorem Sound.pinStep (h : Sound cfg s) (allowed : Allowed cfg s .pinStep) (stepped : s.pinStep = some t) :
    Sound cfg t := by
  unfold CcNode.pinStep at stepped
  split at stepped
  · cases stepped
  · cases stepped
    refine ⟨h.counted, h.exposed, fun stop => (h.stopping stop).same rfl rfl rfl rfl, ?_⟩
    intro stop t' at_
    have reset := (h.stopping (by rw [show s.processing = .stopClear from stop]; rfl)).leader
    simp only [Option.some.injEq, Prod.mk.injEq] at at_
    obtain ⟨-, rfl, at_⟩ := at_
    rw [if_neg (by simp only [term]; omega)] at at_
    cases at_
  · cases stepped
    refine ⟨h.counted, h.exposed, fun stop => (h.stopping stop).same rfl rfl rfl rfl, ?_⟩
    intro stop t' at_
    have stop : s.processing = .stopClear := stop
    have reset := (h.stopping (by rw [stop]; rfl)).candidate (by rw [stop]; nofun)
    obtain ⟨pos, at_⟩ := Option.ite_none_right_eq_some.mp at_
    cases at_
    simp only [candidateTerm] at pos
    omega
  · rename_i thread kind here
    cases stepped
    have safe := h.exposed_other here (allowed thread kind here)
    refine ⟨by simp [h.counted], fun kind' exposed => ?_,
      fun stop => (h.stopping stop).same rfl rfl rfl rfl, nofun⟩
    exact absurd exposed (by simp [safe kind'])

theorem Sound.onward (h : Sound cfg s) (pins : t.pinningThreads = s.pinningThreads) (held : t.held = s.held)
    (exposed : ∀ kind, t.processing.exposed cfg kind = true → s.held = [])
    (start : t.processing.stops = false) : Sound cfg t where
  counted := by rw [pins, held, h.counted]
  exposed kind here := held.trans (exposed kind here)
  stopping stop := by simp [start] at stop
  unread stop := by simp [stop, Processing.stops] at start

theorem Sound.no_pins (h : Sound cfg s) (none_ : s.pinningThreads = 0) : s.held = [] :=
  List.eq_nil_of_length_eq_zero (h.counted.symm.trans none_)

theorem mayClear_of_nonpos {prev : Int} (cfg : Config) (none_ : prev ≤ 0) : cfg.mayClear prev = false := by
  have : ¬ 0 < primaryTermFromStandbyTerm prev := by
    simp only [primaryTermFromStandbyTerm]
    omega
  simp [Config.mayClear, this]

theorem Sound.process (h : Sound cfg s) {env : Bool} (allowed : Allowed cfg s (.process env))
    (stepped : s.process cfg env = some t) : Sound cfg t := by
  have exposed := h.exposed .standby
  cases at_ : s.processing <;> rw [at_] at exposed <;> simp only [CcNode.process, at_] at stepped
  case idle => cases stepped
  case checkCandidate term =>
    cases stepped
    by_cases known : term ≤ s.candidateLeaderTerm
    · exact h.onward rfl rfl (by simp [goTo, known, Processing.exposed]) (by simp [goTo, known, Processing.stops])
    · exact h.onward rfl rfl (by simp [goTo, known, Processing.exposed]) (by simp [goTo, known, Processing.stops])
  case checkLeader term =>
    cases stepped
    by_cases known : term ≤ s.leaderTerm
    · exact h.onward rfl rfl (by simp [goTo, known, Processing.exposed]) (by simp [goTo, known, Processing.stops])
    · exact h.onward rfl rfl (by simp [goTo, known, Processing.exposed]) (by simp [goTo, known, Processing.stops])
  case readStandby term =>
    cases stepped
    exact h.onward rfl rfl nofun rfl
  case readCandidateStandby term prev =>
    split at stepped
    · cases stepped
      exact h.onward rfl rfl nofun rfl
    rename_i nonpos
    have nonpos := Int.not_lt.mp nonpos
    split at stepped
    · rename_i candidate
      obtain ⟨-, ⟨⟩⟩ := Option.ite_none_right_eq_some.mp stepped
      exact h.onward rfl rfl (fun _ _ => allowed term prev at_ nonpos candidate) rfl
    · cases stepped
      refine h.onward rfl rfl (fun _ exposed => ?_) rfl
      exact absurd exposed (by simp [goTo, Processing.exposed, mayClear_of_nonpos cfg nonpos])
  case waitPins term prev =>
    obtain ⟨⟨-, none_⟩, ⟨⟩⟩ := Option.ite_none_right_eq_some.mp stepped
    exact h.onward rfl rfl (fun _ _ => h.no_pins none_) rfl
  case dropStandby term prev =>
    cases stepped
    exact h.onward rfl rfl (fun _ _ => exposed rfl) rfl
  case dropCandidateStandby term prev =>
    cases stepped
    exact h.onward rfl rfl (fun _ mayClear => exposed mayClear) rfl
  case dropCandidate =>
    cases stepped
    exact h.onward rfl rfl (fun _ _ => exposed rfl) rfl
  case clearCandidate =>
    cases stepped
    exact h.onward rfl rfl nofun rfl
  case storeStart term prev =>
    cases stepped
    by_cases refused : (cfg.ownStore && !env) = true
    · rw [if_pos refused]
      exact h.onward rfl rfl nofun rfl
    · rw [if_neg refused]
      exact h.onward rfl rfl (fun _ mayClear => exposed mayClear) rfl
  case setCandidate term prev =>
    split at stepped
    · cases stepped
    · cases stepped
      exact h.onward rfl rfl (fun _ mayClear => exposed mayClear) rfl
  case askCache term prev =>
    cases stepped
    split
    · rename_i cleared
      refine h.onward rfl rfl (fun _ _ => exposed ?_) rfl
      simp only [Bool.and_eq_true, Bool.not_eq_true', Bool.or_eq_false_iff] at cleared
      simp [Processing.exposed, Config.mayClear, cleared]
    · exact h.onward rfl rfl nofun rfl
  case clearCache term =>
    cases stepped
    exact h.onward rfl rfl nofun rfl
  case restore term =>
    split at stepped
    · cases stepped
      exact h.onward rfl rfl nofun rfl
    · split at stepped
      · cases stepped
      · cases stepped
        exact h.onward rfl rfl nofun rfl
  case resetCandidate =>
    cases stepped
    exact h.onward rfl rfl nofun rfl
  case stopLeader =>
    split at stepped
    · cases stepped
    · rename_i quiet
      cases stepped
      exact ⟨h.counted, nofun, fun _ => ⟨neg_one_lt_zero, fun other => absurd rfl other, eq_false_of_ne_true quiet⟩, nofun⟩
  case stopCandidate =>
    cases stepped
    have stop := h.stopping (by rw [at_]; rfl)
    exact ⟨h.counted, nofun, fun _ => ⟨stop.leader, fun _ => neg_one_lt_zero, stop.replaying⟩, nofun⟩
  case stopWait =>
    obtain ⟨⟨unlocked, none_⟩, ⟨⟩⟩ := Option.ite_none_right_eq_some.mp stepped
    have stop := h.stopping (by rw [at_]; rfl)
    have reset := stop.candidate (by rw [at_]; nofun)
    refine ⟨h.counted, fun _ _ => h.no_pins none_, fun _ => ⟨stop.leader, fun _ => reset, stop.replaying⟩,
      fun _ t locked => ?_⟩
    simp [show s.mutex = _ from locked] at unlocked
  case stopClear =>
    cases stepped
    exact h.onward rfl rfl nofun rfl

variable [DecidableEq T]

theorem Sound.step (h : Sound cfg s) (allowed : Allowed cfg s a) (stepped : s.step cfg a = some t) :
    Sound cfg t := by
  cases a with
  | lockPin t' kind =>
    obtain ⟨-, ⟨⟩⟩ := Option.ite_none_right_eq_some.mp stepped
    refine ⟨h.counted, h.exposed, fun stop => (h.stopping stop).same rfl rfl rfl rfl, ?_⟩
    intro _ _ locked
    cases locked
  | pinStep => exact h.pinStep allowed stepped
  | unpinData t' =>
    obtain ⟨⟨unlocked, mem⟩, ⟨⟩⟩ := Option.ite_none_right_eq_some.mp stepped
    refine ⟨?_, fun kind exposed => ?_,
      fun stop => (h.stopping stop).same rfl rfl rfl rfl, fun stop => h.unread stop⟩
    · have pos := List.length_pos_of_mem mem
      simp only [h.counted, if_pos pos, List.length_erase_of_mem mem]
    · have none_ : s.held = [] := h.exposed kind exposed
      simp [none_] at mem
  | onLeaderStart term =>
    obtain ⟨-, ⟨⟩⟩ := Option.ite_none_right_eq_some.mp stepped
    exact h.onward rfl rfl nofun rfl
  | onLeaderStop =>
    obtain ⟨-, ⟨⟩⟩ := Option.ite_none_right_eq_some.mp stepped
    exact h.onward rfl rfl nofun rfl
  | process env => exact h.process allowed stepped
  | replayFinished =>
    obtain ⟨free, ⟨⟩⟩ := Option.ite_none_left_eq_some.mp stepped
    refine ⟨h.counted, h.exposed, fun stop => ?_, h.unread⟩
    simp only [not_or] at free
    have stop : s.processing.stops = true := stop
    by_cases mid : s.processing = .stopCandidate
    · exact absurd (by simp [recovering, mid]) free.2.1
    · exact absurd ((h.stopping stop).candidate mid) free.2.2
  | replayDone =>
    obtain ⟨mid, ⟨⟩⟩ := Option.ite_none_right_eq_some.mp stepped
    refine ⟨h.counted, h.exposed, fun stop => ⟨(h.stopping stop).leader, fun _ => neg_one_lt_zero, rfl⟩, h.unread⟩

/-- The call goes on by itself until the data is pulled away. -/
def Follows (cfg : Config) (s : CcNode T) : Prop :=
  ∃ acts u, Run (Steps cfg) s acts u ∧ (∀ a ∈ acts, a = .replayDone ∨ ∃ env, a = .process env) ∧ PulledAway u

theorem PulledAway.follows (h : PulledAway s) : Follows cfg s := ⟨[], s, .nil s, nofun, h⟩

theorem Follows.after (h : Follows cfg t) (a : Action T) (stepped : s.step cfg a = some t)
    (own : a = .replayDone ∨ ∃ env, a = .process env) : Follows cfg s := by
  obtain ⟨acts, u, run, owns, pulled⟩ := h
  exact ⟨a :: acts, u, .cons stepped run, List.forall_mem_cons.mpr ⟨own, owns⟩, pulled⟩

theorem Follows.process (h : Follows cfg t) (env : Bool) (stepped : s.process cfg env = some t) :
    Follows cfg s :=
  h.after (.process env) stepped (.inr ⟨env, rfl⟩)

section
variable {term prev : Int} (may : cfg.mayClear prev = true) (held : s.held ≠ [])
include may held

theorem follows_askCache (at_ : s.processing = .askCache term prev) : Follows cfg s := by
  have pulled : PulledAway (s.goTo (.clearCache term)) := ⟨rfl, held⟩
  refine pulled.follows.process false ?_
  simp only [CcNode.process, at_, Bool.or_false]
  rw [← Config.mayClear, if_pos may]

theorem follows_setCandidate (at_ : s.processing = .setCandidate term prev) : Follows cfg s := by
  have onward {s : CcNode T} (held : s.held ≠ []) (at_ : s.processing = .setCandidate term prev)
      (quiet : s.replaying = false) : Follows cfg s := by
    have asks : Follows cfg { s.goTo (.askCache term prev) with candidateLeaderTerm := term } :=
      follows_askCache may held rfl
    refine asks.process false ?_
    simp [CcNode.process, at_, quiet]
  cases replaying : s.replaying with
  | false => exact onward held at_ replaying
  | true =>
    have done : Follows cfg { s with candidateLeaderTerm := -1, replaying := false } := onward held at_ rfl
    exact done.after .replayDone (if_pos replaying) (.inl rfl)

theorem follows_storeStart (at_ : s.processing = .storeStart term prev) : Follows cfg s := by
  have sets : Follows cfg (s.goTo (.setCandidate term prev)) := follows_setCandidate may held rfl
  refine sets.process true ?_
  simp [CcNode.process, at_]

end

theorem follows_exposed (kind : PinKind) (exposed : s.processing.exposed cfg kind = true)
    (held : s.held ≠ []) : Follows cfg s := by
  cases at_ : s.processing <;> rw [at_] at exposed
  case dropStandby => exact PulledAway.follows ⟨by rw [at_]; rfl, held⟩
  case clearCache => exact PulledAway.follows ⟨by rw [at_]; rfl, held⟩
  case clearCandidate => exact PulledAway.follows ⟨by rw [at_]; rfl, held⟩
  case stopClear => exact PulledAway.follows ⟨by rw [at_]; rfl, held⟩
  case dropCandidate =>
    have pulled : PulledAway { s.goTo .clearCandidate with candidateStandbyTerm := -1 } := ⟨rfl, held⟩
    refine pulled.follows.process false ?_
    simp [CcNode.process, at_]
  case dropCandidateStandby term prev =>
    have starts : Follows cfg { s.goTo (.storeStart term prev) with candidateStandbyTerm := -1 } :=
      follows_storeStart exposed held rfl
    refine starts.process false ?_
    simp [CcNode.process, at_]
  case storeStart => exact follows_storeStart exposed held at_
  case setCandidate => exact follows_setCandidate exposed held at_
  case askCache => exact follows_askCache exposed held at_
  all_goals cases exposed

theorem follows_of_not_allowed (bad : ¬ Allowed cfg s a) (stepped : s.step cfg a = some t) :
    Follows cfg t := by
  cases a with
  | pinStep =>
    simp only [Allowed, not_forall, Bool.not_eq_false] at bad
    obtain ⟨thread, kind, here, exposed⟩ := bad
    have pinned : t = { s with
        pinningThreads := s.pinningThreads + 1, held := thread :: s.held, mutex := none } := by
      simpa [CcNode.step, CcNode.pinStep, here] using stepped.symm
    subst pinned
    exact follows_exposed kind exposed (List.cons_ne_nil _ _)
  | process env =>
    simp only [Allowed, not_forall] at bad
    obtain ⟨term, prev, at_, nonpos, candidate, held⟩ := bad
    have stepped : (if prev < 0 then some (s.goTo .dropCandidate) else none) = some t := by
      simpa [CcNode.step, CcNode.process, at_, Int.not_lt.mpr nonpos, candidate] using stepped
    obtain ⟨-, ⟨⟩⟩ := Option.ite_none_right_eq_some.mp stepped
    exact follows_exposed .leader rfl held
  | lockPin => exact absurd trivial bad
  | unpinData => exact absurd trivial bad
  | onLeaderStart => exact absurd trivial bad
  | onLeaderStop => exact absurd trivial bad
  | replayFinished => exact absurd trivial bad
  | replayDone => exact absurd trivial bad

/-- As long as all steps are allowed, no data and no term of a standby is pulled away from under a
pin; after a step that is not allowed the call pulls it away unless the pin is given back. -/
theorem pinned_data_stays_while_allowed
    (reached : Reachable Start (fun s a t => Allowed cfg s a ∧ Steps cfg s a t) s) :
    ¬ PulledAway s ∧ ∀ a t, Steps cfg s a t → ¬ Allowed cfg s a → Follows cfg t := by
  have sound : Sound cfg s :=
    reached.invariant (fun _ start => start.sound) fun _ _ _ step sound => sound.step step.1 step.2
  refine ⟨fun pulled => pulled.2 ?_, fun a t stepped bad => follows_of_not_allowed bad stepped⟩
  refine sound.exposed .standby ?_
  have pulls := pulled.1
  cases at_ : s.processing <;> simp_all [Processing.pulls, Processing.exposed]

/-- A node with its own node group, which has a write-ahead log. -/
def ownGroup : Config := ⟨true, false, false⟩

/-- No pins yet, with a standby term of the first primary term or a term of a candidate standby. -/
def unpinned (standbyTerm candidateStandbyTerm : Int) : CcNode Nat :=
  ⟨-1, -1, standbyTerm, candidateStandbyTerm, 0, [], none, .idle, false⟩

theorem start_unpinned (standbyTerm candidateStandbyTerm : Int) :
    Start (unpinned standbyTerm candidateStandbyTerm) := ⟨rfl, rfl, rfl, rfl, rfl⟩

/-- `OnLeaderStart` takes up the wait of a standby whose thread 7 has a pin. -/
theorem pinned_data_stays_while_allowed_waiting : ∃ s : CcNode Nat,
    s.processing = .waitPins 2 4294967297 ∧ s.held = [7] ∧
      ¬ PulledAway s ∧ ∀ a t, Steps ownGroup s a t → ¬ Allowed ownGroup s a → Follows ownGroup t := by
  have run : Run (fun s a t => Allowed ownGroup s a ∧ Steps ownGroup s a t) (unpinned 4294967297 (-1))
      [.lockPin 7 .standby, .pinStep, .pinStep, .onLeaderStart 2, .process true, .process true,
        .process true, .process true] _ :=
    .cons ⟨trivial, rfl⟩ (.cons ⟨nofun, rfl⟩ (.cons ⟨fun _ _ _ => rfl, rfl⟩ (.cons ⟨trivial, rfl⟩
      (.cons ⟨nofun, rfl⟩ (.cons ⟨nofun, rfl⟩ (.cons ⟨nofun, rfl⟩ (.cons ⟨?_, rfl⟩ (.nil _))))))))
  · exact ⟨_, rfl, rfl, pinned_data_stays_while_allowed ((Reachable.start (start_unpinned _ _)).run run)⟩
  · rintro term prev ⟨⟩ nonpos
    exact absurd nonpos (by decide)

/-- A pin of a standby after the wait, a pin of the candidate before the cache is cleared, and a pin
of a candidate standby: the term is dropped or the data is cleared under each. -/
theorem pinned_data_pulled_away :
    (∃ s : CcNode Nat, Reachable Start (Steps ownGroup) s ∧ s.held = [7] ∧
      s.processing = .dropStandby 2 4294967297) ∧
    (∃ s : CcNode Nat, Reachable Start (Steps ownGroup) s ∧ s.held = [7] ∧ s.processing = .clearCache 2) ∧
    ∃ s : CcNode Nat, Reachable Start (Steps ownGroup) s ∧ s.held = [7] ∧ s.processing = .clearCandidate := by
  have reached {s t : CcNode Nat} (start : Start s) (acts : List (Action Nat))
      (run : acts.foldlM (CcNode.step · ownGroup) s = some t) : Reachable Start (Steps ownGroup) t :=
    (Reachable.start start).run (Run.of_foldlM (CcNode.step · ownGroup) (fun _ _ _ stepped => stepped) run)
  refine ⟨⟨_, reached (start_unpinned 4294967297 (-1)) ([.onLeaderStart 2] ++
      List.replicate 5 (.process true) ++ [.lockPin 7 .standby, .pinStep, .pinStep]) rfl, rfl, rfl⟩,
    ⟨_, reached (start_unpinned 4294967297 (-1)) ([.onLeaderStart 2] ++ List.replicate 9 (.process true) ++
      [.lockPin 7 .leader, .pinStep, .pinStep, .pinStep, .process false]) rfl, rfl, rfl⟩,
    ⟨_, reached (start_unpinned (-1) 4294967297) ([.lockPin 7 .standby, .pinStep, .pinStep, .pinStep,
      .onLeaderStart 2] ++ List.replicate 5 (.process true)) rfl, rfl, rfl⟩⟩

end CcNode

end TxService.NodePins
