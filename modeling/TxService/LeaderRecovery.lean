import Mathlib.Data.Finset.Card
import TxService.Transition

/-!
# Recovery of the leader of a node group

`OnLeaderStart` of `CcNode` reads the two terms before it takes the lock of the recovery, so the
report of a log group may come in between.
-/

namespace TxService

open Transition

/-- Where the call is that holds `is_processing_`. -/
inductive Processing
  | idle
  | checkCandidate (term : Int)
  | checkLeader (term : Int)
  | preparing (term : Int)
  | candidate (term : Int)
  | stopping
  | stopped
  deriving DecidableEq, Repr

/-- Terms below zero mean no leader and no candidate. The last term that the node has been
a candidate of is kept beside. -/
structure CcNode where
  ngId : Nat
  nodeId : Nat
  logGroupCnt : Nat
  processing : Processing := .idle
  leaderTerm : Int := -1
  candidateTerm : Int := -1
  recoveredLogGroups : Finset Nat := ∅
  lastCkptTs : Nat := 0
  nextTxIdent : List Nat
  lastTerm : Int := -1

namespace CcNode

def updateCkptTs (w : CcNode) (newCkptTs : Nat) : CcNode :=
  { w with lastCkptTs := if w.lastCkptTs < newCkptTs then newCkptTs else w.lastCkptTs }

/-- `LocalCcShards::SetTxIdent` on the shards. -/
def setTxIdent (w : CcNode) (latestCommittedTxNo : Nat) : CcNode :=
  let next := (latestCommittedTxNo + 1) % 4294967296
  { w with nextTxIdent := w.nextTxIdent.map fun ident => if ident < next then next else ident }

def finishLogGroupReplay (w : CcNode) (logGroupId : Nat) (ngTerm : Int)
    (latestCommittedTxnNo lastCkptTs : Nat) : CcNode :=
  if w.candidateTerm < 0 ∨ ngTerm < w.candidateTerm then w
  else
    let w := w.updateCkptTs lastCkptTs
    let w := if w.ngId = w.nodeId then w.setTxIdent latestCommittedTxnNo else w
    let recovered := insert logGroupId w.recoveredLogGroups
    if logGroupId ∉ w.recoveredLogGroups ∧ recovered.card = w.logGroupCnt then
      { w with recoveredLogGroups := ∅, leaderTerm := w.candidateTerm, candidateTerm := -1 }
    else { w with recoveredLogGroups := recovered }

inductive Action
  | onLeaderStart (term : Int)
  | readCandidate
  | readLeader
  | refuse
  | becomeCandidate (term : Int)
  | endStart
  | onLeaderStop (term : Int)
  | stepDown
  | endStop
  | finishLogGroupReplay (logGroupId : Nat) (ngTerm : Int) (latestCommittedTxnNo lastCkptTs : Nat)
  deriving DecidableEq, Repr

/-- A call that finds another one processing does nothing. A standby that is not in sync, or
the store, may refuse to start. -/
def step (skipWal : Bool) (w : CcNode) : Action → Option CcNode
  | .onLeaderStart term =>
    if w.processing = .idle then some { w with processing := .checkCandidate term } else some w
  | .readCandidate =>
    match w.processing with
    | .checkCandidate term =>
      if term ≤ w.candidateTerm then some { w with processing := .idle }
      else some { w with processing := .checkLeader term }
    | _ => none
  | .readLeader =>
    match w.processing with
    | .checkLeader term =>
      if term ≤ w.leaderTerm then some { w with processing := .idle }
      else some { w with processing := .preparing term }
    | _ => none
  | .refuse =>
    match w.processing with
    | .preparing _ => some { w with processing := .idle }
    | _ => none
  | .becomeCandidate term =>
    if w.processing = .preparing term then
      some
        { w with
          candidateTerm := term, recoveredLogGroups := ∅, lastTerm := term
          processing := .candidate term }
    else none
  | .endStart =>
    match w.processing with
    | .candidate term =>
      if skipWal then some { w with leaderTerm := term, candidateTerm := -1, processing := .idle }
      else some { w with processing := .idle }
    | _ => none
  | .onLeaderStop _ =>
    if w.processing = .idle then some { w with processing := .stopping } else some w
  | .stepDown =>
    if w.processing = .stopping then
      some { w with leaderTerm := -1, candidateTerm := -1, processing := .stopped }
    else none
  | .endStop => if w.processing = .stopped then some { w with processing := .idle } else none
  | .finishLogGroupReplay logGroupId ngTerm latestCommittedTxnNo lastCkptTs =>
    some (w.finishLogGroupReplay logGroupId ngTerm latestCommittedTxnNo lastCkptTs)

/-- The election starts increasing terms, or the one of the node again. A log group reports
only terms that the node has become a candidate of. -/
def Expected (w : CcNode) : Action → Prop
  | .onLeaderStart term => w.lastTerm < term ∨ term ≤ w.candidateTerm ∨ term ≤ w.leaderTerm
  | .finishLogGroupReplay _ ngTerm _ _ => ngTerm ≤ w.lastTerm
  | _ => True

instance (w : CcNode) : DecidablePred (Expected w)
  | .onLeaderStart term =>
    inferInstanceAs (Decidable (w.lastTerm < term ∨ term ≤ w.candidateTerm ∨ term ≤ w.leaderTerm))
  | .finishLogGroupReplay _ ngTerm _ _ => inferInstanceAs (Decidable (ngTerm ≤ w.lastTerm))
  | .readCandidate | .readLeader | .refuse | .becomeCandidate _ | .endStart | .onLeaderStop _
  | .stepDown | .endStop => inferInstanceAs (Decidable True)

/-- A step with the log enabled. -/
def Step (w : CcNode) (action : Action) (w' : CcNode) : Prop :=
  Expected w action ∧ step false w action = some w'

def initial (ngId nodeId logGroupCnt : Nat) (nextTxIdent : List Nat) : CcNode :=
  { ngId, nodeId, logGroupCnt, nextTxIdent }

section
variable {w : CcNode} {logGroupId latestCommittedTxnNo lastCkptTs : Nat} {ngTerm : Int}

theorem finishLogGroupReplay_cases :
    let w' := w.finishLogGroupReplay logGroupId ngTerm latestCommittedTxnNo lastCkptTs
    w' = w ∨
      (0 ≤ w.candidateTerm ∧ w.candidateTerm ≤ ngTerm) ∧ w'.logGroupCnt = w.logGroupCnt ∧
        w'.lastTerm = w.lastTerm ∧ w'.processing = w.processing ∧
        (w'.leaderTerm = w.leaderTerm ∧ w'.candidateTerm = w.candidateTerm ∧
            w'.recoveredLogGroups = insert logGroupId w.recoveredLogGroups ∨
          w'.leaderTerm = w.candidateTerm ∧ w'.candidateTerm = -1 ∧
            (insert logGroupId w.recoveredLogGroups).card = w.logGroupCnt) := by
  intro w'
  by_cases ignored : w.candidateTerm < 0 ∨ ngTerm < w.candidateTerm
  · exact Or.inl (if_pos ignored)
  · refine Or.inr ⟨by omega, ?_⟩
    obtain ⟨ckptTs, ident, noted⟩ : ∃ ckptTs ident,
        (if (w.updateCkptTs lastCkptTs).ngId = (w.updateCkptTs lastCkptTs).nodeId then
            (w.updateCkptTs lastCkptTs).setTxIdent latestCommittedTxnNo
          else w.updateCkptTs lastCkptTs) =
          { w with lastCkptTs := ckptTs, nextTxIdent := ident } := by
      split
      · exact ⟨_, _, rfl⟩
      · exact ⟨_, _, rfl⟩
    simp only [w', finishLogGroupReplay, if_neg ignored, noted]
    split
    · rename_i last
      exact ⟨rfl, rfl, rfl, Or.inr ⟨rfl, rfl, last.2⟩⟩
    · exact ⟨rfl, rfl, rfl, Or.inl ⟨rfl, rfl, rfl⟩⟩

end

/-- The actions since the node became a candidate of the term, if it still is one. -/
def Since (term : Int) (as since : List Action) : Prop :=
  (∃ before, as = before ++ .becomeCandidate term :: since ∧
    ∀ earlier, .becomeCandidate earlier ∈ before → earlier < term) ∧
  .stepDown ∉ since ∧ ∀ other, .becomeCandidate other ∉ since

/-- The log group has reported the term. -/
def Reported (since : List Action) (term : Int) (logGroupId : Nat) : Prop :=
  ∃ latestCommittedTxnNo lastCkptTs,
    .finishLogGroupReplay logGroupId term latestCommittedTxnNo lastCkptTs ∈ since

def PhaseTracked (w : CcNode) : Prop :=
  match w.processing with
  | .checkCandidate term => w.lastTerm < term ∨ term ≤ w.candidateTerm ∨ term ≤ w.leaderTerm
  | .checkLeader term => w.lastTerm < term ∨ term ≤ w.leaderTerm
  | .preparing term => w.lastTerm < term
  | _ => True

/-- The log groups that are counted have reported the term of the candidacy. -/
structure Tracked (logGroupCnt : Nat) (as : List Action) (w : CcNode) : Prop where
  count : w.logGroupCnt = logGroupCnt
  terms : -1 ≤ w.lastTerm ∧ w.leaderTerm ≤ w.lastTerm
  last : ∀ term, .becomeCandidate term ∈ as → term ≤ w.lastTerm
  candidate : w.candidateTerm = -1 ∨
    (w.candidateTerm = w.lastTerm ∧ w.leaderTerm < w.candidateTerm) ∧
      ∃ since, Since w.candidateTerm as since ∧
        ∀ g ∈ w.recoveredLogGroups, Reported since w.candidateTerm g
  phase : PhaseTracked w

section
variable {logGroupCnt : Nat} {as since : List Action} {w w' : CcNode} {a : Action} {term : Int}

theorem Since.snoc (h : Since term as since) (stays : a ≠ .stepDown)
    (same : ∀ other, a ≠ .becomeCandidate other) : Since term (as ++ [a]) (since ++ [a]) := by
  obtain ⟨⟨before, rfl, earlier⟩, stayed, only⟩ := h
  refine ⟨⟨before, by simp, earlier⟩, ?_, ?_⟩
  · simpa [stayed] using Ne.symm stays
  · intro other
    simpa [only] using Ne.symm (same other)

theorem Reported.snoc {g : Nat} (h : Reported since term g) : Reported (since ++ [a]) term g := by
  obtain ⟨no, ts, mem⟩ := h
  exact ⟨no, ts, List.mem_append_left _ mem⟩

section
variable (h : Tracked logGroupCnt as w)
include h

theorem Tracked.with_processing {processing : Processing} (stays : a ≠ .stepDown)
    (same : ∀ other, a ≠ .becomeCandidate other)
    (phase : PhaseTracked { w with processing := processing }) :
    Tracked logGroupCnt (as ++ [a]) { w with processing := processing } := by
  refine ⟨h.count, h.terms, ?_, ?_, phase⟩
  · intro term mem
    rcases List.mem_append.mp mem with mem | mem
    · exact h.last term mem
    · exact absurd (List.mem_singleton.mp mem).symm (same term)
  · refine h.candidate.imp_right ?_
    rintro ⟨terms, since, candidacy, reported⟩
    exact ⟨terms, since ++ [a], candidacy.snoc stays same, fun g hg => (reported g hg).snoc⟩

theorem Tracked.becomeCandidate (here : w.processing = .preparing term) :
    Tracked logGroupCnt (as ++ [.becomeCandidate term])
      { w with
        candidateTerm := term, recoveredLogGroups := ∅, lastTerm := term
        processing := .candidate term } := by
  have later : w.lastTerm < term := by
    have phase := h.phase
    unfold PhaseTracked at phase
    rw [here] at phase
    exact phase
  obtain ⟨low, leader⟩ := h.terms
  refine ⟨h.count, by simp only; omega, ?_, Or.inr ⟨⟨rfl, by simp only; omega⟩, [], ?_, ?_⟩, trivial⟩
  · intro other mem
    rcases List.mem_append.mp mem with mem | mem
    · exact Int.le_trans (h.last other mem) (Int.le_of_lt later)
    · cases List.mem_singleton.mp mem
      exact Int.le_refl term
  · refine ⟨⟨as, rfl, fun earlier mem => Int.lt_of_le_of_lt (h.last earlier mem) later⟩, ?_, ?_⟩
    · exact List.not_mem_nil
    · exact fun _ => List.not_mem_nil
  · intro g mem
    cases mem

theorem Tracked.stepDown :
    Tracked logGroupCnt (as ++ [.stepDown])
      { w with leaderTerm := -1, candidateTerm := -1, processing := .stopped } := by
  refine ⟨h.count, ⟨h.terms.1, h.terms.1⟩, ?_, Or.inl rfl, trivial⟩
  intro term mem
  rcases List.mem_append.mp mem with mem | mem
  · exact h.last term mem
  · cases List.mem_singleton.mp mem

theorem Tracked.report (logGroupId no ts : Nat) {ngTerm : Int} (known : ngTerm ≤ w.lastTerm)
    (counts : 0 ≤ w.candidateTerm ∧ w.candidateTerm ≤ ngTerm) :
    ngTerm = w.candidateTerm ∧ (w.candidateTerm = w.lastTerm ∧ w.leaderTerm < w.candidateTerm) ∧
      ∃ since, Since w.candidateTerm as since ∧ ∀ g ∈ insert logGroupId w.recoveredLogGroups,
        Reported (since ++ [.finishLogGroupReplay logGroupId ngTerm no ts]) w.candidateTerm g := by
  rcases h.candidate with nobody | ⟨⟨last, leader⟩, since, candidacy, reported⟩
  · omega
  · obtain rfl : ngTerm = w.candidateTerm := by omega
    refine ⟨rfl, ⟨last, leader⟩, since, candidacy, fun g mem => ?_⟩
    rcases Finset.mem_insert.mp mem with rfl | mem
    · exact ⟨no, ts, List.mem_append_right _ List.mem_cons_self⟩
    · exact (reported g mem).snoc

theorem Tracked.finishLogGroupReplay {logGroupId no ts : Nat} {ngTerm : Int}
    (known : ngTerm ≤ w.lastTerm) :
    Tracked logGroupCnt (as ++ [.finishLogGroupReplay logGroupId ngTerm no ts])
      (w.finishLogGroupReplay logGroupId ngTerm no ts) := by
  rcases finishLogGroupReplay_cases with ignored | ⟨counts, count, lastTerm, processing, outcome⟩
  · rw [ignored]
    exact h.with_processing Action.noConfusion (fun _ => Action.noConfusion) h.phase
  · obtain ⟨rfl, terms, since, candidacy, reported⟩ := h.report logGroupId no ts known counts
    have phase := h.phase
    generalize w.finishLogGroupReplay logGroupId w.candidateTerm no ts = w' at *
    refine ⟨count.trans h.count, ?_, ?_, ?_, ?_⟩
    · have := h.terms
      omega
    · intro term mem
      rw [lastTerm]
      rcases List.mem_append.mp mem with mem | mem
      · exact h.last term mem
      · cases List.mem_singleton.mp mem
    · rcases outcome with ⟨sameLeader, sameCandidate, recovered⟩ | ⟨-, done, -⟩
      · rw [sameCandidate, sameLeader, lastTerm, recovered]
        refine Or.inr ⟨terms, _, candidacy.snoc ?_ ?_, reported⟩
        · exact Action.noConfusion
        · exact fun _ => Action.noConfusion
      · exact Or.inl done
    · unfold PhaseTracked at phase ⊢
      rw [processing, lastTerm]
      cases here : w.processing <;> simp only [here] at phase ⊢ <;> omega

theorem Tracked.step (step : Step w a w') :
    Tracked logGroupCnt (as ++ [a]) w' := by
  obtain ⟨expected, step⟩ := step
  have phase := h.phase
  unfold PhaseTracked at phase
  cases a with
  | onLeaderStart term =>
    simp only [CcNode.step] at step
    split at step <;> cases step
    · exact h.with_processing Action.noConfusion (fun _ => Action.noConfusion) expected
    · exact h.with_processing Action.noConfusion (fun _ => Action.noConfusion) h.phase
  | readCandidate | readLeader =>
    simp only [CcNode.step] at step
    split at step
    · rename_i term here
      rw [here] at phase
      split at step <;> cases step
      · exact h.with_processing Action.noConfusion (fun _ => Action.noConfusion) trivial
      · apply h.with_processing Action.noConfusion (fun _ => Action.noConfusion)
        simp only [PhaseTracked]
        simp only at phase
        omega
    · cases step
  | refuse =>
    simp only [CcNode.step] at step
    split at step <;> cases step
    exact h.with_processing Action.noConfusion (fun _ => Action.noConfusion) trivial
  | becomeCandidate term =>
    simp only [CcNode.step, Option.ite_none_right_eq_some, Option.some.injEq] at step
    obtain ⟨here, rfl⟩ := step
    exact h.becomeCandidate here
  | endStart =>
    simp only [CcNode.step] at step
    split at step <;> cases step
    exact h.with_processing Action.noConfusion (fun _ => Action.noConfusion) trivial
  | onLeaderStop term =>
    simp only [CcNode.step] at step
    split at step <;> cases step
    · exact h.with_processing Action.noConfusion (fun _ => Action.noConfusion) trivial
    · exact h.with_processing Action.noConfusion (fun _ => Action.noConfusion) h.phase
  | stepDown =>
    simp only [CcNode.step, Option.ite_none_right_eq_some, Option.some.injEq] at step
    obtain ⟨-, rfl⟩ := step
    exact h.stepDown
  | endStop =>
    simp only [CcNode.step, Option.ite_none_right_eq_some, Option.some.injEq] at step
    obtain ⟨-, rfl⟩ := step
    exact h.with_processing Action.noConfusion (fun _ => Action.noConfusion) trivial
  | finishLogGroupReplay logGroupId ngTerm no ts =>
    simp only [CcNode.step, Option.some.injEq] at step
    subst step
    exact h.finishLogGroupReplay expected

end

theorem tracked_initial (ngId nodeId logGroupCnt : Nat) (nextTxIdent : List Nat) :
    Tracked logGroupCnt [] (initial ngId nodeId logGroupCnt nextTxIdent) :=
  ⟨rfl, ⟨Int.le_refl _, Int.le_refl _⟩, fun _ mem => absurd mem List.not_mem_nil, Or.inl rfl, trivial⟩

theorem tracked_run {ngId nodeId : Nat} {nextTxIdent : List Nat}
    (run : Run Step (initial ngId nodeId logGroupCnt nextTxIdent) as w) : Tracked logGroupCnt as w :=
  run.history (tracked_initial ngId nodeId logGroupCnt nextTxIdent) fun _ _ _ _ step h => h.step step

/-- Only a report makes the node a leader, of the term that it is a candidate of. -/
theorem step_leads (step : step false w a = some w') (new : w'.leaderTerm ≠ w.leaderTerm)
    (leads : w'.leaderTerm ≠ -1) : ∃ logGroupId ngTerm no ts,
      a = .finishLogGroupReplay logGroupId ngTerm no ts ∧
        (0 ≤ w.candidateTerm ∧ w.candidateTerm ≤ ngTerm) ∧ w'.leaderTerm = w.candidateTerm ∧
        (insert logGroupId w.recoveredLogGroups).card = w.logGroupCnt := by
  cases a with
  | finishLogGroupReplay logGroupId ngTerm no ts =>
    simp only [CcNode.step, Option.some.injEq] at step
    subst step
    refine ⟨logGroupId, ngTerm, no, ts, rfl, ?_⟩
    rcases finishLogGroupReplay_cases with ignored | ⟨counts, -, -, -, ⟨same, -⟩ | ⟨leader, -, last⟩⟩
    · exact absurd (congrArg leaderTerm ignored) new
    · exact absurd same new
    · exact ⟨counts, leader, last⟩
  | stepDown =>
    simp only [CcNode.step, Option.ite_none_right_eq_some, Option.some.injEq] at step
    obtain ⟨-, rfl⟩ := step
    exact absurd rfl leads
  | onLeaderStart | readCandidate | readLeader | refuse | becomeCandidate | endStart | onLeaderStop
  | endStop =>
    refine absurd ?_ new
    simp only [CcNode.step, Bool.false_eq_true, if_false] at step
    repeat' split at step
    all_goals cases step <;> rfl

/-- The candidacy began after the node last stepped down. -/
theorem Since.after_stop (h : Since term as since) {before after : List Action}
    (stopped : as = before ++ .stepDown :: after) {earlier : Int}
    (mem : .becomeCandidate earlier ∈ before) : earlier < term := by
  obtain ⟨⟨front, rfl, older⟩, stayed, -⟩ := h
  rcases List.append_eq_append_iff.mp stopped with ⟨rest, -, split⟩ | ⟨rest, rfl, -⟩
  · cases rest with
    | nil => cases split
    | cons _ rest =>
      obtain ⟨-, rfl⟩ := List.cons.inj split
      exact absurd (List.mem_append_right _ List.mem_cons_self) stayed
  · exact older earlier (List.mem_append_left _ mem)

/-- In every run, the node becomes the leader of a term only by a report of that term, after
as many log groups as there are have reported it since the node became a candidate of the
term; and the term is later than any that the node had started before it last stepped
down. -/
theorem leads_after_recovery {ngId nodeId : Nat} {nextTxIdent : List Nat}
    (run : Run Step (initial ngId nodeId logGroupCnt nextTxIdent) as w) (step : Step w a w')
    (new : w'.leaderTerm ≠ w.leaderTerm) (leads : w'.leaderTerm ≠ -1) :
    (∃ since, Since w'.leaderTerm as since ∧ ∃ groups : Finset Nat, groups.card = logGroupCnt ∧
      ∀ g ∈ groups, Reported (since ++ [a]) w'.leaderTerm g) ∧
    (∃ g no ts, a = .finishLogGroupReplay g w'.leaderTerm no ts) ∧
    ∀ before after, as = before ++ .stepDown :: after →
      ∀ earlier, .becomeCandidate earlier ∈ before → earlier < w'.leaderTerm := by
  have h := tracked_run run
  obtain ⟨g, ngTerm, no, ts, rfl, counts, leader, complete⟩ := step_leads step.2 new leads
  obtain ⟨rfl, -, since, candidacy, reported⟩ := h.report g no ts step.1 counts
  rw [leader]
  refine ⟨⟨since, candidacy, _, complete.trans h.count, reported⟩, ⟨g, no, ts, rfl⟩, ?_⟩
  intro before after stopped earlier mem
  exact candidacy.after_stop stopped mem

end

/-- A term that is given up after the report of one log group, and a second one. -/
def secondTerm : List Action :=
  [.onLeaderStart 5, .readCandidate, .readLeader, .becomeCandidate 5, .endStart,
    .finishLogGroupReplay 0 5 10 20, .onLeaderStop 5, .stepDown, .endStop, .onLeaderStart 7,
    .readCandidate, .readLeader, .becomeCandidate 7, .finishLogGroupReplay 1 5 10 20,
    .finishLogGroupReplay 0 7 10 20, .endStart]

def secondCandidate : CcNode :=
  { ngId := 1, nodeId := 1, logGroupCnt := 2, candidateTerm := 7, recoveredLogGroups := {0}
    lastCkptTs := 20, nextTxIdent := [11], lastTerm := 7 }

/-- Both log groups have to report the second term. -/
theorem second_term_leads :
    ∃ w, Run Step (initial 1 1 2 [0]) secondTerm secondCandidate ∧
      Step secondCandidate (.finishLogGroupReplay 1 7 30 40) w ∧ w.leaderTerm = 7 ∧
      ∃ since, Since 7 secondTerm since ∧ ∃ groups : Finset Nat, groups.card = 2 ∧
        ∀ g ∈ groups, Reported (since ++ [.finishLogGroupReplay 1 7 30 40]) 7 g := by
  have run : Run Step (initial 1 1 2 [0]) secondTerm secondCandidate := by
    refine .cons ⟨?_, rfl⟩ <| .cons ⟨?_, rfl⟩ <| .cons ⟨?_, rfl⟩ <| .cons ⟨?_, rfl⟩ <|
      .cons ⟨?_, rfl⟩ <| .cons ⟨?_, rfl⟩ <| .cons ⟨?_, rfl⟩ <| .cons ⟨?_, rfl⟩ <|
      .cons ⟨?_, rfl⟩ <| .cons ⟨?_, rfl⟩ <| .cons ⟨?_, rfl⟩ <| .cons ⟨?_, rfl⟩ <|
      .cons ⟨?_, rfl⟩ <| .cons ⟨?_, rfl⟩ <| .cons ⟨?_, rfl⟩ <| .cons ⟨?_, rfl⟩ <| .nil _
    all_goals decide
  have step : Step secondCandidate (.finishLogGroupReplay 1 7 30 40)
      (secondCandidate.finishLogGroupReplay 1 7 30 40) := ⟨by decide, rfl⟩
  exact ⟨_, run, step, rfl, (leads_after_recovery run step (by decide) (by decide)).1⟩

end CcNode

end TxService
