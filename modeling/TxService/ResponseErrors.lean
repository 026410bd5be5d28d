import TxService.HandlerWaits

/-!
# Errors of the participants of an operation

Local and remote requests complete one reference-counted `CcHandlerResult`; `OnReceiveCcMsg` has a
case for each type of response.
-/

namespace TxService.HandlerResult

open Transition

/-- The responses that are merged into a reference-counted result. -/
inductive ResponseType
  | validate
  | postprocess
  | reloadCache
  | analyzeTableAll
  | kickoutData
  | invalidateTableCache
  deriving DecidableEq

/-- `OnReceiveCcMsg` for a response of the operation that waits. `SetError` with `NO_ERROR` leaves
the error code as it is. -/
def onReceiveCcMsg (type : ResponseType) (errorCode : Option CcErrorCode) : Action :=
  let setRemoteError := Action.enterResponse true true errorCode
  let setRemoteFinished := Action.enterResponse true true none
  match type with
  | .validate => .enterResponse true false errorCode
  | .postprocess | .reloadCache | .analyzeTableAll | .invalidateTableCache =>
    if errorCode ≠ none then setRemoteError else setRemoteFinished
  | .kickoutData => if errorCode = none then setRemoteError else setRemoteFinished

/-- A participant with what it reports. The message to a remote node may fail to be sent. -/
inductive Participant
  | localRequest (errCode : Option CcErrorCode)
  | response (errorCode : Option CcErrorCode)
  | sendFailure
  deriving DecidableEq

namespace Participant

def outcome : Participant → Option CcErrorCode
  | localRequest errCode => errCode
  | response errorCode => errorCode
  | sendFailure => some .requestedNodeNotLeader

/-- How the report of the participant comes in. -/
def action (type : ResponseType) : Participant → Action
  | localRequest errCode => .startLocal errCode
  | response errorCode => onReceiveCcMsg type errorCode
  | sendFailure => .enterSendFailure

end Participant

/-- An operation with its participants, as many as the reference count can count. -/
structure Operation where
  type : ResponseType
  participants : List Participant
  fits : participants.length < 4294967296

/-- The result of an operation, the participants that have not reported and those that complete it,
in the order of the threads, and whether the wait was forced to fail. -/
structure Wait where
  world : World
  pending : List Participant
  arrived : List Participant
  forced : Bool
  deriving DecidableEq

inductive Event
  | arrive (k : Nat)
  | move (i : Nat)
  | timeout (a : Action)

/-- The steps of a transaction that times out. -/
def Action.timesOut : Action → Bool
  | loadStatus | casTimeout | forceError | unsetByTimeoutThread | forceErrorCode | forceLambda => true
  | _ => false

namespace Wait

/-- A report that comes during a timeout is rejected. -/
def step (type : ResponseType) (w : Wait) : Event → Option Wait
  | .arrive k => do
    let p ← w.pending[k]?
    let world ← w.world.step (p.action type)
    some { w with
      world := world
      pending := w.pending.eraseIdx k
      arrived := if world.threads.length = w.world.threads.length then w.arrived
        else w.arrived ++ [p] }
  | .move i => do
    let world ← w.world.step (.move i)
    some { w with world := world }
  | .timeout a =>
    if a.timesOut then do
      let world ← w.world.txStep a
      some { w with
        world := world
        forced := w.forced || (a = .forceError && world.tx = .forceErrorCode) }
    else none

end Wait

def Operation.start (op : Operation) : Wait where
  world :=
    { World.initial with
      result :=
        { isFinished := false
          resultStatus := 0
          errorCode := none
          refCnted := true
          refCnt := UInt32.ofNat op.participants.length
          remoteRefCnt :=
            UInt32.ofNat (op.participants.countP fun p => p matches .response _ | .sendFailure) }
      tx := .waiting
      expected := op.participants.length }
  pending := op.participants
  arrived := []
  forced := false

def Operation.Reached (op : Operation) : Wait → Prop :=
  Reachable (· = op.start) fun w e v => w.step op.type e = some v

/-- Once the result is finished, it has an error code exactly when a participant has reported an
error or the wait was forced to fail, and the code is one of those reported. -/
structure Merged (op : Operation) (w : Wait) : Prop where
  error : w.world.result.errorCode.isSome ↔
    (∃ p ∈ op.participants, p.outcome.isSome) ∨ w.forced = true
  code : ∀ c, w.world.result.errorCode = some c →
    (∃ p ∈ op.participants, p.outcome = some c) ∨ w.forced = true ∧ c = .forceFail

/-- A remote kickout has failed, and nothing else. -/
structure Lost (op : Operation) : Prop where
  kickout : op.type = .kickoutData
  failed : ∃ e, .response (some e) ∈ op.participants
  requests : ∀ e, .localRequest (some e) ∉ op.participants
  messages : .sendFailure ∉ op.participants

/-- The error that the completion for a participant sets. -/
def Participant.carried (type : ResponseType) : Participant → Option CcErrorCode
  | localRequest errCode => errCode
  | response errorCode => if type = .kickoutData then none else errorCode
  | sendFailure => some .requestedNodeNotLeader

theorem Participant.carried_eq {type : ResponseType} {p : Participant} {e : CcErrorCode}
    (sets : p.carried type = some e) : p.outcome = some e := by
  cases p with
  | localRequest errCode => exact sets
  | response errorCode =>
    rw [carried] at sets
    split at sets
    · cases sets
    · exact sets
  | sendFailure => exact sets

/-- An error that the thread still has to set. -/
def Pc.carried : Pc → Option CcErrorCode
  | chooseError errCode => some errCode
  | remoteRef errCode => errCode
  | setErrorCode errCode => some errCode
  | setFinished | casFinished | postLambda | decreaseCurrentHandlingResponse | left => none

/-- The thread has lowered the reference count. -/
def Pc.counted : Pc → Bool
  | chooseError _ | remoteRef _ | setErrorCode _ | setFinished => false
  | casFinished | postLambda | decreaseCurrentHandlingResponse | left => true

theorem Pc.carried_of_counted {pc : Pc} (counted : pc.counted = true) : pc.carried = none := by
  cases pc <;> first | rfl | cases counted

theorem complete_carried (remote : Bool) (errCode : Option CcErrorCode) :
    (complete remote errCode).carried = errCode ∧ (complete remote errCode).counted = false := by
  cases remote <;> cases errCode <;> exact ⟨rfl, rfl⟩

/-- How a participant enters: with a thread that carries its error, unless it is rejected. -/
theorem World.step_action (w : World) (type : ResponseType) (p : Participant) :
    w.step (p.action type) = some w ∨
      ∃ t status, w.step (p.action type) = some { w with
          result := { w.result with resultStatus := status }
          threads := w.threads ++ [t] } ∧
        t.pc.carried = p.carried type ∧ t.pc.counted = false := by
  have stream (t : Thread) : w.setResultByStreamThread t = w ∨ ∃ status,
      w.setResultByStreamThread t = { w with
        result := { w.result with resultStatus := status }
        threads := w.threads ++ [t] } := by
    unfold World.setResultByStreamThread
    split
    · exact .inl rfl
    · exact .inr ⟨_, rfl⟩
  cases p with
  | localRequest errCode =>
    exact .inr ⟨_, w.result.resultStatus, rfl, complete_carried false errCode⟩
  | response errorCode =>
    have handled : ∃ remote, onReceiveCcMsg type errorCode =
        .enterResponse true remote (Participant.carried type (.response errorCode)) := by
      cases type <;> cases errorCode <;> exact ⟨_, rfl⟩
    obtain ⟨remote, handled⟩ := handled
    rw [Participant.action, handled]
    rcases stream ⟨.response, complete remote (Participant.carried type (.response errorCode))⟩ with
      rejected | ⟨status, entered⟩
    · exact .inl (congrArg some rejected)
    · exact .inr ⟨_, status, congrArg some entered, complete_carried _ _⟩
  | sendFailure =>
    rcases stream ⟨.sendFailure, .chooseError .requestedNodeNotLeader⟩ with
      rejected | ⟨status, entered⟩
    · exact .inl (congrArg some rejected)
    · exact .inr ⟨_, status, congrArg some entered, rfl, rfl⟩

/-- One operation of a thread on the error code, the reference count and the finished flag. -/
structure Completes (w : World) (t : Thread) (v : World) (pc : Pc) : Prop where
  threads : v.threads = w.threads
  tx : v.tx = w.tx
  refCnted : v.result.refCnted = w.result.refCnted
  code : v.result.errorCode = w.result.errorCode ∧ pc.carried = t.pc.carried ∨
    ∃ e, t.pc.carried = some e ∧ v.result.errorCode = w.result.errorCode.or (some e) ∧
      pc.carried = none
  counts : v.result.refCnt = w.result.refCnt ∧ pc.counted = t.pc.counted ∧ pc ≠ .casFinished ∨
    v.result.refCnt = w.result.refCnt - 1 ∧ t.pc.counted = false ∧ pc.counted = true ∧
      (pc = .casFinished → w.result.refCnt = 1)
  finishes : v.result.isFinished = true → w.result.isFinished = true ∨ t.pc = .casFinished

theorem exit_counted (task : Task) :
    task.exit.counted = true ∧ task.exit.carried = none ∧ task.exit ≠ .casFinished := by
  cases task <;> exact ⟨rfl, rfl, nofun⟩

theorem Completes.of_operate {w v : World} {t : Thread} {pc : Pc}
    (counted : w.result.refCnted = true) (h : w.operate t = some (v, pc)) :
    Completes w t v pc := by
  obtain ⟨task, here⟩ := t
  obtain ⟨exits, empty, other⟩ := exit_counted task
  cases here with
  | chooseError errCode =>
    cases h
    by_cases remote : 0 < w.result.remoteRefCnt
    · rw [if_pos remote]
      exact ⟨rfl, rfl, rfl, .inl ⟨rfl, rfl⟩, .inl ⟨rfl, rfl, by rintro ⟨⟩⟩, .inl⟩
    · rw [if_neg remote]
      exact ⟨rfl, rfl, rfl, .inl ⟨rfl, rfl⟩, .inl ⟨rfl, rfl, by rintro ⟨⟩⟩, .inl⟩
  | remoteRef errCode =>
    cases h
    cases errCode <;> exact ⟨rfl, rfl, rfl, .inl ⟨rfl, rfl⟩, .inl ⟨rfl, rfl, by rintro ⟨⟩⟩, .inl⟩
  | setErrorCode errCode =>
    cases h
    exact ⟨rfl, rfl, rfl, .inr ⟨errCode, rfl, rfl, rfl⟩, .inl ⟨rfl, rfl, by rintro ⟨⟩⟩, .inl⟩
  | setFinished =>
    simp only [World.operate, counted, if_true] at h
    cases h
    by_cases last : w.result.refCnt = 1
    · rw [if_pos last]
      exact ⟨rfl, rfl, counted.symm, .inl ⟨rfl, rfl⟩, .inr ⟨rfl, rfl, rfl, fun _ => last⟩, .inl⟩
    · rw [if_neg last]
      exact ⟨rfl, rfl, counted.symm, .inl ⟨rfl, empty⟩,
        .inr ⟨rfl, rfl, exits, fun cas => absurd cas other⟩, .inl⟩
  | casFinished =>
    simp only [World.operate] at h
    split at h
    · cases h
      exact ⟨rfl, rfl, rfl, .inl ⟨rfl, empty⟩, .inl ⟨rfl, exits, other⟩, .inl⟩
    · cases h
      exact ⟨rfl, rfl, rfl, .inl ⟨rfl, rfl⟩, .inl ⟨rfl, rfl, by rintro ⟨⟩⟩, fun _ => .inr rfl⟩
  | postLambda =>
    cases h
    exact ⟨rfl, rfl, rfl, .inl ⟨rfl, empty⟩, .inl ⟨rfl, exits, other⟩, .inl⟩
  | decreaseCurrentHandlingResponse =>
    cases h
    exact ⟨rfl, rfl, rfl, .inl ⟨rfl, rfl⟩, .inl ⟨rfl, rfl, by rintro ⟨⟩⟩, .inl⟩
  | left => cases h

end TxService.HandlerResult
