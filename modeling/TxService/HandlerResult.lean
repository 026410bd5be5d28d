import TxService.Transition

/-!
# Waiting for a cc handler result

A transaction waits until the completions it expects have come or until it times out. Every step is
one atomic operation.
-/

namespace TxService.HandlerResult

open Transition

/-- The error codes other than `NO_ERROR`. -/
inductive CcErrorCode
  | requestedNodeNotLeader
  | forceFail
  | other (code : Nat)
  deriving DecidableEq

structure CcHandlerResult where
  isFinished : Bool
  resultStatus : Int
  errorCode : Option CcErrorCode
  refCnted : Bool
  refCnt : UInt32
  remoteRefCnt : UInt32
  deriving DecidableEq

/-- Who completes the result. A response and a failure to send have entered by
`SetResultByStreamThread`. -/
inductive Task
  | localRequest
  | response
  | sendFailure
  deriving DecidableEq

/-- The next atomic operation of a thread that completes the result. -/
inductive Pc
  /-- `SetLocalOrRemoteError` reads `remote_ref_cnt_`. -/
  | chooseError (errCode : CcErrorCode)
  /-- `SetRemoteFinished` or `SetRemoteError` lowers `remote_ref_cnt_`. -/
  | remoteRef (errCode : Option CcErrorCode)
  /-- `SetError` sets `error_code_`. -/
  | setErrorCode (errCode : CcErrorCode)
  /-- `SetFinished` lowers `ref_cnt_` if there is one. -/
  | setFinished
  | casFinished
  | postLambda
  | decreaseCurrentHandlingResponse
  | left
  deriving DecidableEq

structure Thread where
  task : Task
  pc : Pc
  deriving DecidableEq

/-- What follows once the result is completed. `CcStreamSender` does nothing more. -/
def Task.exit : Task → Pc
  | response => .decreaseCurrentHandlingResponse
  | localRequest | sendFailure => .left

/-- The first operation of `SetFinished`, `SetError`, `SetRemoteFinished` or `SetRemoteError`. -/
def complete (remote : Bool) (errCode : Option CcErrorCode) : Pc :=
  if remote then .remoteRef errCode else errCode.elim .setFinished .setErrorCode

/-- The next operation of the transaction's thread, which alone times out and resets. -/
inductive TxPc
  | waiting
  | casTimeout
  | timedOut
  | forceErrorCode
  | forceLambda
  | clearRefCnt
  | clearRemoteRef
  | clearFinished
  | clearTimeout
  | setRefCnt
  | setRemoteRef
  deriving DecidableEq

/-- The result, the threads that complete it and the transaction's thread. Besides, whether a
timeout is going on (`SetResultByTimeoutThread` has succeeded and the status was not unset), how
many operations were finished and reset, how often `post_lambda_` has run, and the completions that
the operation expects and has had. -/
structure World where
  result : CcHandlerResult
  threads : List Thread
  tx : TxPc
  timeout : Bool
  finishes : Nat
  resets : Nat
  lambdas : Nat
  expected : Nat
  completions : Nat
  deriving DecidableEq

inductive Action
  | startLocal (errCode : Option CcErrorCode)
  /-- A response, of this operation or of an earlier one. -/
  | enterResponse (current remote : Bool) (errCode : Option CcErrorCode)
  | enterSendFailure
  | move (i : Nat)
  | incrementRemoteRef
  | loadStatus
  | casTimeout
  | forceError
  | unsetByTimeoutThread
  | forceErrorCode
  | forceLambda
  | reset
  | clearRefCnt
  | clearRemoteRef
  | clearFinished
  | clearTimeout
  | setRefCnt (cnt : UInt32)
  | setRemoteRef
  /-- The operation has one request and calls no `SetRefCnt`. -/
  | oneRequest
  deriving DecidableEq

namespace World

/-- `SetResultByStreamThread`: rejected during a timeout, and otherwise counted. -/
def setResultByStreamThread (w : World) (t : Thread) : World :=
  if w.result.resultStatus = -1 then w
  else
    { w with
      result := { w.result with resultStatus := w.result.resultStatus + 1 }
      threads := w.threads ++ [t] }

/-- One operation of a thread, with the operation that comes next. -/
def operate (w : World) (t : Thread) : Option (World × Pc) :=
  let r := w.result
  match t.pc with
  | .chooseError errCode =>
    some (w, if 0 < r.remoteRefCnt then .remoteRef (some errCode) else .setErrorCode errCode)
  | .remoteRef errCode =>
    some ({ w with result := { r with remoteRefCnt := r.remoteRefCnt - 1 } },
      errCode.elim .setFinished .setErrorCode)
  | .setErrorCode errCode =>
    some ({ w with result := { r with errorCode := r.errorCode.or (some errCode) } }, .setFinished)
  | .setFinished =>
    let w := { w with completions := w.completions + 1 }
    if r.refCnted then
      some ({ w with result := { r with refCnt := r.refCnt - 1 } },
        if r.refCnt = 1 then .casFinished else t.task.exit)
    else some (w, .casFinished)
  | .casFinished =>
    if r.isFinished then some (w, t.task.exit)
    else some ({ w with result := { r with isFinished := true }, finishes := w.finishes + 1 },
      .postLambda)
  | .postLambda => some ({ w with lambdas := w.lambdas + 1 }, t.task.exit)
  | .decreaseCurrentHandlingResponse =>
    some ({ w with result := { r with resultStatus := r.resultStatus - 1 } }, .left)
  | .left => none

/-- One operation of the transaction's thread. `Reset` is called once the result is finished. -/
def txStep (w : World) : Action → Option World
  | .loadStatus =>
    if w.tx = .waiting then
      some { w with tx := if w.result.resultStatus = -1 then .timedOut else .casTimeout }
    else none
  | .casTimeout =>
    if w.tx = .casTimeout then
      if w.result.resultStatus = 0 then
        some { w with
          result := { w.result with resultStatus := -1 }
          tx := .timedOut
          timeout := true }
      else some { w with tx := .waiting }
    else none
  | .forceError =>
    if w.tx = .timedOut then
      if w.result.isFinished then some { w with tx := .waiting }
      else some { w with
        result := { w.result with isFinished := true }
        tx := .forceErrorCode
        finishes := w.finishes + 1 }
    else none
  | .unsetByTimeoutThread =>
    if w.tx = .timedOut then
      some { w with
        result := { w.result with resultStatus := 0 }
        tx := .waiting
        timeout := false }
    else none
  | .forceErrorCode =>
    if w.tx = .forceErrorCode then
      some { w with
        result := { w.result with errorCode := w.result.errorCode.or (some .forceFail) }
        tx := .forceLambda }
    else none
  | .forceLambda =>
    if w.tx = .forceLambda then some { w with tx := .waiting, lambdas := w.lambdas + 1 } else none
  | .reset =>
    if w.tx = .waiting ∧ w.result.isFinished = true then
      some { w with result := { w.result with errorCode := none }, tx := .clearRefCnt }
    else none
  | .clearRefCnt =>
    if w.tx = .clearRefCnt then
      some { w with
        result := { w.result with refCnted := false, refCnt := 0 }
        tx := .clearRemoteRef }
    else none
  | .clearRemoteRef =>
    if w.tx = .clearRemoteRef then
      some { w with result := { w.result with remoteRefCnt := 0 }, tx := .clearFinished }
    else none
  | .clearFinished =>
    if w.tx = .clearFinished then
      some { w with
        result := { w.result with isFinished := false }
        tx := .clearTimeout
        resets := w.resets + 1
        expected := 1
        completions := 0 }
    else none
  | .clearTimeout =>
    if w.tx = .clearTimeout then
      some { w with
        result := { w.result with
          resultStatus := if w.result.resultStatus = -1 then 0 else w.result.resultStatus }
        tx := .setRefCnt
        timeout := false }
    else none
  | .setRefCnt cnt =>
    if w.tx = .setRefCnt then
      if cnt = 0 then
        some { w with
          result := { w.result with refCnted := false, refCnt := 0 }
          tx := .setRemoteRef }
      else
        some { w with
          result := { w.result with refCnted := true, refCnt := cnt }
          tx := .setRemoteRef
          expected := cnt.toNat
          completions := 0 }
    else none
  | .setRemoteRef =>
    if w.tx = .setRemoteRef then
      some { w with result := { w.result with remoteRefCnt := 0 }, tx := .waiting }
    else none
  | .oneRequest => if w.tx = .setRefCnt then some { w with tx := .waiting } else none
  | _ => none

def step (w : World) : Action → Option World
  | .startLocal errCode =>
    some { w with threads := w.threads ++ [⟨.localRequest, complete false errCode⟩] }
  | .enterResponse current remote errCode =>
    some (w.setResultByStreamThread ⟨.response,
      if current then complete remote errCode else .decreaseCurrentHandlingResponse⟩)
  | .enterSendFailure => some (w.setResultByStreamThread ⟨.sendFailure, .chooseError .requestedNodeNotLeader⟩)
  | .move i => do
    let t ← w.threads[i]?
    let (w, pc) ← w.operate t
    some { w with threads := w.threads.set i { t with pc := pc } }
  | .incrementRemoteRef =>
    some { w with result := { w.result with remoteRefCnt := w.result.remoteRefCnt + 1 } }
  | a => w.txStep a

/-- A result that waits for its first operation. -/
def initial : World where
  result := ⟨false, 0, none, false, 0, 0⟩
  threads := []
  tx := .setRefCnt
  timeout := false
  finishes := 0
  resets := 0
  lambdas := 0
  expected := 1
  completions := 0

/-- `SetResultByTimeoutThread` with no other thread in between. -/
def setResultByTimeoutThread (w : World) : Option World := do
  let w ← w.step .loadStatus
  if w.tx = .casTimeout then w.step .casTimeout else some w

end World

def Thread.handling (t : Thread) : Bool := t.task ≠ .localRequest ∧ t.pc ≠ .left

/-- The stream threads that have entered and not left. -/
def World.handling (w : World) : Nat := w.threads.countP Thread.handling

/-- Has won the exchange in `ForceError` and not yet run `post_lambda_`. -/
def TxPc.forcing : TxPc → Bool
  | forceErrorCode | forceLambda => true
  | _ => false

/-- The threads that have won the exchange and not yet run `post_lambda_`. -/
def World.pendingLambdas (w : World) : Nat :=
  w.threads.countP (fun t => t.pc = .postLambda) + w.tx.forcing.toNat

/-- Each operation is finished once, `post_lambda_` runs once for it, all the expected completions
finish it, and the status counts the stream threads, which are shut out by a timeout. -/
structure FinishesOnce (w : World) : Prop where
  finished : w.finishes = w.resets + w.result.isFinished.toNat
  lambdas : w.lambdas + w.pendingLambdas = w.finishes
  ends : w.expected ≤ w.completions →
    w.result.isFinished = true ∨ ∃ t ∈ w.threads, t.pc = .casFinished
  status : w.result.resultStatus = if w.timeout then -1 else (w.handling : Int)
  excluded : w.timeout = true → w.handling = 0

/-- What a wait promises: it ends once, and a timeout succeeds when there is no stream thread. -/
structure Sound (w : World) : Prop extends FinishesOnce w where
  timesOut : w.tx = .waiting → w.handling = 0 →
    ∃ v, w.setResultByTimeoutThread = some v ∧ v.tx = .timedOut

/-- A message fails to be sent during a timeout only. -/
def World.Sends (w : World) (a : Action) : Prop :=
  a = .enterSendFailure → w.result.resultStatus = -1

instance (w : World) (a : Action) : Decidable (w.Sends a) :=
  inferInstanceAs (Decidable (_ → _))

def Reached : World → Prop :=
  Reachable (· = World.initial) fun w a v => w.Sends a ∧ w.step a = some v

/-- The program points of `Reset` before it clears `is_finished_`. -/
def TxPc.resetting : TxPc → Bool
  | clearRefCnt | clearRemoteRef | clearFinished => true
  | _ => false

/-- The program points between `ClearRefCnt` and `SetRefCnt`. -/
def TxPc.uncounted : TxPc → Bool
  | clearRemoteRef | clearFinished | clearTimeout | setRefCnt => true
  | _ => false

/-- A thread that leaves as it entered: a local request or a response, and only a response lowers the
status. -/
def Thread.Regular (t : Thread) : Prop :=
  t.task ≠ .sendFailure ∧ (t.pc = .decreaseCurrentHandlingResponse → t.task = .response)

/-- What every step keeps. -/
structure Kept (w : World) : Prop extends FinishesOnce w where
  regular : ∀ t ∈ w.threads, t.Regular
  resetting : w.tx.resetting = true → w.result.isFinished = true
  uncounted : w.tx.uncounted = true → w.result.refCnted = false
  counted : w.result.refCnted = true →
    w.result.refCnt = UInt32.ofNat w.expected - UInt32.ofNat w.completions
  timedOut : w.tx = .timedOut → w.timeout = true

theorem kept_initial : Kept World.initial where
  finished := rfl
  lambdas := rfl
  ends := nofun
  status := rfl
  excluded := nofun
  regular := nofun
  resetting := nofun
  uncounted := fun _ => rfl
  counted := nofun
  timedOut := nofun

theorem Kept.timeout_iff {w : World} (kept : Kept w) :
    w.result.resultStatus = -1 ↔ w.timeout = true := by
  rw [kept.status]
  cases w.timeout with
  | true => simp
  | false =>
    simp only [Bool.false_eq_true, if_false, iff_false]
    omega

/-- No timeout is going on, and the status counts the stream threads. -/
theorem Kept.counts {w : World} (kept : Kept w) (open_ : w.result.resultStatus ≠ -1) :
    w.timeout = false ∧ w.result.resultStatus = w.handling := by
  have running : w.timeout = false := by simpa using mt kept.timeout_iff.mpr open_
  exact ⟨running, by simpa [running] using kept.status⟩

variable {w v : World}

/-- The steps of the transaction's thread that end in a successful `SetResultByTimeoutThread`, or
not. -/
theorem Kept.timeoutStep (kept : Kept w)
    (h : w.txStep .loadStatus = some v ∨ w.txStep .casTimeout = some v) : Kept v := by
  rcases h with h | h
  · obtain ⟨waiting, h⟩ := Option.ite_none_right_eq_some.mp h
    cases h
    have pending : (if w.result.resultStatus = -1 then TxPc.timedOut else .casTimeout).forcing =
        w.tx.forcing := by
      rw [waiting]
      split <;> rfl
    exact { kept with
      lambdas := by simpa only [World.pendingLambdas, pending] using kept.lambdas
      resetting := by
        dsimp only
        split <;> nofun
      uncounted := by
        dsimp only
        split <;> nofun
      timedOut := fun timedOut => by
        dsimp only at timedOut
        split at timedOut
        · exact kept.timeout_iff.mp ‹_›
        · cases timedOut }
  · obtain ⟨trying, h⟩ := Option.ite_none_right_eq_some.mp h
    have lambdas := kept.lambdas
    rw [World.pendingLambdas, trying] at lambdas
    split at h
    · rename_i zero
      cases h
      have idle : w.handling = 0 := by
        have := (kept.counts (by omega)).2
        omega
      exact { kept with
        lambdas := lambdas
        status := rfl
        excluded := fun _ => idle
        resetting := nofun
        uncounted := nofun
        timedOut := fun _ => rfl }
    · cases h
      exact { kept with
        lambdas := lambdas
        resetting := nofun
        uncounted := nofun
        timedOut := nofun }

theorem Kept.forceStep (kept : Kept w)
    (h : w.txStep .forceError = some v ∨ w.txStep .unsetByTimeoutThread = some v ∨
      w.txStep .forceErrorCode = some v ∨ w.txStep .forceLambda = some v) : Kept v := by
  have lambdas := kept.lambdas
  have finished := kept.finished
  rcases h with h | h | h | h <;> obtain ⟨here, h⟩ := Option.ite_none_right_eq_some.mp h <;>
    rw [World.pendingLambdas, here] at lambdas
  · split at h
    · cases h
      exact { kept with
        lambdas := lambdas
        resetting := nofun
        uncounted := nofun
        timedOut := nofun }
    · rename_i running
      cases h
      rw [Bool.not_eq_true] at running
      rw [running] at finished
      exact { kept with
        finished := congrArg (· + 1) finished
        lambdas := congrArg (· + 1) lambdas
        ends := fun _ => .inl rfl
        resetting := nofun
        uncounted := nofun
        timedOut := nofun }
  · cases h
    have idle := kept.excluded (kept.timedOut here)
    exact { kept with
      lambdas := lambdas
      status := (congrArg Int.ofNat idle).symm
      excluded := nofun
      resetting := nofun
      uncounted := nofun
      timedOut := nofun }
  · cases h
    exact { kept with
      lambdas := lambdas
      resetting := nofun
      uncounted := nofun
      timedOut := nofun }
  · cases h
    exact { kept with
      lambdas := by
        simp only [World.pendingLambdas, TxPc.forcing, Bool.toNat_true, Bool.toNat_false] at lambdas ⊢
        omega
      resetting := nofun
      uncounted := nofun
      timedOut := nofun }

theorem Kept.resetStep (kept : Kept w)
    (h : w.txStep .reset = some v ∨ w.txStep .clearRefCnt = some v ∨
      w.txStep .clearRemoteRef = some v ∨ w.txStep .clearFinished = some v ∨
      w.txStep .clearTimeout = some v) : Kept v := by
  have lambdas := kept.lambdas
  have finished := kept.finished
  rcases h with h | h | h | h | h <;> obtain ⟨here, h⟩ := Option.ite_none_right_eq_some.mp h <;>
    cases h
  · rw [World.pendingLambdas, here.1] at lambdas
    exact { kept with
      lambdas := lambdas
      resetting := fun _ => here.2
      uncounted := nofun
      timedOut := nofun }
  · rw [World.pendingLambdas, here] at lambdas
    exact { kept with
      lambdas := lambdas
      resetting := fun _ => kept.resetting (by rw [here]; rfl)
      uncounted := fun _ => rfl
      counted := nofun
      timedOut := nofun }
  · rw [World.pendingLambdas, here] at lambdas
    exact { kept with
      lambdas := lambdas
      resetting := fun _ => kept.resetting (by rw [here]; rfl)
      uncounted := fun _ => kept.uncounted (by rw [here]; rfl)
      timedOut := nofun }
  · rw [World.pendingLambdas, here] at lambdas
    rw [kept.resetting (by rw [here]; rfl)] at finished
    have uncounted := kept.uncounted (by rw [here]; rfl)
    exact { kept with
      finished := finished
      lambdas := lambdas
      ends := nofun
      resetting := nofun
      uncounted := fun _ => uncounted
      counted := fun counted => by
        rw [uncounted] at counted
        cases counted
      timedOut := nofun }
  · rw [World.pendingLambdas, here] at lambdas
    exact { kept with
      lambdas := lambdas
      status := by
        dsimp only
        split
        · rename_i timedOut
          exact (congrArg Int.ofNat (kept.excluded (kept.timeout_iff.mp timedOut))).symm
        · exact (kept.counts ‹_›).2
      excluded := nofun
      resetting := nofun
      uncounted := fun _ => kept.uncounted (by rw [here]; rfl)
      timedOut := nofun }

theorem Kept.refCntStep (kept : Kept w)
    (h : (∃ cnt, w.txStep (.setRefCnt cnt) = some v) ∨ w.txStep .setRemoteRef = some v ∨
      w.txStep .oneRequest = some v) : Kept v := by
  have lambdas := kept.lambdas
  rcases h with ⟨cnt, h⟩ | h | h <;> obtain ⟨here, h⟩ := Option.ite_none_right_eq_some.mp h
  · rw [World.pendingLambdas, here] at lambdas
    split at h
    · cases h
      exact { kept with
        lambdas := lambdas
        resetting := nofun
        uncounted := nofun
        counted := nofun
        timedOut := nofun }
    · rename_i positive
      cases h
      exact { kept with
        lambdas := lambdas
        ends := fun zero => absurd (UInt32.toNat_inj.mp (Nat.le_zero.mp zero)) positive
        resetting := nofun
        uncounted := nofun
        counted := fun _ => by simp
        timedOut := nofun }
  all_goals
    cases h
    rw [World.pendingLambdas, here] at lambdas
    exact { kept with
      lambdas := lambdas
      resetting := nofun
      uncounted := nofun
      timedOut := nofun }

theorem Kept.txStep {a : Action} (kept : Kept w) (h : w.txStep a = some v) :
    Kept v := by
  cases a with
  | loadStatus => exact kept.timeoutStep (.inl h)
  | casTimeout => exact kept.timeoutStep (.inr h)
  | forceError => exact kept.forceStep (.inl h)
  | unsetByTimeoutThread => exact kept.forceStep (.inr (.inl h))
  | forceErrorCode => exact kept.forceStep (.inr (.inr (.inl h)))
  | forceLambda => exact kept.forceStep (.inr (.inr (.inr h)))
  | reset => exact kept.resetStep (.inl h)
  | clearRefCnt => exact kept.resetStep (.inr (.inl h))
  | clearRemoteRef => exact kept.resetStep (.inr (.inr (.inl h)))
  | clearFinished => exact kept.resetStep (.inr (.inr (.inr (.inl h))))
  | clearTimeout => exact kept.resetStep (.inr (.inr (.inr (.inr h))))
  | setRefCnt cnt => exact kept.refCntStep (.inl ⟨cnt, h⟩)
  | setRemoteRef => exact kept.refCntStep (.inr (.inl h))
  | oneRequest => exact kept.refCntStep (.inr (.inr h))
  | _ => cases h

end TxService.HandlerResult
