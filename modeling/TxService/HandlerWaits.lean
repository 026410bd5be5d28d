import TxService.HandlerResult

/-!
# Waits end once

The operations of the threads that complete a `CcHandlerResult`, one by one, and what holds in every
run of them with the transaction's thread.
-/

namespace TxService.HandlerResult

open Transition

variable {w : World} {task : Task} {pc : Pc} {t : Thread}

theorem Kept.entered (kept : Kept w) (t : Thread) (regular : t.Regular) (fresh : t.pc ≠ .postLambda)
    (status : Int)
    (counts : status = if w.timeout then -1 else ((w.threads ++ [t]).countP Thread.handling : Int))
    (excluded : w.timeout = true → (w.threads ++ [t]).countP Thread.handling = 0) :
    Kept { w with
      result := { w.result with resultStatus := status }
      threads := w.threads ++ [t] } :=
  { kept with
    lambdas := by
      have lambdas := kept.lambdas
      simp only [World.pendingLambdas, List.countP_append, List.countP_singleton, decide_eq_true_eq,
        fresh, if_false, Nat.add_zero] at lambdas ⊢
      exact lambdas
    ends := fun all => (kept.ends all).imp id fun ⟨t, member, here⟩ =>
      ⟨t, List.mem_append_left _ member, here⟩
    status := counts
    excluded := excluded
    regular := fun t member => by
      rcases List.mem_append.mp member with old | new
      · exact kept.regular t old
      · rw [List.mem_singleton.mp new]
        exact regular }

theorem complete_first (remote : Bool) (errCode : Option CcErrorCode) :
    complete remote errCode ≠ .postLambda ∧
      complete remote errCode ≠ .decreaseCurrentHandlingResponse ∧
      complete remote errCode ≠ .left := by
  cases remote <;> cases errCode <;> exact ⟨nofun, nofun, nofun⟩

theorem Kept.setResultByStreamThread (kept : Kept w) (t : Thread) (task : t.task = .response)
    (fresh : t.pc ≠ .postLambda) (handling : t.handling = true) :
    Kept (w.setResultByStreamThread t) := by
  rw [World.setResultByStreamThread]
  split
  · exact kept
  · obtain ⟨open_, counts⟩ := kept.counts ‹_›
    refine kept.entered t ⟨by rw [task]; nofun, fun _ => task⟩ fresh _ ?_ (by rw [open_]; nofun)
    rw [open_, counts, List.countP_append, List.countP_singleton, if_pos handling]
    rfl

theorem Kept.startLocal (kept : Kept w) (errCode : Option CcErrorCode) :
    Kept { w with threads := w.threads ++ [⟨.localRequest, complete false errCode⟩] } := by
  have same : (w.threads ++ [Thread.mk .localRequest (complete false errCode)]).countP
      Thread.handling = w.handling := by
    rw [List.countP_append, List.countP_singleton]
    rfl
  obtain ⟨fresh, stays, -⟩ := complete_first false errCode
  refine kept.entered ⟨.localRequest, complete false errCode⟩
    ⟨nofun, fun leaving => absurd leaving stays⟩ fresh w.result.resultStatus ?_ ?_
  · rw [same]
    exact kept.status
  · rw [same]
    exact kept.excluded

theorem countP_set_add {α : Type} (p : α → Bool) {l : List α} {i : Nat} {a : α}
    (here : l[i]? = some a) (b : α) :
    (l.set i b).countP p + (p a).toNat = l.countP p + (p b).toNat := by
  obtain ⟨bound, rfl⟩ := List.getElem?_eq_some_iff.mp here
  have counted : p l[i] = true → 0 < l.countP p := fun held =>
    List.countP_pos_iff.mpr ⟨_, List.getElem_mem bound, held⟩
  rw [List.countP_set bound]
  cases held : p l[i] <;> cases p b <;> grind

/-- One operation of a thread: what it leaves alone, how the finishing exchange, `post_lambda_` and
the status go with its program point, and what it does to the reference count. -/
structure Operates (w : World) (t : Thread) (v : World) (pc : Pc) : Prop where
  present : t.pc ≠ .left
  threads : v.threads = w.threads := by rfl
  tx : v.tx = w.tx := by rfl
  timeout : v.timeout = w.timeout := by rfl
  resets : v.resets = w.resets := by rfl
  expected : v.expected = w.expected := by rfl
  refCnted : v.result.refCnted = w.result.refCnted := by rfl
  stays : w.result.isFinished = true → v.result.isFinished = true
  finishes : v.finishes + w.result.isFinished.toNat = w.finishes + v.result.isFinished.toNat
  lambdas : v.lambdas + w.finishes + (decide (pc = .postLambda)).toNat =
    w.lambdas + v.finishes + (decide (t.pc = .postLambda)).toNat
  regular : t.Regular → (Thread.mk t.task pc).Regular
  status : t.Regular → v.result.resultStatus + t.handling.toNat =
    w.result.resultStatus + (Thread.mk t.task pc).handling.toNat
  completes : pc = .casFinished ∨ v.result.isFinished = true ∨ t.pc ≠ .casFinished ∧
    (v.completions = w.completions ∨ v.completions = w.completions + 1 ∧
      w.result.refCnted = true ∧ w.result.refCnt ≠ 1)
  counts : v.completions = w.completions ∧ v.result.refCnt = w.result.refCnt ∨
    v.completions = w.completions + 1 ∧
      (w.result.refCnted = true → v.result.refCnt = w.result.refCnt - 1)

theorem handling_exit (t : (Thread.mk task pc).Regular) (stays : pc ≠ .left) :
    (Thread.mk task task.exit).handling = (Thread.mk task pc).handling := by
  cases task with
  | localRequest => rfl
  | response => simp [Thread.handling, Task.exit, stays]
  | sendFailure => exact absurd rfl t.1

theorem handling_of_ne_left {pc pc' : Pc} (stays : pc ≠ .left) (stays' : pc' ≠ .left) :
    (Thread.mk task pc).handling = (Thread.mk task pc').handling := by
  simp [Thread.handling, stays, stays']

theorem Operates.outside {w v : World} (moves : Operates w t v pc) (outside : t.handling = false) :
    (Thread.mk t.task pc).handling = false := by
  have present := moves.present
  simp only [Thread.handling, decide_eq_false_iff_not] at outside ⊢
  grind

theorem exit_ne_postLambda (task : Task) : task.exit ≠ .postLambda := by
  cases task <;> nofun

theorem Thread.Regular.exit (regular : t.Regular) :
    (Thread.mk t.task t.task.exit).Regular := by
  refine ⟨regular.1, fun leaving => ?_⟩
  obtain ⟨task, pc⟩ := t
  cases task with
  | response => rfl
  | localRequest => cases leaving
  | sendFailure => cases leaving

theorem Thread.Regular.goTo (regular : t.Regular) (stays : pc ≠ .decreaseCurrentHandlingResponse) :
    (Thread.mk t.task pc).Regular :=
  ⟨regular.1, fun leaving => absurd leaving stays⟩

theorem Operates.quiet {here pc : Pc} (errorCode : Option CcErrorCode) (remoteRefCnt : UInt32)
    (quiet : here ≠ .postLambda ∧ here ≠ .casFinished ∧ here ≠ .left)
    (onward : pc ≠ .postLambda ∧ pc ≠ .decreaseCurrentHandlingResponse ∧ pc ≠ .left) :
    Operates w ⟨task, here⟩
      { w with result := { w.result with errorCode := errorCode, remoteRefCnt := remoteRefCnt } } pc where
  present := quiet.2.2
  threads := rfl
  tx := rfl
  timeout := rfl
  resets := rfl
  expected := rfl
  refCnted := rfl
  stays := id
  finishes := rfl
  lambdas := by simp [quiet.1, onward.1]
  regular := fun regular => regular.goTo onward.2.1
  status := fun _ => by rw [handling_of_ne_left quiet.2.2 onward.2.2]
  completes := .inr (.inr ⟨quiet.2.1, .inl rfl⟩)
  counts := .inl ⟨rfl, rfl⟩

theorem elim_setErrorCode (errCode : Option CcErrorCode) :
    errCode.elim .setFinished .setErrorCode ≠ Pc.postLambda ∧
      errCode.elim .setFinished .setErrorCode ≠ Pc.decreaseCurrentHandlingResponse ∧
      errCode.elim .setFinished .setErrorCode ≠ Pc.left := by
  cases errCode <;> exact ⟨nofun, nofun, nofun⟩

theorem Operates.setFinished {w v : World} (h : w.operate ⟨task, .setFinished⟩ = some (v, pc)) :
    Operates w ⟨task, .setFinished⟩ v pc := by
  simp only [World.operate] at h
  have waits : (Thread.mk task .casFinished).handling = (Thread.mk task .setFinished).handling :=
    handling_of_ne_left nofun nofun
  split at h
  · rename_i counted
    cases h
    exact {
      present := nofun
      stays := id
      finishes := rfl
      lambdas := by
        split
        · rfl
        · simp [exit_ne_postLambda]
      regular := fun regular => by
        split
        · exact regular.goTo nofun
        · exact regular.exit
      status := fun regular => by
        split
        · rw [waits]
        · rw [handling_exit regular nofun]
      completes := by
        by_cases last : w.result.refCnt = 1
        · exact .inl (if_pos last)
        · exact .inr (.inr ⟨nofun, .inr ⟨rfl, counted, last⟩⟩)
      counts := .inr ⟨rfl, fun _ => rfl⟩ }
  · rename_i uncounted
    cases h
    exact {
      present := nofun
      stays := id
      finishes := rfl
      lambdas := rfl
      regular := fun regular => regular.goTo nofun
      status := fun _ => by rw [waits]
      completes := .inl rfl
      counts := .inr ⟨rfl, fun counted => absurd counted uncounted⟩ }

theorem Operates.casFinished {w v : World} (h : w.operate ⟨task, .casFinished⟩ = some (v, pc)) :
    Operates w ⟨task, .casFinished⟩ v pc := by
  simp only [World.operate] at h
  split at h
  · rename_i finished
    cases h
    exact {
      present := nofun
      stays := id
      finishes := rfl
      lambdas := by simp [exit_ne_postLambda]
      regular := Thread.Regular.exit
      status := fun regular => by rw [handling_exit regular nofun]
      completes := .inr (.inl finished)
      counts := .inl ⟨rfl, rfl⟩ }
  · rename_i running
    cases h
    have won : (Thread.mk task .postLambda).handling = (Thread.mk task .casFinished).handling :=
      handling_of_ne_left nofun nofun
    exact {
      present := nofun
      stays := fun _ => rfl
      finishes := by simp [Bool.not_eq_true _ ▸ running]
      lambdas := by simp; omega
      regular := fun regular => regular.goTo nofun
      status := fun _ => by rw [won]
      completes := .inr (.inl rfl)
      counts := .inl ⟨rfl, rfl⟩ }

theorem operate_spec {w v : World} (h : w.operate t = some (v, pc)) :
    Operates w t v pc := by
  obtain ⟨task, here⟩ := t
  cases here with
  | chooseError errCode =>
    cases h
    refine .quiet w.result.errorCode w.result.remoteRefCnt ⟨nofun, nofun, nofun⟩ ?_
    split <;> exact ⟨nofun, nofun, nofun⟩
  | remoteRef errCode =>
    cases h
    exact .quiet _ _ ⟨nofun, nofun, nofun⟩ (elim_setErrorCode errCode)
  | setErrorCode errCode =>
    cases h
    exact .quiet _ _ ⟨nofun, nofun, nofun⟩ ⟨nofun, nofun, nofun⟩
  | setFinished => exact .setFinished h
  | casFinished => exact .casFinished h
  | postLambda =>
    cases h
    exact {
      present := nofun
      stays := id
      finishes := rfl
      lambdas := by simp [exit_ne_postLambda]; omega
      regular := Thread.Regular.exit
      status := fun regular => by rw [handling_exit regular nofun]
      completes := .inr (.inr ⟨nofun, .inl rfl⟩)
      counts := .inl ⟨rfl, rfl⟩ }
  | decreaseCurrentHandlingResponse =>
    cases h
    exact {
      present := nofun
      stays := id
      finishes := rfl
      lambdas := rfl
      regular := fun regular => regular.goTo nofun
      status := fun regular => by
        have response : task = .response := regular.2 rfl
        subst response
        simp [Thread.handling]
      completes := .inr (.inr ⟨nofun, .inl rfl⟩)
      counts := .inl ⟨rfl, rfl⟩ }
  | left => cases h

/-- The last completion finds the reference count at one. -/
theorem Kept.last_completion (kept : Kept w) (counted : w.result.refCnted = true)
    (last : w.expected = w.completions + 1) : w.result.refCnt = 1 := by
  rw [kept.counted counted, last, UInt32.ofNat_add]
  grind

theorem Kept.move {w v : World} {i : Nat} (kept : Kept w) (here : w.threads[i]? = some t)
    (moves : Operates w t v pc) :
    Kept { v with threads := v.threads.set i { t with pc := pc } } := by
  have member := List.mem_of_getElem? here
  have handling : (w.threads.set i { t with pc := pc }).countP Thread.handling + t.handling.toNat =
      w.handling + (Thread.mk t.task pc).handling.toNat := countP_set_add _ here _
  have status := moves.status (kept.regular t member)
  have excluded : w.timeout = true → t.handling = false ∧
      (w.threads.set i { t with pc := pc }).countP Thread.handling = 0 := by
    intro timeout
    have nobody := kept.excluded timeout
    have outside := List.countP_eq_zero.mp nobody t member
    rw [Bool.not_eq_true] at outside
    rw [nobody, outside, moves.outside outside] at handling
    exact ⟨outside, handling⟩
  rw [moves.threads]
  refine
    { finished := ?_, lambdas := ?_, ends := ?_, status := ?_, excluded := ?_, regular := ?_
      resetting := fun there => moves.stays (kept.resetting (moves.tx ▸ there))
      uncounted := fun there => moves.refCnted ▸ kept.uncounted (moves.tx ▸ there)
      counted := ?_
      timedOut := fun there => moves.timeout ▸ kept.timedOut (moves.tx ▸ there) }
  · have finishes := moves.finishes
    have finished := kept.finished
    simp only [moves.resets]
    omega
  · have pending : (w.threads.set i { t with pc := pc }).countP (fun t => t.pc = .postLambda) +
        (decide (t.pc = .postLambda)).toNat = w.threads.countP (fun t => t.pc = .postLambda) +
        (decide (pc = .postLambda)).toNat := countP_set_add _ here _
    have lambdas := kept.lambdas
    have moved := moves.lambdas
    simp only [World.pendingLambdas, moves.tx] at lambdas ⊢
    omega
  · simp only [moves.expected]
    intro all
    rcases moves.completes with cas | finished | ⟨elsewhere, count⟩
    · exact .inr ⟨_, List.mem_set (List.getElem?_eq_some_iff.mp here).1 _, cas⟩
    · exact .inl finished
    · have before : w.expected ≤ w.completions := by
        rcases count with same | ⟨more, counted, notLast⟩
        · omega
        · have := mt (kept.last_completion counted) notLast
          omega
      refine (kept.ends before).imp moves.stays ?_
      rintro ⟨u, old, cas⟩
      refine ⟨u, ?_, cas⟩
      obtain ⟨j, there⟩ := List.mem_iff_getElem?.mp old
      have other : i ≠ j := by
        rintro rfl
        rw [here] at there
        cases there
        exact elsewhere cas
      exact List.mem_of_getElem? (List.getElem?_set_ne other ▸ there)
  · simp only [World.handling, moves.timeout]
    have counts := kept.status
    cases timeout : w.timeout with
    | true =>
      have outside := (excluded timeout).1
      rw [outside, moves.outside outside] at status
      simp only [timeout, if_true] at counts ⊢
      omega
    | false =>
      simp only [timeout, Bool.false_eq_true, if_false] at counts ⊢
      omega
  · intro timeout
    exact (excluded (moves.timeout ▸ timeout)).2
  · intro u new
    rcases List.mem_or_eq_of_mem_set new with old | rfl
    · exact kept.regular u old
    · exact moves.regular (kept.regular t member)
  · simp only [moves.refCnted, moves.expected]
    intro counted
    have before := kept.counted counted
    rcases moves.counts with ⟨completions, refCnt⟩ | ⟨completions, refCnt⟩
    · rw [completions, refCnt, before]
    · rw [completions, refCnt counted, before, UInt32.ofNat_add]
      grind

theorem Kept.step {w v : World} {a : Action} (kept : Kept w) (sends : w.Sends a)
    (h : w.step a = some v) : Kept v := by
  cases a with
  | startLocal errCode =>
    cases h
    exact kept.startLocal errCode
  | enterResponse current remote errCode =>
    cases h
    obtain ⟨fresh, -, stays⟩ := complete_first remote errCode
    cases current with
    | true => exact kept.setResultByStreamThread _ rfl fresh (by simpa [Thread.handling] using stays)
    | false => exact kept.setResultByStreamThread _ rfl nofun rfl
  | enterSendFailure =>
    cases h
    rw [World.setResultByStreamThread, if_pos (sends rfl)]
    exact kept
  | move i =>
    obtain ⟨t, here, h⟩ := Option.bind_eq_some_iff.mp h
    obtain ⟨⟨u, pc⟩, operates, h⟩ := Option.bind_eq_some_iff.mp h
    cases h
    exact kept.move here (operate_spec operates)
  | incrementRemoteRef =>
    cases h
    exact { kept with }
  | _ =>
    simp only [World.step] at h
    exact kept.txStep h

theorem step_casTimeout (swaps : w.tx = .casTimeout) (zero : w.result.resultStatus = 0) :
    w.step .casTimeout = some { w with
      result := { w.result with resultStatus := -1 }, tx := .timedOut, timeout := true } :=
  (if_pos swaps).trans (if_pos zero)

theorem Kept.timesOut (kept : Kept w) (waiting : w.tx = .waiting) (idle : w.handling = 0) :
    ∃ v, w.setResultByTimeoutThread = some v ∧ v.tx = .timedOut := by
  have load : w.step .loadStatus = some { w with
      tx := if w.result.resultStatus = -1 then .timedOut else .casTimeout } := if_pos waiting
  rw [World.setResultByTimeoutThread, load, Option.bind_eq_bind, Option.bind_some]
  by_cases taken : w.result.resultStatus = -1
  · rw [if_pos taken]
    exact ⟨_, rfl, rfl⟩
  · have zero : w.result.resultStatus = 0 := by
      rw [(kept.counts taken).2, idle]
      rfl
    rw [if_neg taken]
    exact ⟨_, (if_pos rfl).trans (step_casTimeout rfl zero), rfl⟩

theorem wait_ends_once {w : World} (reached : Reached w) : Sound w := by
  have kept : Kept w := reached.invariant (fun _ start => start ▸ kept_initial)
    fun _ _ _ step kept => kept.step step.1 step.2
  exact { kept with timesOut := kept.timesOut }

def sendingStep (w : World) (a : Action) : Option World :=
  if w.Sends a then w.step a else none

theorem Reached.of_foldlM {as : List Action} (h : as.foldlM sendingStep World.initial = some w) :
    Reached w := by
  have start : Reached World.initial := .start rfl
  exact start.run (.of_foldlM sendingStep (fun _ _ _ => Option.ite_none_right_eq_some.mp) h)

/-- A local completion and a response finish the first operation, the second one times out. -/
def twoOperations : List Action :=
  [.setRefCnt 2, .setRemoteRef, .incrementRemoteRef, .startLocal none, .move 0,
    .enterResponse true true none, .move 1, .move 1, .move 1, .move 1, .reset, .clearRefCnt,
    .clearRemoteRef, .clearFinished, .clearTimeout, .oneRequest, .move 1, .loadStatus, .casTimeout,
    .enterSendFailure, .forceError, .forceErrorCode, .forceLambda]

theorem wait_ends_once_two_operations :
    ∃ w, twoOperations.foldlM sendingStep World.initial = some w ∧
      w.resets = 1 ∧ w.finishes = 2 ∧ w.lambdas = 2 ∧ w.timeout = true ∧ Sound w := by
  have ran : (twoOperations.foldlM sendingStep World.initial).isSome = true := by decide +kernel
  obtain ⟨w, run⟩ := Option.isSome_iff_exists.mp ran
  have counts : (twoOperations.foldlM sendingStep World.initial).map
      (fun w => (w.resets, w.finishes, w.lambdas, w.timeout)) = some (1, 2, 2, true) := by
    decide +kernel
  simp only [run, Option.map_some, Option.some.injEq, Prod.mk.injEq] at counts
  exact ⟨w, run, counts.1, counts.2.1, counts.2.2.1, counts.2.2.2, wait_ends_once (.of_foldlM run)⟩

/-- An operation whose message cannot be sent, and the next one. -/
def failedSend : List Action :=
  [.oneRequest, .enterSendFailure, .move 0, .move 0, .move 0, .move 0, .move 0, .reset, .clearRefCnt,
    .clearRemoteRef, .clearFinished, .clearTimeout, .oneRequest]

/-- After a failure to send no thread is handling a response, the status stays at one, and the next
operation cannot time out. -/
theorem send_failure_blocks_timeout :
    ∃ w, failedSend.foldlM World.step World.initial = some w ∧ ¬ Sound w ∧
      w.handling = 0 ∧ w.result.resultStatus = 1 ∧ w.result.isFinished = false ∧
      w.setResultByTimeoutThread = some w := by
  have ran : (failedSend.foldlM World.step World.initial).isSome = true := by decide +kernel
  obtain ⟨w, run⟩ := Option.isSome_iff_exists.mp ran
  have ends : (failedSend.foldlM World.step World.initial).map
      (fun w => (w.timeout, w.handling, w.result.resultStatus, w.result.isFinished,
        decide (w.setResultByTimeoutThread = some w))) = some (false, 0, 1, false, true) := by
    decide +kernel
  simp only [run, Option.map_some, Option.some.injEq, Prod.mk.injEq, decide_eq_true_eq] at ends
  obtain ⟨timeout, handling, status, running, stuck⟩ := ends
  refine ⟨w, run, fun sound => ?_, handling, status, running, stuck⟩
  have counts := sound.status
  rw [timeout, handling, status] at counts
  cases counts

end TxService.HandlerResult
