import Mathlib.Data.List.Perm.Subperm
import TxService.ResponseErrors

/-!
# The error code of a finished operation

In every run the error code comes from a participant, and an error is lost only between the response
and the result.
-/

namespace TxService.HandlerResult

open Transition

/-- The threads that have lowered the reference count. -/
def World.done (w : World) : Nat := w.threads.countP fun t => t.pc.counted

/-- The thread still carries the error of its participant, or it has set an error. -/
def Carries (type : ResponseType) (errorCode : Option CcErrorCode) (p : Participant) (pc : Pc) :
    Prop :=
  pc.carried = p.carried type ∨
    pc.carried = none ∧ ((p.carried type).isSome → errorCode.isSome)

variable {p : Participant} {pc : Pc}

theorem Carries.mono {type : ResponseType} {code code' : Option CcErrorCode}
    (carries : Carries type code p pc) (grows : code.isSome → code'.isSome) :
    Carries type code' p pc :=
  carries.imp id fun ⟨empty, sets⟩ => ⟨empty, fun error => grows (sets error)⟩

/-- What every step of an operation keeps. -/
structure Merging (op : Operation) (w : Wait) : Prop where
  members : (w.arrived ++ w.pending).Subperm op.participants
  aligned : w.world.threads.length = w.arrived.length
  refCnted : w.world.result.refCnted = true
  refCnt : w.world.result.refCnt = UInt32.ofNat (op.participants.length - w.world.done)
  carries : ∀ (i : Nat) t p, w.world.threads[i]? = some t → w.arrived[i]? = some p →
    Carries op.type w.world.result.errorCode p t.pc
  code : ∀ c, w.world.result.errorCode = some c →
    (∃ p ∈ w.arrived, p.carried op.type = some c) ∨ w.forced = true ∧ c = .forceFail
  last : ∀ t ∈ w.world.threads, t.pc = .casFinished → w.world.done = op.participants.length
  finished : w.world.result.isFinished = true →
    w.forced = true ∨ w.world.done = op.participants.length
  forced : w.forced = true → w.world.tx = .forceErrorCode ∨ w.world.result.errorCode.isSome
  forcing : w.world.tx = .forceErrorCode → w.forced = true

variable {op : Operation} {w v : Wait}

theorem merging_start (op : Operation) : Merging op op.start where
  members := List.Subperm.refl _
  aligned := rfl
  refCnted := rfl
  refCnt := rfl
  carries _ _ _ there := by cases there
  code _ set := by cases set
  last _ there := by cases there
  finished done := by cases done
  forced forced := by cases forced
  forcing forcing := by cases forcing

theorem Merging.length_le (merging : Merging op w) :
    w.world.threads.length ≤ op.participants.length := by
  have bound := merging.members.length_le
  rw [List.length_append] at bound
  rw [merging.aligned]
  omega

theorem Merging.arrive (merging : Merging op w) {k : Nat}
    (h : w.step op.type (.arrive k) = some v) : Merging op v := by
  obtain ⟨p, listed, h⟩ := Option.bind_eq_some_iff.mp h
  obtain ⟨world, entered, h⟩ := Option.bind_eq_some_iff.mp h
  cases h
  obtain ⟨bound, rfl⟩ := List.getElem?_eq_some_iff.mp listed
  rcases w.world.step_action op.type w.pending[k] with same | ⟨t, status, new, carried, uncounted⟩
  · cases entered.symm.trans same
    simp only [if_true]
    refine { merging with members := List.Subperm.trans ?_ merging.members }
    exact ((List.eraseIdx_sublist _ _).append_left _).subperm
  · cases entered.symm.trans new
    have longer : (w.world.threads ++ [t]).length ≠ w.world.threads.length := by simp
    simp only [if_neg longer]
    have done : (w.world.threads ++ [t]).countP (fun t => t.pc.counted) = w.world.done := by
      rw [List.countP_append, List.countP_singleton, uncounted]
      rfl
    constructor
    · refine List.Subperm.trans (List.Perm.subperm ?_) merging.members
      rw [List.append_assoc]
      refine List.Perm.append_left _ ?_
      exact (List.getElem_cons_eraseIdx_perm bound)
    · simp [merging.aligned]
    · exact merging.refCnted
    · rw [World.done, done]
      exact merging.refCnt
    · intro i t' p' there there'
      by_cases old : i < w.world.threads.length
      · rw [List.getElem?_append_left old] at there
        rw [List.getElem?_append_left (merging.aligned ▸ old)] at there'
        exact merging.carries i t' p' there there'
      · have here : i = w.world.threads.length := by
          have := (List.getElem?_eq_some_iff.mp there).1
          simp only [List.length_append, List.length_singleton] at this
          omega
        subst here
        rw [List.getElem?_concat_length] at there
        rw [merging.aligned, List.getElem?_concat_length] at there'
        cases there
        cases there'
        exact .inl carried
    · intro c set
      refine (merging.code c set).imp_left fun ⟨p', there, sets⟩ => ?_
      exact ⟨p', List.mem_append_left _ there, sets⟩
    · intro t' there cas
      rw [World.done, done]
      rcases List.mem_append.mp there with old | new
      · exact merging.last t' old cas
      · rw [List.mem_singleton.mp new] at cas
        rw [cas] at uncounted
        cases uncounted
    · rw [World.done, done]
      exact merging.finished
    · exact merging.forced
    · exact merging.forcing

theorem ofNat_sub_one {n d : Nat} (below : d < n) :
    UInt32.ofNat (n - d) - 1 = UInt32.ofNat (n - (d + 1)) := by
  have split : n - d = n - (d + 1) + 1 := by omega
  rw [split, UInt32.ofNat_add]
  simp

variable {i : Nat} {t : Thread} {world : World}

/-- The reference count goes with the threads that have lowered it, and the exchange comes after the
last one. -/
theorem Merging.moved_counts (merging : Merging op w) (here : w.world.threads[i]? = some t)
    (completes : Completes w.world t world pc) {done : Nat}
    (now : done = (w.world.threads.set i { t with pc := pc }).countP fun t => t.pc.counted) :
    world.result.refCnt = UInt32.ofNat (op.participants.length - done) ∧
      (pc = .casFinished → done = op.participants.length) ∧
      (w.world.done = op.participants.length → done = op.participants.length) := by
  have counts := countP_set_add (fun t : Thread => t.pc.counted) here { t with pc := pc }
  have before := merging.refCnt
  have most : done ≤ op.participants.length := by
    rw [now]
    refine Nat.le_trans List.countP_le_length ?_
    rw [List.length_set]
    exact merging.length_le
  rw [← now] at counts
  change done + t.pc.counted.toNat = w.world.done + pc.counted.toNat at counts
  rcases completes.counts with ⟨same, counted, other⟩ | ⟨lower, uncounted, counted, last⟩
  · have unchanged : done = w.world.done := by
      rw [counted] at counts
      omega
    exact ⟨by rw [same, before, unchanged], fun cas => absurd cas other, fun all => by omega⟩
  · have one_more : done = w.world.done + 1 := by
      simpa only [counted, uncounted, Bool.toNat_true, Bool.toNat_false, Nat.add_zero] using counts
    refine ⟨?_, fun cas => ?_, fun all => by omega⟩
    · rw [lower, before, one_more]
      exact ofNat_sub_one (by omega)
    · have one := congrArg UInt32.toNat ((last cas).symm.trans before)
      have bound := op.fits
      simp only [UInt32.toNat_one, UInt32.toNat_ofNat'] at one
      rw [Nat.mod_eq_of_lt (by omega)] at one
      omega

theorem Completes.code_isSome {world world' : World} (completes : Completes world t world' pc)
    (set : world.result.errorCode.isSome) :
    world'.result.errorCode.isSome := by
  rcases completes.code with ⟨same, -⟩ | ⟨e, -, code, -⟩
  · rwa [same]
  · simp [code]

theorem Merging.moved_code (merging : Merging op w) (here : w.world.threads[i]? = some t)
    (completes : Completes w.world t world pc) {c : CcErrorCode}
    (set : world.result.errorCode = some c) :
    (∃ p ∈ w.arrived, p.carried op.type = some c) ∨ w.forced = true ∧ c = .forceFail := by
  rcases completes.code with ⟨same, -⟩ | ⟨e, carried, code, -⟩
  · exact merging.code c (same ▸ set)
  · cases old : w.world.result.errorCode with
    | some c' =>
      rw [code, old, Option.some_or] at set
      exact merging.code c (old.trans set)
    | none =>
      rw [code, old, Option.none_or] at set
      cases set
      obtain ⟨p, there⟩ : ∃ p, w.arrived[i]? = some p := by
        have bound := (List.getElem?_eq_some_iff.mp here).1
        rw [merging.aligned] at bound
        exact ⟨w.arrived[i], List.getElem?_eq_getElem bound⟩
      rcases merging.carries i t p here there with sets | ⟨empty, -⟩
      · exact .inl ⟨p, List.mem_of_getElem? there, sets.symm.trans carried⟩
      · rw [empty] at carried
        cases carried

theorem Merging.move (merging : Merging op w) (h : w.step op.type (.move i) = some v) :
    Merging op v := by
  obtain ⟨world, moved, h⟩ := Option.bind_eq_some_iff.mp h
  cases h
  obtain ⟨t, here, moved⟩ := Option.bind_eq_some_iff.mp moved
  obtain ⟨⟨world, pc⟩, operated, moved⟩ := Option.bind_eq_some_iff.mp moved
  cases moved
  have completes := Completes.of_operate merging.refCnted operated
  rw [completes.threads]
  obtain ⟨refCnt, last, stays⟩ := merging.moved_counts here completes rfl
  constructor
  · exact merging.members
  · rw [List.length_set]
    exact merging.aligned
  · exact completes.refCnted.trans merging.refCnted
  · exact refCnt
  · intro j t' p there there'
    by_cases same : i = j
    · subst same
      rw [List.getElem?_set_self (List.getElem?_eq_some_iff.mp here).1] at there
      cases there
      have carries := merging.carries i t p here there'
      rcases completes.code with ⟨same, carried⟩ | ⟨e, -, code, empty⟩
      · simp only [Carries, same, carried]
        exact carries
      · exact .inr ⟨empty, fun _ => by simp [code]⟩
    · rw [List.getElem?_set_ne same] at there
      exact (merging.carries j t' p there there').mono completes.code_isSome
  · exact fun c set => merging.moved_code here completes set
  · intro t' there cas
    rcases List.mem_or_eq_of_mem_set there with old | rfl
    · exact stays (merging.last t' old cas)
    · exact last cas
  · intro finished
    rcases completes.finishes finished with before | cas
    · exact (merging.finished before).imp_right stays
    · exact .inr (stays (merging.last t (List.mem_of_getElem? here) cas))
  · exact fun forced => (merging.forced forced).imp (completes.tx.trans ·) completes.code_isSome
  · exact fun forcing => merging.forcing (completes.tx ▸ forcing)

/-- A step of the transaction's thread that changes no more than the status of the result. -/
theorem Merging.status (merging : Merging op w) (threads : world.threads = w.world.threads)
    (result : world.result = { w.world.result with resultStatus := world.result.resultStatus })
    (before : w.world.tx ≠ .forceErrorCode) (after : world.tx ≠ .forceErrorCode) :
    Merging op { w with world := world } := by
  have done : world.done = w.world.done := by rw [World.done, threads, World.done]
  constructor
  · exact merging.members
  · rw [threads]
    exact merging.aligned
  · rw [result]
    exact merging.refCnted
  · rw [result, done]
    exact merging.refCnt
  · rw [result, threads]
    exact merging.carries
  · rw [result]
    exact merging.code
  · rw [threads, done]
    exact merging.last
  · rw [result, done]
    exact merging.finished
  · rw [result]
    exact fun forced => .inr ((merging.forced forced).resolve_left before)
  · exact fun forcing => absurd forcing after

/-- `ForceError` sets the flag and then the code; the other steps of a timeout change the status. -/
theorem Merging.timeout (merging : Merging op w) {a : Action}
    (h : w.step op.type (.timeout a) = some v) : Merging op v := by
  obtain ⟨timesOut, h⟩ := Option.ite_none_right_eq_some.mp h
  obtain ⟨world, moved, h⟩ := Option.bind_eq_some_iff.mp h
  cases h
  cases a with
  | loadStatus =>
    obtain ⟨waiting, moved⟩ := Option.ite_none_right_eq_some.mp moved
    cases moved
    rw [decide_eq_false (by nofun), Bool.false_and, Bool.or_false]
    refine merging.status rfl rfl (by rw [waiting]; nofun) ?_
    dsimp only
    split <;> nofun
  | casTimeout =>
    obtain ⟨trying, moved⟩ := Option.ite_none_right_eq_some.mp moved
    rw [decide_eq_false (by nofun), Bool.false_and, Bool.or_false]
    split at moved
    · cases moved
      exact merging.status rfl rfl (by rw [trying]; nofun) nofun
    · cases moved
      exact merging.status rfl rfl (by rw [trying]; nofun) nofun
  | forceError =>
    obtain ⟨timedOut, moved⟩ := Option.ite_none_right_eq_some.mp moved
    split at moved
    · cases moved
      rw [decide_eq_true rfl, decide_eq_false (by nofun), Bool.and_false, Bool.or_false]
      exact merging.status rfl rfl (by rw [timedOut]; nofun) nofun
    · cases moved
      rw [decide_eq_true rfl, decide_eq_true rfl, Bool.and_true, Bool.or_true]
      exact { merging with
        code := fun c set => (merging.code c set).imp_right fun h => ⟨rfl, h.2⟩
        finished := fun _ => .inl rfl
        forced := fun _ => .inl rfl
        forcing := fun _ => rfl }
  | unsetByTimeoutThread =>
    obtain ⟨timedOut, moved⟩ := Option.ite_none_right_eq_some.mp moved
    cases moved
    rw [decide_eq_false (by nofun), Bool.false_and, Bool.or_false]
    exact merging.status rfl rfl (by rw [timedOut]; nofun) nofun
  | forceErrorCode =>
    obtain ⟨forcing, moved⟩ := Option.ite_none_right_eq_some.mp moved
    cases moved
    rw [decide_eq_false (by nofun), Bool.false_and, Bool.or_false]
    exact { merging with
      carries := fun i t p there there' =>
        (merging.carries i t p there there').mono fun _ => by simp
      code := fun c set => by
        cases old : w.world.result.errorCode with
        | some c' =>
          rw [old] at set
          exact merging.code c (old.trans set)
        | none =>
          rw [old] at set
          cases set
          exact .inr ⟨merging.forcing forcing, rfl⟩
      forced := fun _ => .inr (by simp)
      forcing := nofun }
  | forceLambda =>
    obtain ⟨forcing, moved⟩ := Option.ite_none_right_eq_some.mp moved
    cases moved
    rw [decide_eq_false (by nofun), Bool.false_and, Bool.or_false]
    exact merging.status rfl rfl (by rw [forcing]; nofun) nofun
  | _ => cases timesOut

theorem Operation.Reached.merging (reached : op.Reached w) : Merging op w := by
  refine reached.invariant ?_ ?_
  · rintro _ rfl
    exact merging_start op
  · intro w e v h merging
    cases e with
    | arrive k => exact merging.arrive h
    | move i => exact merging.move h
    | timeout a => exact merging.timeout h

/-- When all participants have completed the result, each of their errors has been set. -/
theorem Merging.all_set (merging : Merging op w) (all : w.world.done = op.participants.length)
    (member : p ∈ op.participants) (error : (p.carried op.type).isSome) :
    w.world.result.errorCode.isSome := by
  have threads : w.world.threads.length = op.participants.length :=
    Nat.le_antisymm merging.length_le (all ▸ List.countP_le_length)
  have perm := merging.members.perm_of_length_le (by
    rw [List.length_append, ← merging.aligned]
    omega)
  have nobody : w.pending = [] := by
    have same := perm.length_eq
    rw [List.length_append, ← merging.aligned] at same
    exact List.eq_nil_of_length_eq_zero (by omega)
  rw [nobody, List.append_nil] at perm
  obtain ⟨i, bound, here⟩ := List.getElem_of_mem (perm.mem_iff.mpr member)
  have inside : i < w.world.threads.length := by
    rw [merging.aligned]
    exact bound
  have counted : w.world.threads[i].pc.counted = true := by
    have every := List.countP_eq_length.mp (all.trans threads.symm)
    exact every _ (List.getElem_mem inside)
  rcases merging.carries i _ p (List.getElem?_eq_getElem inside)
    (List.getElem?_eq_some_iff.mpr ⟨bound, here⟩) with same | ⟨-, set⟩
  · rw [← same, Pc.carried_of_counted counted] at error
    cases error
  · exact set error

/-- Whatever was reported is carried by a participant, unless only remote kickouts have failed. -/
theorem exists_carried (kept : ¬ Lost op) (member : p ∈ op.participants)
    (error : p.outcome.isSome) : ∃ q ∈ op.participants, (q.carried op.type).isSome := by
  by_cases kickout : op.type = .kickoutData
  · cases p with
    | localRequest errCode => exact ⟨_, member, error⟩
    | sendFailure => exact ⟨_, member, rfl⟩
    | response errorCode =>
      by_contra kicked
      push Not at kicked
      obtain ⟨e, failed⟩ := Option.isSome_iff_exists.mp error
      cases failed
      exact kept ⟨kickout, ⟨e, member⟩, fun e there => kicked _ there rfl,
        fun there => kicked _ there rfl⟩
  · refine ⟨p, member, ?_⟩
    cases p with
    | localRequest errCode => exact error
    | sendFailure => rfl
    | response errorCode =>
      rw [Participant.carried, if_neg kickout]
      exact error

theorem Merging.merged (merging : Merging op w) (kept : ¬ Lost op)
    (finished : w.world.result.isFinished = true) (idle : w.world.tx ≠ .forceErrorCode) :
    Merged op w := by
  have code : ∀ c, w.world.result.errorCode = some c →
      (∃ p ∈ op.participants, p.outcome = some c) ∨ w.forced = true ∧ c = .forceFail := by
    intro c set
    refine (merging.code c set).imp_left fun ⟨p, there, sets⟩ => ?_
    exact ⟨p, merging.members.subset (List.mem_append_left _ there), Participant.carried_eq sets⟩
  refine ⟨⟨fun set => ?_, ?_⟩, code⟩
  · obtain ⟨c, here⟩ := Option.isSome_iff_exists.mp set
    exact (code c here).imp (fun ⟨p, there, error⟩ => ⟨p, there, by rw [error]; rfl⟩) And.left
  · have forces : w.forced = true → w.world.result.errorCode.isSome := fun forced =>
      (merging.forced forced).resolve_left idle
    rintro (⟨p, there, error⟩ | forced)
    · obtain ⟨q, member, carried⟩ := exists_carried kept there error
      rcases merging.finished finished with forced | all
      · exact forces forced
      · exact merging.all_set all member carried
    · exact forces forced

theorem Operation.Reached.operate (reached : op.Reached w) (here : w.world.threads[i]? = some t)
    (operated : w.world.operate t = some (world, pc)) :
    op.Reached
      { w with world := { world with threads := world.threads.set i { t with pc := pc } } } := by
  have moves : w.step op.type (.move i) = some
      { w with world := { world with threads := world.threads.set i { t with pc := pc } } } := by
    simp [Wait.step, World.step, here, operated]
  exact reached.next moves

/-- So far `k` participants have completed the result, and none has set an error. -/
structure Quiet (op : Operation) (rest : List Participant) (k : Nat) (w : Wait) : Prop where
  reached : op.Reached w
  pending : w.pending = rest
  done : w.world.done = k
  status : 0 ≤ w.world.result.resultStatus
  code : w.world.result.errorCode = none
  tx : w.world.tx = .waiting

variable {rest : List Participant} {k : Nat}

theorem Quiet.enter (quiet : Quiet op (p :: rest) k w) (silent : p.carried op.type = none) :
    ∃ (v : Wait) (i : Nat) (task : Task) (remote : Bool), Quiet op rest k v ∧
      v.world.threads[i]? = some ⟨task, complete remote none⟩ := by
  have opened : w.world.result.resultStatus ≠ -1 := by
    have := quiet.status
    omega
  have entered : ∃ task remote status, 0 ≤ status ∧ w.world.step (p.action op.type) =
      some { w.world with
        result := { w.world.result with resultStatus := status }
        threads := w.world.threads ++ [⟨task, complete remote none⟩] } := by
    cases p with
    | localRequest errCode =>
      cases silent
      exact ⟨.localRequest, false, _, quiet.status, rfl⟩
    | sendFailure => cases silent
    | response errorCode =>
      have handled : ∃ remote, onReceiveCcMsg op.type errorCode =
          .enterResponse true remote (Participant.carried op.type (.response errorCode)) := by
        cases op.type <;> cases errorCode <;> exact ⟨_, rfl⟩
      obtain ⟨remote, handled⟩ := handled
      refine ⟨.response, remote, w.world.result.resultStatus + 1, by have := quiet.status; omega, ?_⟩
      rw [Participant.action, handled, silent]
      simp [World.step, World.setResultByStreamThread, opened]
  obtain ⟨task, remote, status, positive, entered⟩ := entered
  have arrives : w.step op.type (.arrive 0) = some
      { w with
        world := { w.world with
          result := { w.world.result with resultStatus := status }
          threads := w.world.threads ++ [⟨task, complete remote none⟩] }
        pending := rest
        arrived := w.arrived ++ [p] } := by
    simp [Wait.step, quiet.pending, entered]
  refine ⟨_, w.world.threads.length, task, remote,
    ⟨quiet.reached.next arrives, rfl, ?_, positive, quiet.code, quiet.tx⟩,
    List.getElem?_concat_length ..⟩
  have done := quiet.done
  simp only [World.done, List.countP_append, List.countP_singleton,
    (complete_carried remote none).2] at done ⊢
  exact done

theorem Quiet.remoteRef {task : Task} (quiet : Quiet op rest k w)
    (here : w.world.threads[i]? = some ⟨task, .remoteRef none⟩) :
    ∃ v, Quiet op rest k v ∧ v.world.threads[i]? = some ⟨task, .setFinished⟩ := by
  have counts := countP_set_add (fun t : Thread => t.pc.counted) here ⟨task, .setFinished⟩
  refine ⟨_, ⟨quiet.reached.operate here rfl, quiet.pending, ?_, quiet.status, quiet.code, quiet.tx⟩,
    List.getElem?_set_self (List.getElem?_eq_some_iff.mp here).1⟩
  exact counts.trans quiet.done

theorem Quiet.setFinished {task : Task} (quiet : Quiet op rest k w)
    (here : w.world.threads[i]? = some ⟨task, .setFinished⟩) :
    ∃ v, Quiet op rest (k + 1) v ∧
      (k + 1 = op.participants.length → v.world.result.isFinished = true) := by
  have merging := quiet.reached.merging
  have refCnt := merging.refCnt
  rw [quiet.done] at refCnt
  have done := quiet.done
  have operated : w.world.operate ⟨task, .setFinished⟩ = some
      ({ w.world with
        completions := w.world.completions + 1
        result := { w.world.result with refCnt := w.world.result.refCnt - 1 } },
        if w.world.result.refCnt = 1 then .casFinished else task.exit) := by
    simp only [World.operate, merging.refCnted, if_true]
  by_cases last : k + 1 = op.participants.length
  · have one : w.world.result.refCnt = 1 := by
      rw [refCnt, ← last, Nat.add_sub_cancel_left]
      rfl
    rw [if_pos one] at operated
    have counts := countP_set_add (fun t : Thread => t.pc.counted) here ⟨task, .casFinished⟩
    have lowered := quiet.reached.operate here operated
    cases past : w.world.result.isFinished with
    | true =>
      refine ⟨_, ⟨lowered, quiet.pending, ?_, quiet.status, quiet.code, quiet.tx⟩, fun _ => past⟩
      rw [← done]
      exact counts
    | false =>
      have there : (w.world.threads.set i ⟨task, .casFinished⟩)[i]? = some ⟨task, .casFinished⟩ :=
        List.getElem?_set_self (List.getElem?_eq_some_iff.mp here).1
      have counts' := countP_set_add (fun t : Thread => t.pc.counted) there ⟨task, .postLambda⟩
      refine ⟨_, ⟨lowered.operate there (if_neg (by rw [past]; exact Bool.false_ne_true)), quiet.pending, ?_,
        quiet.status, quiet.code, quiet.tx⟩, fun _ => rfl⟩
      rw [← done]
      exact Nat.add_right_cancel (counts'.trans (congrArg (· + 1) counts))
  · have more : w.world.result.refCnt ≠ 1 := by
      intro one
      have value := congrArg UInt32.toNat (one.symm.trans refCnt)
      have bound := op.fits
      simp only [UInt32.toNat_one, UInt32.toNat_ofNat'] at value
      rw [Nat.mod_eq_of_lt (by omega)] at value
      omega
    rw [if_neg more] at operated
    have counts := countP_set_add (fun t : Thread => t.pc.counted) here ⟨task, task.exit⟩
    rw [(exit_counted task).1] at counts
    refine ⟨_, ⟨quiet.reached.operate here operated, quiet.pending, ?_, quiet.status, quiet.code,
      quiet.tx⟩, fun all => absurd all last⟩
    rw [← done]
    exact counts

theorem Quiet.complete (quiet : Quiet op (p :: rest) k w) (silent : p.carried op.type = none) :
    ∃ v, Quiet op rest (k + 1) v ∧
      (k + 1 = op.participants.length → v.world.result.isFinished = true) := by
  obtain ⟨v, i, task, remote, entered, here⟩ := quiet.enter silent
  cases remote with
  | false => exact entered.setFinished here
  | true =>
    obtain ⟨v', lowered, here⟩ := entered.remoteRef here
    exact lowered.setFinished here

theorem Quiet.run (quiet : Quiet op rest k w) (all : k + rest.length = op.participants.length)
    (silent : ∀ p ∈ rest, p.carried op.type = none)
    (past : k = op.participants.length → w.world.result.isFinished = true) :
    ∃ v, Quiet op [] op.participants.length v ∧ v.world.result.isFinished = true := by
  induction rest generalizing k w with
  | nil =>
    rw [List.length_nil, Nat.add_zero] at all
    exact ⟨w, all ▸ quiet, past all⟩
  | cons p rest ih =>
    obtain ⟨v, next, finished⟩ := quiet.complete (silent p List.mem_cons_self)
    refine ih next ?_ (fun q there => silent q (List.mem_cons_of_mem _ there)) finished
    rw [List.length_cons] at all
    omega

theorem Lost.not_merged (lost : Lost op) :
    ∃ w, op.Reached w ∧ w.world.result.isFinished = true ∧ w.world.tx ≠ .forceErrorCode ∧
      ¬ Merged op w := by
  have start : Quiet op op.participants 0 op.start :=
    ⟨.start rfl, rfl, rfl, Int.le_refl 0, rfl, rfl⟩
  obtain ⟨e, failed⟩ := lost.failed
  have silent : ∀ p ∈ op.participants, p.carried op.type = none := by
    intro p there
    cases p with
    | localRequest errCode =>
      cases errCode with
      | none => rfl
      | some e => exact absurd there (lost.requests e)
    | response errorCode => rw [Participant.carried, if_pos lost.kickout]
    | sendFailure => exact absurd there lost.messages
  obtain ⟨v, quiet, finished⟩ := start.run (Nat.zero_add _) silent fun nothing => by
    rw [List.eq_nil_of_length_eq_zero nothing.symm] at failed
    cases failed
  refine ⟨v, quiet.reached, finished, by rw [quiet.tx]; rintro ⟨⟩, fun merged => ?_⟩
  have error := merged.error.mpr (.inl ⟨_, failed, rfl⟩)
  rw [quiet.code] at error
  cases error

/-- For each type of response and in every run of the completions and the timeout, the result is
finished with an error exactly when a participant failed or the wait was forced to fail, unless
remote kickouts have failed and nothing else. -/
theorem remote_errors_merged_iff (op : Operation) :
    (∀ w, op.Reached w → w.world.result.isFinished = true → w.world.tx ≠ .forceErrorCode →
      Merged op w) ↔ ¬ Lost op := by
  constructor
  · intro merged lost
    obtain ⟨w, reached, finished, idle, not_merged⟩ := lost.not_merged
    exact not_merged (merged w reached finished idle)
  · exact fun kept w reached finished idle => reached.merging.merged kept finished idle

/-- One remote kickout, which has failed at a node that is no longer the leader. -/
def failedKickout : Operation where
  type := .kickoutData
  participants := [.response (some .requestedNodeNotLeader)]
  fits := by decide

/-- The failed kickout finishes the result without an error. -/
theorem failed_kickout_succeeds : ∃ w, failedKickout.Reached w ∧
    w.world.result.isFinished = true ∧ w.world.tx = .waiting ∧ w.forced = false ∧
      w.world.result.errorCode = none := by
  let events : List Event := [.arrive 0, .move 0, .move 0, .move 0]
  have start : failedKickout.Reached failedKickout.start := .start rfl
  exact ⟨_, start.run (Run.of_foldlM (Wait.step .kickoutData) (fun _ _ _ h => h)
    (rfl : events.foldlM (Wait.step .kickoutData) failedKickout.start = some _)),
    rfl, rfl, rfl, rfl⟩

end TxService.HandlerResult
