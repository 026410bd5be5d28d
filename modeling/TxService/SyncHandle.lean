import Mathlib.Data.List.Basic
import TxService.Transition

/-!
# The result handle of a data sync call

The number of tasks is added to the `DataSyncStatus` at the end, while workers already complete
tasks. Whoever brings the count to zero completes the handle of the caller.
-/

namespace TxService.SyncHandle

open Transition

universe u

variable {E : Type u}

/-- No code stands for `NO_ERROR`. -/
structure Status (E : Type u) where
  unfinishedTasks : Int := 0
  allTaskStarted : Bool := false
  errCode : Option E := none

/-- What the enqueuing thread does for a core, a range or a subrange. For a range of another node
group that is splitting into one of this node group it creates no task and records an error, as
messages forwarded to the new range cannot be flushed yet. -/
inductive SyncUnit (E : Type u)
  | created
  | skipped
  | forwarding (e : E)

def SyncUnit.recordsError : SyncUnit E → Bool
  | .forwarding _ => true
  | _ => false

/-- The enqueuing thread: the units it has still to go over and the tasks it has counted. -/
inductive Enqueuer (E : Type u)
  | noTable
  | enqueuing (units : List (SyncUnit E)) (taskCnt : Nat)
  | returned

def Enqueuer.recordsError : Enqueuer E → Bool
  | .enqueuing units _ => units.any SyncUnit.recordsError
  | _ => false

def enqueueDataSyncTaskForTable : Option (List (SyncUnit E)) → Enqueuer E
  | none => .noTable
  | some units => .enqueuing units 0

def enqueueDataSyncTaskForBucket (units : List (SyncUnit E)) : Enqueuer E := .enqueuing units 0

/-- The old range and one subrange for each new key. -/
def enqueueDataSyncTaskForSplittingRange (newKeys : Nat) : Enqueuer E :=
  .enqueuing (List.replicate (newKeys + 1) .created) 0

inductive EnqueueCall (E : Type u)
  | forTable (units : Option (List (SyncUnit E)))
  | forBucket (units : List (SyncUnit E))
  | forSplittingRange (newKeys : Nat)

def EnqueueCall.enqueuer : EnqueueCall E → Enqueuer E
  | .forTable units => enqueueDataSyncTaskForTable units
  | .forBucket units => enqueueDataSyncTaskForBucket units
  | .forSplittingRange newKeys => enqueueDataSyncTaskForSplittingRange newKeys

/-- `running` tasks have been created and are not completed; `handle` lists what the result
handle has been told, no code for `SetFinished`. -/
structure Call (E : Type u) where
  enqueuer : Enqueuer E
  status : Status E := {}
  running : Nat := 0
  handle : List (Option E) := []

def EnqueueCall.start (call : EnqueueCall E) : Call E := { enqueuer := call.enqueuer }

inductive Action (E : Type u)
  | enqueue
  | addTasks
  | setErrorCode (e : E)
  | setFinish
  | setError (e : E)

def Action.reportsError : Action E → Bool
  | .setErrorCode _ => true
  | .setError _ => true
  | _ => false

namespace Call

def complete (c : Call E) (outcome : Option E) : Call E :=
  { c with handle := c.handle ++ [outcome] }

/-- The last section of an enqueuing call, under the mutex of the status. -/
def addTasks (c : Call E) (taskCnt : Nat) : Call E :=
  let status :=
    { c.status with
      unfinishedTasks := c.status.unfinishedTasks + taskCnt
      allTaskStarted := true }
  let c := { c with enqueuer := .returned, status }
  if status.unfinishedTasks = 0 then c.complete none else c

/-- What `SetFinish` and `SetError` share: the last task tells the handle the recorded error. -/
def taskDone (c : Call E) (errCode : Option E) : Call E :=
  let status := { c.status with unfinishedTasks := c.status.unfinishedTasks - 1, errCode }
  let c := { c with status, running := c.running - 1 }
  if status.unfinishedTasks = 0 ∧ status.allTaskStarted then c.complete errCode else c

def setFinish (c : Call E) : Call E := c.taskDone c.status.errCode

def setError (c : Call E) (e : E) : Call E := c.taskDone (some e)

def setErrorCode (c : Call E) (e : E) : Call E :=
  { c with status := { c.status with errCode := some e } }

def enqueue (c : Call E) (units : List (SyncUnit E)) (taskCnt : Nat) : SyncUnit E → Call E
  | .created => { c with enqueuer := .enqueuing units (taskCnt + 1), running := c.running + 1 }
  | .skipped => { c with enqueuer := .enqueuing units taskCnt }
  | .forwarding e =>
    { c with enqueuer := .enqueuing units taskCnt, status := { c.status with errCode := some e } }

def step (c : Call E) : Action E → Option (Call E)
  | .enqueue =>
    match c.enqueuer with
    | .enqueuing (unit :: units) taskCnt => some (c.enqueue units taskCnt unit)
    | _ => none
  | .addTasks =>
    match c.enqueuer with
    | .noTable => some ({ c with enqueuer := .returned }.complete none)
    | .enqueuing [] taskCnt => some (c.addTasks taskCnt)
    | _ => none
  | .setErrorCode e => if c.running = 0 then none else some (c.setErrorCode e)
  | .setFinish => if c.running = 0 then none else some c.setFinish
  | .setError e => if c.running = 0 then none else some (c.setError e)

/-- The steps of the enqueuing thread and of the workers, in any order. -/
def Step (c : Call E) (a : Action E) (d : Call E) : Prop := c.step a = some d

def Ended (c : Call E) : Prop := c.enqueuer = .returned ∧ c.running = 0

/-- The handle is completed once, when everything has been completed, and with an error exactly
when a task has reported one. -/
structure ToldOutcome (c : Call E) (acts : List (Action E)) (final : Call E) : Prop where
  once : ∃ outcome, final.handle = [outcome] ∧ outcome.isSome = acts.any Action.reportsError
  last : ∀ before after d, acts = before ++ after → Run Step c before d → d.handle ≠ [] → d.Ended

/-- The counts, by where the enqueuing thread is. -/
inductive Counted (acts : List (Action E)) (c : Call E) : Prop
  | noTable : c.enqueuer = .noTable → c.running = 0 → c.handle = [] → Counted acts c
  | enqueuing {units taskCnt} : c.enqueuer = .enqueuing units taskCnt → c.handle = [] →
      c.status.allTaskStarted = false → c.status.unfinishedTasks + taskCnt = c.running →
      Counted acts c
  | waiting : c.enqueuer = .returned → c.handle = [] → c.status.allTaskStarted = true →
      c.status.unfinishedTasks = c.running → 0 < c.running → Counted acts c
  | byEnqueuer {before} : c.Ended → acts = before ++ [.addTasks] → c.handle = [none] →
      Counted acts c
  | byWorker {before a} : c.Ended → acts = before ++ [a] → a ≠ .addTasks →
      c.handle = [c.status.errCode] → Counted acts c

/-- An error stays in the status, whoever recorded it. -/
def ErrorKept (call : EnqueueCall E) (acts : List (Action E)) (c : Call E) : Prop :=
  (c.status.errCode.isSome || c.enqueuer.recordsError) =
    (acts.any Action.reportsError || call.enqueuer.recordsError)

variable {call : EnqueueCall E} {acts : List (Action E)} {c d : Call E}

theorem Counted.start (call : EnqueueCall E) : Counted [] call.start := by
  cases call with
  | forTable units =>
    cases units with
    | none => exact .noTable rfl rfl rfl
    | some units => exact .enqueuing rfl rfl rfl rfl
  | forBucket units => exact .enqueuing rfl rfl rfl rfl
  | forSplittingRange newKeys => exact .enqueuing rfl rfl rfl rfl

variable {units : List (SyncUnit E)} {taskCnt : Nat} {a : Action E}

section
variable (counted : Counted acts c)
include counted

theorem Counted.of_enqueuing (here : c.enqueuer = .enqueuing units taskCnt) :
    c.handle = [] ∧ c.status.allTaskStarted = false ∧
      c.status.unfinishedTasks + taskCnt = c.running := by
  cases counted with
  | noTable gone => simp [gone] at here
  | enqueuing loop silent started count =>
    obtain ⟨rfl, rfl⟩ : _ = units ∧ _ = taskCnt := by simpa [loop] using here
    exact ⟨silent, started, count⟩
  | waiting back => simp [back] at here
  | byEnqueuer ended => simp [ended.1] at here
  | byWorker ended => simp [ended.1] at here

/-- Once the handle has been told anything, no thread is left. -/
theorem Counted.ended_of_told (told : c.handle ≠ []) : c.Ended := by
  cases counted with
  | noTable _ _ silent => exact absurd silent told
  | enqueuing _ silent => exact absurd silent told
  | waiting _ silent => exact absurd silent told
  | byEnqueuer ended => exact ended
  | byWorker ended => exact ended

theorem Counted.enqueue {unit : SyncUnit E} (here : c.enqueuer = .enqueuing (unit :: units) taskCnt) :
    Counted (acts ++ [.enqueue]) (c.enqueue units taskCnt unit) := by
  obtain ⟨silent, started, count⟩ := counted.of_enqueuing here
  cases unit with
  | created =>
    have grown : c.status.unfinishedTasks + ((taskCnt + 1 : Nat) : Int) = (c.running + 1 : Nat) := by
      omega
    exact .enqueuing rfl silent started grown
  | skipped | forwarding => exact .enqueuing rfl silent started count

theorem Counted.addTasks (here : c.enqueuer = .enqueuing [] taskCnt) :
    Counted (acts ++ [.addTasks]) (c.addTasks taskCnt) := by
  obtain ⟨silent, _, count⟩ := counted.of_enqueuing here
  unfold Call.addTasks
  by_cases none_left : c.status.unfinishedTasks + (taskCnt : Int) = 0
  · simp only [none_left, if_true]
    exact .byEnqueuer ⟨rfl, show c.running = 0 by omega⟩ rfl (by simp [complete, silent])
  · simp only [none_left, if_false]
    exact .waiting rfl silent rfl count (show 0 < c.running by omega)

/-- A worker completes a task while tasks are still being created, while others are still
running, or as the last one. -/
theorem Counted.taskDone (worker : a ≠ .addTasks) (busy : c.running ≠ 0) (errCode : Option E) :
    Counted (acts ++ [a]) (c.taskDone errCode) := by
  unfold Call.taskDone
  cases counted with
  | noTable _ idle => exact absurd idle busy
  | @enqueuing _ taskCnt loop silent started count =>
    have fewer : c.status.unfinishedTasks - 1 + (taskCnt : Int) = (c.running - 1 : Nat) := by omega
    rw [if_neg (by simp [started])]
    exact .enqueuing loop silent started fewer
  | waiting back silent started count pos =>
    by_cases one : c.status.unfinishedTasks - 1 = 0
    · rw [if_pos ⟨one, started⟩]
      exact .byWorker ⟨back, show c.running - 1 = 0 by omega⟩ rfl worker (by simp [complete, silent])
    · have fewer : c.status.unfinishedTasks - 1 = (c.running - 1 : Nat) := by omega
      rw [if_neg (one ·.1)]
      exact .waiting back silent started fewer (show 0 < c.running - 1 by omega)
  | byEnqueuer ended => exact absurd ended.2 busy
  | byWorker ended => exact absurd ended.2 busy

theorem Counted.setErrorCode (busy : c.running ≠ 0) (e : E) :
    Counted (acts ++ [.setErrorCode e]) (c.setErrorCode e) := by
  cases counted with
  | noTable _ idle => exact absurd idle busy
  | enqueuing loop silent started count => exact .enqueuing loop silent started count
  | waiting back silent started count pos => exact .waiting back silent started count pos
  | byEnqueuer ended => exact absurd ended.2 busy
  | byWorker ended => exact absurd ended.2 busy

theorem Counted.step (stepped : Step c a d) :
    Counted (acts ++ [a]) d := by
  unfold Step Call.step at stepped
  cases a with
  | enqueue =>
    simp only at stepped
    split at stepped
    · rename_i here
      cases stepped
      exact counted.enqueue here
    · cases stepped
  | addTasks =>
    simp only at stepped
    split at stepped
    · rename_i here
      cases stepped
      cases counted with
      | noTable _ idle silent => exact .byEnqueuer ⟨rfl, idle⟩ rfl (by simp [complete, silent])
      | enqueuing loop => simp [loop] at here
      | waiting back => simp [back] at here
      | byEnqueuer ended => simp [ended.1] at here
      | byWorker ended => simp [ended.1] at here
    · rename_i here
      cases stepped
      exact counted.addTasks here
    · cases stepped
  | setErrorCode e =>
    obtain ⟨busy, rfl⟩ : c.running ≠ 0 ∧ c.setErrorCode e = d := by simpa using stepped
    exact counted.setErrorCode busy e
  | setFinish =>
    obtain ⟨busy, rfl⟩ : c.running ≠ 0 ∧ c.setFinish = d := by simpa using stepped
    exact counted.taskDone (by simp) busy _
  | setError e =>
    obtain ⟨busy, rfl⟩ : c.running ≠ 0 ∧ c.setError e = d := by simpa using stepped
    exact counted.taskDone (by simp) busy _

end

theorem taskDone_errCode (errCode : Option E) :
    (c.taskDone errCode).status.errCode = errCode ∧
      (c.taskDone errCode).enqueuer = c.enqueuer := by
  unfold Call.taskDone
  simp only
  split <;> exact ⟨rfl, rfl⟩

theorem ErrorKept.enqueue {unit : SyncUnit E} (kept : ErrorKept call acts c)
    (here : c.enqueuer = .enqueuing (unit :: units) taskCnt) :
    ErrorKept call acts (c.enqueue units taskCnt unit) := by
  unfold ErrorKept at kept ⊢
  rw [← kept, here]
  cases unit with
  | created | skipped => simp [Call.enqueue, Enqueuer.recordsError, SyncUnit.recordsError]
  | forwarding e => simp [Call.enqueue, Enqueuer.recordsError, SyncUnit.recordsError]

/-- The last section leaves the error alone. -/
theorem ErrorKept.addTasks (kept : ErrorKept call acts c)
    (here : c.enqueuer = .enqueuing [] taskCnt) : ErrorKept call acts (c.addTasks taskCnt) := by
  unfold ErrorKept at kept ⊢
  rw [← kept, here]
  unfold Call.addTasks
  simp only
  split <;> simp [complete, Enqueuer.recordsError]

theorem ErrorKept.quiet (kept : ErrorKept call acts c) (quiet : a.reportsError = false) :
    ErrorKept call (acts ++ [a]) c := by
  unfold ErrorKept at kept ⊢
  simpa [quiet] using kept

theorem ErrorKept.step (kept : ErrorKept call acts c) (stepped : Step c a d) :
    ErrorKept call (acts ++ [a]) d := by
  unfold Step Call.step at stepped
  cases a with
  | enqueue =>
    simp only at stepped
    split at stepped <;> cases stepped
    rename_i here
    exact (kept.enqueue here).quiet rfl
  | addTasks =>
    apply ErrorKept.quiet _ rfl
    simp only at stepped
    split at stepped <;> cases stepped
    · rename_i here
      unfold ErrorKept at kept ⊢
      rw [← kept, here]
      rfl
    · rename_i here
      exact kept.addTasks here
  | setErrorCode e =>
    obtain ⟨_, rfl⟩ : c.running ≠ 0 ∧ c.setErrorCode e = d := by simpa using stepped
    simp [ErrorKept, Call.setErrorCode, Action.reportsError]
  | setFinish =>
    obtain ⟨_, rfl⟩ : c.running ≠ 0 ∧ c.setFinish = d := by simpa using stepped
    apply ErrorKept.quiet _ rfl
    unfold ErrorKept at kept ⊢
    rw [setFinish, (taskDone_errCode _).1, (taskDone_errCode _).2, kept]
  | setError e =>
    obtain ⟨_, rfl⟩ : c.running ≠ 0 ∧ c.setError e = d := by simpa using stepped
    simp [ErrorKept, setError, taskDone_errCode, Action.reportsError]

theorem run_counted (run : Run Step call.start acts d) :
    Counted acts d ∧ ErrorKept call acts d := by
  refine Run.history (P := fun acts d => Counted acts d ∧ ErrorKept call acts d) run ?_ ?_
  · exact ⟨.start call, rfl⟩
  · rintro acts c a d stepped ⟨counted, kept⟩
    exact ⟨counted.step stepped, kept.step stepped⟩

/-- The enqueuing thread does not look at the error of the status: when every task was completed
before it added the tasks, it tells of success. A worker tells of any error, also of one that the
enqueuing thread recorded. -/
theorem told_outcome_iff (call : EnqueueCall E) (acts : List (Action E)) (final : Call E)
    (run : Run Step call.start acts final) (ended : final.Ended) :
    ToldOutcome call.start acts final ↔
      (acts.getLast? = some .addTasks → acts.any Action.reportsError = false) ∧
        (acts.getLast? ≠ some .addTasks → call.enqueuer.recordsError = true →
          acts.any Action.reportsError = true) := by
  have last : ∀ before after d, acts = before ++ after → Run Step call.start before d →
      d.handle ≠ [] → d.Ended :=
    fun _ _ _ _ earlier told => (run_counted earlier).1.ended_of_told told
  obtain ⟨counted, kept⟩ := run_counted run
  have outcome_iff {outcome : Option E} (told : final.handle = [outcome]) :
      ToldOutcome call.start acts final ↔ outcome.isSome = acts.any Action.reportsError := by
    constructor
    · rintro ⟨⟨outcome', only, truth⟩, -⟩
      obtain rfl : outcome = outcome' := by simpa [told] using only
      exact truth
    · exact fun truth => ⟨⟨outcome, told, truth⟩, last⟩
  cases counted with
  | noTable gone => cases gone.symm.trans ended.1
  | enqueuing loop => cases loop.symm.trans ended.1
  | waiting _ _ _ _ pos => exact absurd ended.2 (Nat.ne_of_gt pos)
  | byEnqueuer _ shape told =>
    have section_last : acts.getLast? = some .addTasks := by rw [shape, List.getLast?_concat]
    rw [outcome_iff told]
    cases acts.any Action.reportsError <;> simp [section_last]
  | byWorker _ shape worker told =>
    have worker_last : acts.getLast? ≠ some .addTasks := by
      rw [shape, List.getLast?_concat]
      exact fun same => worker (Option.some.inj same)
    have recorded : final.status.errCode.isSome =
        (acts.any Action.reportsError || call.enqueuer.recordsError) := by
      have none_left : final.enqueuer.recordsError = false := by rw [ended.1]; rfl
      unfold ErrorKept at kept
      rwa [none_left, Bool.or_false] at kept
    rw [outcome_iff told, recorded]
    cases acts.any Action.reportsError <;> simp [worker_last]

/-- Two ranges of a bucket, one of which is forwarding. The task of the other one is completed after
the tasks were added. -/
theorem told_outcome_iff_late :
    ToldOutcome (EnqueueCall.forBucket [.created, .forwarding ()]).start
      [.enqueue, .enqueue, .addTasks, .setError ()]
      ⟨.returned, ⟨0, true, some ()⟩, 0, [some ()]⟩ :=
  (told_outcome_iff _ _ _
    (.cons (rfl : Call.step _ _ = some ⟨.enqueuing [.forwarding ()] 1, ⟨0, false, none⟩, 1, []⟩)
      (.cons (rfl : Call.step _ _ = some ⟨.enqueuing [] 1, ⟨0, false, some ()⟩, 1, []⟩)
        (.cons (rfl : Call.step _ _ = some ⟨.returned, ⟨1, true, some ()⟩, 1, []⟩)
          (.cons (rfl : Call.step _ (.setError ()) = _) (.nil _))))) ⟨rfl, rfl⟩).mpr
    ⟨by simp, fun _ _ => rfl⟩

/-- The only task fails before the tasks are added: the caller is told of success. -/
theorem early_error_lost :
    ∃ final : Call Unit, Run Step (EnqueueCall.forBucket [.created]).start
        [.enqueue, .setError (), .addTasks] final ∧ final.Ended ∧
      ¬ ToldOutcome (EnqueueCall.forBucket [.created]).start [.enqueue, .setError (), .addTasks] final := by
  refine ⟨⟨.returned, ⟨0, true, some ()⟩, 0, [none]⟩, ?_, ⟨rfl, rfl⟩, ?_⟩
  · exact .cons (rfl : Call.step _ _ = some ⟨.enqueuing [] 1, ⟨0, false, none⟩, 1, []⟩)
      (.cons (rfl : Call.step _ _ = some ⟨.enqueuing [] 1, ⟨-1, false, some ()⟩, 0, []⟩)
        (.cons rfl (.nil _)))
  · rintro ⟨⟨outcome, only, truth⟩, _⟩
    obtain rfl : none = outcome := by simpa using only
    simp [Action.reportsError] at truth

end Call

end TxService.SyncHandle
