import Mathlib.Algebra.Order.BigOperators.Group.Finset
import Mathlib.Data.Fintype.Basic
import TxService.FiniteTable
import TxService.ScanRetries

/-!
# The memory quota of flushes

A round of a scan takes quota of the `DataSyncMemoryController` and its flush task gives it back. A
round that is not handed over keeps it for good.
-/

namespace TxService

open Transition

universe u

structure DataSyncMemoryController where
  flushDataMemUsage : Nat := 0
  flushDataMemQuota : Nat
  deriving DecidableEq, Repr

namespace DataSyncMemoryController

/-- A request above the whole quota is never refused. -/
def hasEnoughMemory (c : DataSyncMemoryController) (quota : Nat) : Bool :=
  decide (c.flushDataMemUsage + quota ≤ c.flushDataMemQuota) || decide (c.flushDataMemQuota < quota)

/-- The caller waits while there is no result. -/
def allocateFlushDataMemQuota (c : DataSyncMemoryController) (quota : Nat) :
    Option DataSyncMemoryController :=
  if c.hasEnoughMemory quota then
    some { c with flushDataMemUsage := c.flushDataMemUsage + quota }
  else none

def deallocateFlushMemQuota (c : DataSyncMemoryController) (quota : Nat) :
    DataSyncMemoryController :=
  { c with flushDataMemUsage := c.flushDataMemUsage - quota }

end DataSyncMemoryController

/-- The tasks of a worker and its controller. `lost` adds up the quota of the rounds that were
not handed over. -/
structure SyncWorker (ι : Type u) where
  memController : DataSyncMemoryController
  tasks : ι → SyncTask
  lost : Nat := 0

namespace SyncTask

/-- The quota that a step takes for the round that has been scanned. -/
def scanMemUsage (t : SyncTask) : Nat :=
  match t.place with
  | .scanned memUsage _ => memUsage
  | _ => 0

/-- The quota of the round that is to be handed over. -/
def roundQuota (t : SyncTask) : Nat :=
  match t.place with
  | .allocated memUsage _ => memUsage
  | _ => 0

/-- The quota of a round that is left behind by a step. -/
def givesUp (t : SyncTask) : SyncAction → Nat
  | .handOver => if t.ckptErr = some .flushError then t.roundQuota else 0
  | _ => 0

/-- What the step does to the controller. -/
def account (t : SyncTask) (c : DataSyncMemoryController) :
    SyncAction → Option DataSyncMemoryController
  | .allocate => c.allocateFlushDataMemQuota t.scanMemUsage
  | .flush i _ => some (c.deallocateFlushMemQuota (t.flushWork.getD i 0))
  | _ => some c

variable {t u : SyncTask} {a : SyncAction}

def held (t : SyncTask) : Nat := t.flushWork.sum + t.roundQuota

/-- Vectors are left over only after a flush task has failed. -/
def LeftoverFailed (t : SyncTask) : Prop :=
  ∀ memUsage, t.place = .drained (some memUsage) → t.ckptErr ≠ none

theorem roundQuota_of_idle (idle : t.place.scans = 0) : t.roundQuota = 0 := by
  unfold roundQuota
  split
  · rename_i place
    simp [place, TaskPlace.scans] at idle
  · rfl

theorem postProcess_flushWork (t : SyncTask) (err : Option CkptErrorCode) :
    (t.postProcess err).flushWork = t.flushWork := by
  unfold postProcess
  simp only
  split
  · split
    · rfl
    · cases t.duringSplitRange <;> rfl
    · rfl
  · rfl

theorem postProcess_held (err : Option CkptErrorCode)
    (count : t.flightTaskCnt = t.flushWork.length + t.uploads + t.place.scans + 1) :
    (t.postProcess err).held = t.held := by
  have works := postProcess_flushWork t err
  unfold held
  rw [works]
  congr 1
  unfold postProcess
  simp only
  split
  · rename_i last
    rw [roundQuota_of_idle (show t.place.scans = 0 by omega)]
    split
    · rfl
    · cases t.duringSplitRange <;> rfl
    · rfl
  · rfl

def takes (t : SyncTask) : SyncAction → Nat
  | .allocate => t.scanMemUsage
  | _ => 0

def returns (t : SyncTask) : SyncAction → Nat
  | .flush i _ => t.flushWork.getD i 0
  | _ => 0

/-- What the task holds and the controller is told of go together. -/
structure Accounted (t : SyncTask) (a : SyncAction) (u : SyncTask) : Prop where
  held : u.held + t.returns a + t.givesUp a = t.held + t.takes a
  leftover : LeftoverFailed u

theorem held_of_landed (flying : Flying t) (landed : t.place.landed = true) : t.held = 0 := by
  obtain ⟨-, empty, -, idle⟩ := flying.of_landed landed
  simp [SyncTask.held, empty, roundQuota_of_idle idle]

/-- A step between two places with nothing in flight. -/
theorem accounted_landed (flying : Flying t) (landed : t.place.landed = true) (flying' : Flying u)
    (landed' : u.place.landed = true) (plain : t.takes a = 0 ∧ t.returns a = 0 ∧ t.givesUp a = 0) :
    Accounted t a u := by
  refine ⟨?_, fun memUsage place => ?_⟩
  · rw [held_of_landed flying landed, held_of_landed flying' landed', plain.1, plain.2.1, plain.2.2]
  · simp [place, TaskPlace.landed] at landed'

theorem accounted_dataSync (flying : Flying t) (queued : t.place = .queued) (found : SyncStart) :
    Accounted t (.dataSync found) (t.dataSync found) := by
  have landed : t.place.landed = true := by rw [queued]; rfl
  have stepped : Step t (.dataSync found) (t.dataSync found) := by simp [Step, step, queued]
  have flying' := step_flying flying stepped
  cases dataSync_started t found with
  | waits _ _ _ landed' =>
    exact accounted_landed flying landed flying' landed' ⟨rfl, rfl, rfl⟩
  | tells _ _ told =>
    exact accounted_landed flying landed flying' (by rw [told.place]; rfl) ⟨rfl, rfl, rfl⟩
  | scans _ same _ place =>
    refine ⟨?_, fun memUsage drained => ?_⟩
    · have empty := (flying.of_landed landed).2.1
      rw [held_of_landed flying landed]
      simp [SyncTask.held, same.flushWork, empty, roundQuota, place, returns, givesUp, takes]
    · cases place.symm.trans drained

theorem leftover_postProcess (err : Option CkptErrorCode) (h : LeftoverFailed t) :
    LeftoverFailed (t.postProcess err) := by
  intro memUsage drained
  rw [postProcess_ckptErr]
  cases postProcess_processed t err with
  | waits place _ =>
    have failed := h memUsage (place ▸ drained)
    rwa [if_neg failed]
  | ends _ place _ | retries _ place _ | fails _ place _ => cases place.symm.trans drained

theorem accounted_leave (flying : Flying t) (scans : t.place.scans = 1) (quiet : t.roundQuota = 0)
    (err : Option CkptErrorCode)
    (plain : t.takes a = 0 ∧ t.returns a = 0 ∧ t.givesUp a = 0) : Accounted t a (t.leave err) := by
  have count := flying.count
  have left : SyncTask.held { t with place := .left } = t.held := by
    have none_ : roundQuota { t with place := .left } = 0 := rfl
    simp only [SyncTask.held, none_, quiet]
  refine ⟨?_, leftover_postProcess err nofun⟩
  unfold leave
  rw [postProcess_held err (by simp only [TaskPlace.scans]; omega), left, plain.1, plain.2.1, plain.2.2]

theorem accounted_scan (flying : Flying t) (place : t.place = .scanning) (round : SyncScan) :
    Accounted t (.scan round) (t.scan round) := by
  have scans : t.place.scans = 1 := by rw [place]; rfl
  have quiet : t.roundQuota = 0 := by simp [roundQuota, place]
  have fails : Accounted t (.scan round) (t.leave (some .scanError)) :=
    accounted_leave flying scans quiet _ ⟨rfl, rfl, rfl⟩
  have held : t.held = t.flushWork.sum := by simp [SyncTask.held, quiet]
  unfold SyncTask.scan
  split
  · split
    · exact fails
    · exact ⟨held.symm, nofun⟩
  · split
    · exact fails
    · cases t.forwardCache <;> simp only [if_true, if_false, Bool.false_eq_true] <;> split <;>
        exact ⟨held.symm, nofun⟩

theorem accounted_handOver {memUsage : Nat} {drained : Bool}
    (place : t.place = .allocated memUsage drained) :
    Accounted t .handOver (t.handOver memUsage drained) := by
  unfold SyncTask.handOver
  by_cases failed : t.ckptErr = some .flushError
  · rw [if_pos failed]
    refine ⟨?_, fun _ _ none_ => ?_⟩
    · simp [SyncTask.held, givesUp, failed, roundQuota, place, returns, takes]
    · cases failed.symm.trans none_
  · rw [if_neg failed]
    cases drained <;>
      exact ⟨by simp [SyncTask.held, givesUp, failed, roundQuota, place, returns, takes, addFlushWork],
        by rintro _ ⟨⟩⟩

theorem sum_eraseIdx {l : List Nat} {i : Nat} (bound : i < l.length) :
    (l.eraseIdx i).sum + l.getD i 0 = l.sum := by
  have total := (List.getElem_cons_eraseIdx_perm bound).sum_eq
  rw [List.sum_cons] at total
  rw [List.getD_eq_getElem?_getD, List.getElem?_eq_getElem bound, Option.getD_some]
  omega

theorem step_accounted (flying : Flying t) (h : LeftoverFailed t) (stepped : Step t a u) :
    Accounted t a u := by
  have flying' := step_flying flying stepped
  unfold Step step at stepped
  cases a with
  | dataSync found =>
    obtain ⟨queued, rfl⟩ : t.place = .queued ∧ t.dataSync found = u := by simpa using stepped
    exact accounted_dataSync flying queued found
  | scan round =>
    obtain ⟨place, rfl⟩ : t.place = .scanning ∧ t.scan round = u := by simpa using stepped
    exact accounted_scan flying place round
  | allocate =>
    simp only at stepped
    split at stepped <;> cases stepped
    rename_i place
    exact ⟨by simp [SyncTask.held, givesUp, roundQuota, place, returns, takes, scanMemUsage], nofun⟩
  | handOver =>
    simp only at stepped
    split at stepped <;> cases stepped
    rename_i place
    exact accounted_handOver place
  | flushLeft =>
    simp only at stepped
    split at stepped <;> cases stepped
    rename_i memUsage place
    unfold SyncTask.flushLeft
    rw [if_neg (h memUsage place)]
    exact ⟨by simp [SyncTask.held, givesUp, roundQuota, place, returns, takes], nofun⟩
  | endScan =>
    obtain ⟨place, rfl⟩ : t.place = .drained none ∧ t.leave none = u := by simpa using stepped
    exact accounted_leave flying (by rw [place]; rfl) (by simp [roundQuota, place]) none
      ⟨rfl, rfl, rfl⟩
  | flush i succ =>
    simp only [Option.ite_none_right_eq_some, Option.some.injEq] at stepped
    obtain ⟨bound, rfl⟩ := stepped
    have count := flying.count
    have fewer := List.length_eraseIdx_of_lt bound
    have total := sum_eraseIdx bound
    have kept : LeftoverFailed { t with flushWork := t.flushWork.eraseIdx i } := h
    refine ⟨?_, leftover_postProcess _ kept⟩
    rw [postProcess_held _ (by simp only [fewer]; omega)]
    have same : roundQuota { t with flushWork := t.flushWork.eraseIdx i } = t.roundQuota := rfl
    simp only [SyncTask.held, same, returns, givesUp, takes]
    omega
  | uploaded =>
    simp only [Option.ite_none_left_eq_some, Option.some.injEq] at stepped
    obtain ⟨some_, rfl⟩ := stepped
    have count := flying.count
    have kept : LeftoverFailed { t with uploads := t.uploads - 1 } := h
    refine ⟨?_, leftover_postProcess _ kept⟩
    rw [postProcess_held _ (by simp only; omega)]
    rfl
  | updateStoreSlice stored isLeader =>
    obtain ⟨⟨place, -⟩, rfl⟩ : (t.place = .ending ∧ t.partition = .range) ∧
      t.updateStoreSlice stored isLeader = u := by simpa using stepped
    have landed : t.place.landed = true := by rw [place]; rfl
    refine accounted_landed flying landed flying' ?_ ⟨rfl, rfl, rfl⟩
    obtain ⟨same | same, -⟩ | ⟨-, same⟩ := updateStoreSlice_cases t stored isLeader
    · rw [same]
      rfl
    · rw [same]
      exact landed
    · rw [same]
      rfl
  | ckptEnd ok catalogExists =>
    obtain ⟨⟨place, -⟩, rfl⟩ : (t.place = .ending ∧ t.partition = .hash) ∧
      t.ckptEnd ok catalogExists = u := by simpa using stepped
    exact accounted_landed flying (by rw [place]; rfl) flying'
      (by rw [ckptEnd_completed]; rfl) ⟨rfl, rfl, rfl⟩
  | fail leaderTerm standbyNodeTerm =>
    obtain ⟨place, rfl⟩ : t.place = .failing ∧ t.fail leaderTerm standbyNodeTerm = u := by
      simpa using stepped
    exact accounted_landed flying (by rw [place]; rfl) flying' rfl ⟨rfl, rfl, rfl⟩
  | splitFlushRange partitionId ok =>
    obtain ⟨place, rfl⟩ : t.place = .splitting ∧ t.splitFlushRange partitionId ok = u := by
      simpa using stepped
    exact accounted_landed flying (by rw [place]; rfl) flying'
      (by rw [splitFlushRange_completed]; rfl) ⟨rfl, rfl, rfl⟩

end SyncTask

namespace SyncWorker

variable {ι : Type u} [DecidableEq ι]

def step (w : SyncWorker ι) (act : ι × SyncAction) : Option (SyncWorker ι) :=
  match (w.tasks act.1).step act.2, (w.tasks act.1).account w.memController act.2 with
  | some t, some memController =>
    some { w with
      memController
      tasks := Function.update w.tasks act.1 t
      lost := w.lost + (w.tasks act.1).givesUp act.2 }
  | _, _ => none

def Step (w : SyncWorker ι) (act : ι × SyncAction) (v : SyncWorker ι) : Prop := w.step act = some v

/-- No task has been begun. -/
structure Fresh (w : SyncWorker ι) : Prop where
  tasks : ∀ i, (w.tasks i).Fresh
  lost : w.lost = 0

/-- Every task is completed or in the queue, and all flush work is done. -/
def Idle (w : SyncWorker ι) : Prop :=
  ∀ i, (w.tasks i).place.landed = true ∧ (w.tasks i).flushWork = []

/-- The assertion of `DeallocateFlushMemQuota` holds whichever flush task comes next. -/
def AssertionHolds (w : SyncWorker ι) : Prop :=
  ∀ i, ∀ quota ∈ (w.tasks i).flushWork, quota ≤ w.memController.flushDataMemUsage

/-- The task is about to leave a round behind that it has taken quota for. -/
def LeavesRound (w : SyncWorker ι) (i : ι) : Prop :=
  (w.tasks i).ckptErr = some .flushError ∧ 0 < (w.tasks i).roundQuota

variable {w v : SyncWorker ι} {act : ι × SyncAction}

section
variable [Fintype ι]

def held (w : SyncWorker ι) : Nat := ∑ i, (w.tasks i).held

/-- The usage is what the tasks hold, and what has been left behind. -/
structure Accounts (usage : Nat) (w : SyncWorker ι) : Prop where
  flying : ∀ i, (w.tasks i).Flying
  leftover : ∀ i, (w.tasks i).LeftoverFailed
  usage : w.memController.flushDataMemUsage = usage + w.held + w.lost

omit [DecidableEq ι] in
theorem Fresh.accounts (h : Fresh w) : Accounts w.memController.flushDataMemUsage w where
  flying i := (h.tasks i).flying
  leftover i memUsage drained := by cases (h.tasks i).place.symm.trans drained
  usage := by
    have nothing : w.held = 0 := Finset.sum_eq_zero fun i _ =>
      SyncTask.held_of_landed (h.tasks i).flying (by rw [(h.tasks i).place]; rfl)
    rw [nothing, h.lost]
    rfl

omit [Fintype ι] in
theorem step_cases (stepped : Step w act v) :
    ∃ t memController, (w.tasks act.1).step act.2 = some t ∧
      (w.tasks act.1).account w.memController act.2 = some memController ∧
      v = { w with
        memController
        tasks := Function.update w.tasks act.1 t
        lost := w.lost + (w.tasks act.1).givesUp act.2 } := by
  unfold Step step at stepped
  split at stepped
  · rename_i t memController task accounted
    exact ⟨t, memController, task, accounted, (Option.some.inj stepped).symm⟩
  · cases stepped

omit [DecidableEq ι] in
theorem held_le (w : SyncWorker ι) (i : ι) : (w.tasks i).held ≤ w.held :=
  Finset.single_le_sum (f := fun i => (w.tasks i).held) (fun _ _ => Nat.zero_le _) (Finset.mem_univ i)

omit [DecidableEq ι] in
theorem Accounts.assertionHolds {usage : Nat} (h : Accounts usage w) : w.AssertionHolds := by
  intro i quota mem
  have total : quota ≤ (w.tasks i).flushWork.sum := List.le_sum_of_mem mem
  have part := held_le w i
  have := h.usage
  unfold SyncTask.held at part
  omega

omit [DecidableEq ι] [Fintype ι] in
theorem AssertionHolds.returns_le (h : w.AssertionHolds) (i : ι) (a : SyncAction) :
    (w.tasks i).returns a ≤ w.memController.flushDataMemUsage := by
  cases a with
  | flush j succ =>
    simp only [SyncTask.returns, List.getD_eq_getElem?_getD]
    cases found : (w.tasks i).flushWork[j]? with
    | none => exact Nat.zero_le _
    | some quota => exact h i quota (List.mem_of_getElem? found)
  | _ => exact Nat.zero_le _

theorem account_usage {t : SyncTask} {a : SyncAction} {c d : DataSyncMemoryController}
    (accounted : t.account c a = some d) (asserted : t.returns a ≤ c.flushDataMemUsage) :
    d.flushDataMemUsage + t.returns a = c.flushDataMemUsage + t.takes a := by
  cases a with
  | allocate =>
    simp only [SyncTask.account, DataSyncMemoryController.allocateFlushDataMemQuota,
      Option.ite_none_right_eq_some, Option.some.injEq] at accounted
    obtain ⟨-, rfl⟩ := accounted
    rfl
  | flush i succ =>
    simp only [SyncTask.account, DataSyncMemoryController.deallocateFlushMemQuota,
      Option.some.injEq] at accounted
    subst accounted
    simp only [SyncTask.returns, SyncTask.takes] at asserted ⊢
    omega
  | _ =>
    cases accounted
    rfl

theorem Accounts.step {usage : Nat} (h : Accounts usage w) (stepped : Step w act v) :
    Accounts usage v := by
  obtain ⟨t, memController, task, accounted, rfl⟩ := step_cases stepped
  have flying := h.flying act.1
  have next := SyncTask.step_accounted flying (h.leftover act.1) task
  refine ⟨fun i => ?_, fun i => ?_, ?_⟩
  · by_cases here : i = act.1
    · subst here
      simpa using SyncTask.step_flying flying task
    · simpa [here] using h.flying i
  · by_cases here : i = act.1
    · subst here
      simpa using next.leftover
    · simpa [here] using h.leftover i
  · have total := sum_update_add SyncTask.held w.tasks act.1 t
    have balance := next.held
    have before := h.usage
    have part := held_le w act.1
    have told := account_usage accounted (h.assertionHolds.returns_le act.1 act.2)
    unfold held at *
    simp only at *
    omega

theorem Fresh.run_accounts {start : SyncWorker ι} {acts : List (ι × SyncAction)}
    (fresh : Fresh start) (run : Run Step start acts w) :
    Accounts start.memController.flushDataMemUsage w :=
  Run.history (P := fun _ w => Accounts start.memController.flushDataMemUsage w) run fresh.accounts
    fun _ _ _ _ stepped accounts => accounts.step stepped

end

theorem lost_eq_of_step (stepped : Step w act v) :
    v.lost = w.lost + (w.tasks act.1).givesUp act.2 := by
  obtain ⟨t, memController, -, -, rfl⟩ := step_cases stepped
  rfl

omit [DecidableEq ι] in
theorem givesUp_pos_iff (w : SyncWorker ι) (act : ι × SyncAction) :
    0 < (w.tasks act.1).givesUp act.2 ↔ act.2 = .handOver ∧ w.LeavesRound act.1 := by
  obtain ⟨i, a⟩ := act
  unfold LeavesRound
  cases a with
  | handOver =>
    simp only [SyncTask.givesUp, true_and]
    split <;> simp_all
  | _ => simp [SyncTask.givesUp]

theorem lost_mono {acts : List (ι × SyncAction)} (run : Run Step w acts v) : w.lost ≤ v.lost := by
  induction run with
  | nil => exact Nat.le_refl _
  | cons stepped _ ih =>
    have := lost_eq_of_step stepped
    omega

/-- Quota is lost exactly at the steps that leave a round behind. -/
theorem lost_eq_iff {acts : List (ι × SyncAction)} (run : Run Step w acts v) :
    v.lost = w.lost ↔ ∀ before i after u, acts = before ++ (i, .handOver) :: after →
      Run Step w before u → Run Step u ((i, .handOver) :: after) v → ¬ u.LeavesRound i := by
  constructor
  · rintro same before i after u rfl first rest leaves
    have start := lost_mono first
    cases rest with
    | cons stepped tail =>
      have lost := (givesUp_pos_iff u (i, .handOver)).mpr ⟨rfl, leaves⟩
      have now := lost_eq_of_step stepped
      have later := lost_mono tail
      omega
  · intro none_
    induction run with
    | nil => rfl
    | @cons w u v act acts stepped run ih =>
      have now := lost_eq_of_step stepped
      have kept : (w.tasks act.1).givesUp act.2 = 0 := by
        by_contra lost
        obtain ⟨handOver, leaves⟩ := (givesUp_pos_iff w act).mp (Nat.pos_of_ne_zero lost)
        obtain ⟨i, a⟩ := act
        obtain rfl : a = .handOver := handOver
        exact none_ [] i acts w rfl (.nil w) (.cons stepped run) leaves
      have rest := ih fun before i after x shape first last =>
        none_ (act :: before) i after x (by rw [shape]; rfl) (.cons stepped first) last
      omega

/-- The usage is back at what it was, and no assertion of the controller has failed on the way. -/
structure QuotaConserved (start : SyncWorker ι) (acts : List (ι × SyncAction))
    (final : SyncWorker ι) : Prop where
  usage : final.memController.flushDataMemUsage = start.memController.flushDataMemUsage
  asserted : ∀ before after w, acts = before ++ after → Run Step start before w → w.AssertionHolds

/-- When everything is done, the quota is given back exactly if no task has left a round behind
that it had taken quota for. -/
theorem quota_conserved_iff [Fintype ι] (start final : SyncWorker ι)
    (acts : List (ι × SyncAction)) (fresh : Fresh start) (run : Run Step start acts final)
    (idle : final.Idle) :
    QuotaConserved start acts final ↔
      ∀ before i after w, acts = before ++ (i, .handOver) :: after →
        Run Step start before w → Run Step w ((i, .handOver) :: after) final →
        ¬ w.LeavesRound i := by
  have accounts := fresh.run_accounts run
  have nothing : final.held = 0 := Finset.sum_eq_zero fun i _ =>
    SyncTask.held_of_landed (accounts.flying i) (idle i).1
  have usage := accounts.usage
  rw [nothing, Nat.add_zero] at usage
  rw [← lost_eq_iff run, fresh.lost]
  constructor
  · intro conserved
    have := conserved.usage
    omega
  · intro kept
    refine ⟨by omega, fun before after w _ first => ?_⟩
    exact (fresh.run_accounts first).assertionHolds

/-- One task of a range, and a controller with room for it. -/
def oneTask : SyncWorker Unit where
  memController := { flushDataMemQuota := 100 }
  tasks _ := { partition := .range, dataSyncTs := 5 }

theorem oneTask_fresh : Fresh oneTask := ⟨fun _ => ⟨rfl, rfl, rfl, rfl, rfl, rfl, rfl⟩, rfl⟩

/-- Two rounds of 8 bytes; whether the flush of the first one succeeds. -/
def twoRounds (succ : Bool) : List (Unit × SyncAction) :=
  [.dataSync {}, .scan { scanCnt := 1, memUsage := 8, drained := false }, .allocate, .handOver,
    .flush 0 succ, .scan { scanCnt := 1, memUsage := 8, drained := true }, .allocate, .handOver,
    .endScan].map (Prod.mk ())

theorem quota_conserved_iff_flushed :
    ∃ final, Run Step oneTask
        (twoRounds true ++ [((), .flush 0 true), ((), .updateStoreSlice true true)]) final ∧
      QuotaConserved oneTask
        (twoRounds true ++ [((), .flush 0 true), ((), .updateStoreSlice true true)]) final := by
  have run : Run Step oneTask
      (twoRounds true ++ [((), .flush 0 true), ((), .updateStoreSlice true true)])
      { memController := { flushDataMemQuota := 100 }
        tasks := fun _ =>
          { partition := .range, dataSyncTs := 5, lastSyncTs := 5, place := .completed,
            txm := .committed, completions := [none] } } :=
    Run.of_foldlM step (fun _ _ _ stepped => stepped) rfl
  exact ⟨_, run, (quota_conserved_iff _ _ _ oneTask_fresh run fun _ => ⟨rfl, rfl⟩).mpr
    ((lost_eq_iff run).mp rfl)⟩

/-- The flush of the first round fails while the second one is scanned. -/
theorem quota_leaked :
    ∃ final, Run Step oneTask (twoRounds false ++ [((), .fail 1 1)]) final ∧ final.Idle ∧
      (final.tasks ()).place = .completed ∧ final.memController.flushDataMemUsage = 8 ∧
      ¬ QuotaConserved oneTask (twoRounds false ++ [((), .fail 1 1)]) final := by
  refine ⟨
    { memController := { flushDataMemUsage := 8, flushDataMemQuota := 100 }
      lost := 8
      tasks := fun _ =>
        { partition := .range, dataSyncTs := 5, ckptErr := some .flushError, place := .completed,
          txm := .aborted, completions := [some .dataStoreErr] } },
    Run.of_foldlM step (fun _ _ _ stepped => stepped) rfl, fun _ => ⟨rfl, rfl⟩, rfl, rfl, ?_⟩
  intro conserved
  cases conserved.usage

end SyncWorker

end TxService
