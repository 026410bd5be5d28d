import TxService.SyncTask
import TxService.Transition

/-!
# What is in flight of a data sync task

`flight_task_cnt_` counts the flush tasks, the uploads and the scan of a task that are not done,
so that only one caller of `PostProcessDataSyncTask` goes on with the task.
-/

namespace TxService

/-- Nothing of the task is in flight. -/
def TaskPlace.landed : TaskPlace → Bool
  | .queued | .splitting | .ending | .failing | .completed => true
  | _ => false

/-- The scan counts as one flight. -/
def TaskPlace.scans : TaskPlace → Nat
  | .scanning | .scanned _ _ | .allocated _ _ | .drained _ => 1
  | _ => 0

namespace SyncTask

variable {t u : SyncTask} {a : SyncAction}

/-- A task as `DataSyncTask` is constructed, in the queue for the first time. -/
structure Fresh (t : SyncTask) : Prop where
  place : t.place = .queued
  flights : t.flightTaskCnt = 0
  ckptErr : t.ckptErr = none
  flushWork : t.flushWork = []
  uploads : t.uploads = 0
  completions : t.completions = []
  retries : t.retries = 0

structure Flying (t : SyncTask) : Prop where
  count : t.flightTaskCnt = t.flushWork.length + t.uploads + t.place.scans
  landed : t.place.landed = decide (t.flightTaskCnt = 0)

theorem Fresh.flying (h : Fresh t) : Flying t where
  count := by simp [h.flights, h.flushWork, h.uploads, h.place, TaskPlace.scans]
  landed := by simp [h.flights, h.place, TaskPlace.landed]

theorem Flying.of_landed (h : Flying t) (landed : t.place.landed = true) :
    t.flightTaskCnt = 0 ∧ t.flushWork = [] ∧ t.uploads = 0 ∧ t.place.scans = 0 := by
  have zero : t.flightTaskCnt = 0 := by simpa [landed] using h.landed
  have count := h.count
  have empty : t.flushWork.length = 0 := by omega
  exact ⟨zero, List.eq_nil_of_length_eq_zero empty, by omega, by omega⟩

/-- The same flights as before. -/
structure SameFlights (t u : SyncTask) : Prop where
  flights : u.flightTaskCnt = t.flightTaskCnt
  flushWork : u.flushWork = t.flushWork
  uploads : u.uploads = t.uploads

theorem Flying.to_landed (h : Flying t) (same : SameFlights t u) (landed : t.place.landed = true)
    (landed' : u.place.landed = true) : Flying u := by
  obtain ⟨zero, empty, none_, -⟩ := h.of_landed landed
  have idle : u.place.scans = 0 := by
    cases place : u.place <;> simp_all [TaskPlace.landed, TaskPlace.scans]
  constructor
  · simp [same.flights, same.flushWork, same.uploads, zero, empty, none_, idle]
  · simp [same.flights, zero, landed']

/-- One of the flights is over, and `PostProcessDataSyncTask` is called for it. -/
theorem flying_postProcess (err : Option CkptErrorCode)
    (count : t.flightTaskCnt = t.flushWork.length + t.uploads + t.place.scans + 1)
    (aloft : t.place.landed = false) : Flying (t.postProcess err) := by
  unfold postProcess
  simp only
  split
  · rename_i last
    have empty : t.flushWork.length = 0 ∧ t.uploads = 0 := by omega
    split
    · exact ⟨by simp [last, empty.1, empty.2, TaskPlace.scans], by simp [last, TaskPlace.landed]⟩
    · cases t.duringSplitRange <;>
        exact ⟨by simp [last, empty.1, empty.2, TaskPlace.scans, putBack, abortTx],
          by simp [last, TaskPlace.landed, putBack, abortTx]⟩
    · exact ⟨by simp [last, empty.1, empty.2, TaskPlace.scans], by simp [last, TaskPlace.landed]⟩
  · rename_i others
    exact ⟨by simp only; omega, by simp [aloft, others]⟩

theorem flying_scans (count : t.flightTaskCnt = t.flushWork.length + t.uploads + 1)
    (scans : t.place.scans = 1) : Flying t := by
  have aloft : t.place.landed = false := by
    cases place : t.place <;> simp_all [TaskPlace.landed, TaskPlace.scans]
  exact ⟨by rw [scans]; exact count, by simp [aloft]; omega⟩

theorem count_addFlushWork (count : t.flightTaskCnt = t.flushWork.length + t.uploads + 1)
    (memUsage : Nat) : (t.addFlushWork memUsage).flightTaskCnt =
      (t.addFlushWork memUsage).flushWork.length + (t.addFlushWork memUsage).uploads + 1 := by
  simp only [addFlushWork, List.length_append, List.length_singleton]
  omega

theorem flying_leave (err : Option CkptErrorCode) (h : Flying t) (scans : t.place.scans = 1) :
    Flying (t.leave err) := by
  have count := h.count
  exact flying_postProcess err (by simp [TaskPlace.scans]; omega) rfl

structure Silent (t u : SyncTask) : Prop where
  completions : u.completions = t.completions
  lastSyncTs : u.lastSyncTs = t.lastSyncTs
  place : u.place ≠ .completed

/-- The status is told once, and the timestamp is raised at most with success. -/
structure Told (t u : SyncTask) (outcome : Option SyncErrorCode) : Prop where
  completions : u.completions = t.completions ++ [outcome]
  lastSyncTs : outcome = none ∨ u.lastSyncTs = t.lastSyncTs
  place : u.place = .completed

/-- What the part before the scan does not touch. -/
structure Frame (t u : SyncTask) : Prop where
  ckptErr : u.ckptErr = t.ckptErr
  retries : u.retries = t.retries
  partition : u.partition = t.partition
  forwardCache : u.forwardCache = t.forwardCache
  duringSplitRange : u.duringSplitRange = t.duringSplitRange

inductive Started (t u : SyncTask) : Prop
  | waits : Frame t u → SameFlights t u → Silent t u → u.place.landed = true → Started t u
  | tells {outcome : Option SyncErrorCode} : Frame t u → SameFlights t u → Told t u outcome →
      Started t u
  | scans : Frame t u → SameFlights { t with flightTaskCnt := t.flightTaskCnt + 1 } u →
      Silent t u → u.place = .scanning → Started t u

/-- Only the timestamp of the task and its transaction differ. -/
structure Same (t u : SyncTask) : Prop where
  frame : Frame t u
  flights : SameFlights t u
  silent : u.completions = t.completions ∧ u.lastSyncTs = t.lastSyncTs

theorem same_refl : Same t t := ⟨⟨rfl, rfl, rfl, rfl, rfl⟩, ⟨rfl, rfl, rfl⟩, rfl, rfl⟩

theorem same_adjustSyncTs (ts : Nat) : Same t (t.adjustSyncTs ts) := by
  unfold adjustSyncTs
  split
  · exact ⟨⟨rfl, rfl, rfl, rfl, rfl⟩, ⟨rfl, rfl, rfl⟩, rfl, rfl⟩
  · exact same_refl

section
variable (h : Same t u)
include h

theorem Same.txm (txm : TxmState) : Same t { u with txm } :=
  ⟨⟨h.frame.1, h.frame.2, h.frame.3, h.frame.4, h.frame.5⟩,
    ⟨h.flights.1, h.flights.2, h.flights.3⟩, h.silent⟩

theorem Same.putBack : Started t u.putBack :=
  .waits ⟨h.frame.1, h.frame.2, h.frame.3, h.frame.4, h.frame.5⟩
    ⟨h.flights.1, h.flights.2, h.flights.3⟩ ⟨h.silent.1, h.silent.2, nofun⟩ rfl

theorem Same.setError (e : SyncErrorCode) : Started t (u.setError e) := by
  have told : Told t (u.setError e) (some e) :=
    ⟨by simp [SyncTask.setError, h.silent.1], .inr h.silent.2, rfl⟩
  exact .tells ⟨h.frame.1, h.frame.2, h.frame.3, h.frame.4, h.frame.5⟩
    ⟨h.flights.1, h.flights.2, h.flights.3⟩ told

theorem Same.setFinish : Started t u.setFinish :=
  .tells ⟨h.frame.1, h.frame.2, h.frame.3, h.frame.4, h.frame.5⟩
    ⟨h.flights.1, h.flights.2, h.flights.3⟩
    ⟨by simp [SyncTask.setFinish, h.silent.1], .inl rfl, rfl⟩

/-- A task is finished after the timestamp has been raised. -/
theorem Same.raise_setFinish : Started t u.updateLastDataSyncTs.setFinish := by
  unfold updateLastDataSyncTs
  split
  · exact .tells ⟨h.frame.1, h.frame.2, h.frame.3, h.frame.4, h.frame.5⟩
      ⟨h.flights.1, h.flights.2, h.flights.3⟩
      ⟨by simp [SyncTask.setFinish, h.silent.1], .inl rfl, rfl⟩
  · exact h.setFinish

theorem Same.beginScan : Started t u.beginScan :=
  .scans ⟨h.frame.1, h.frame.2, h.frame.3, h.frame.4, h.frame.5⟩
    ⟨by simp [SyncTask.beginScan, h.flights.1], h.flights.2, h.flights.3⟩
    ⟨h.silent.1, h.silent.2, nofun⟩ rfl

theorem Same.scanDeltaSize (found : SyncStart) :
    Started t (u.scanDeltaSize found) := by
  unfold SyncTask.scanDeltaSize
  split
  · split
    · exact h.putBack
    · exact (h.txm .aborted).putBack
  split
  · split
    · exact h.setFinish
    · exact (h.txm .committed).raise_setFinish
  split
  · exact h.beginScan
  split
  · exact (h.txm .aborted).setError _
  · exact h.beginScan
  · exact .waits ⟨h.frame.1, h.frame.2, h.frame.3, h.frame.4, h.frame.5⟩
      ⟨h.flights.1, h.flights.2, h.flights.3⟩ ⟨h.silent.1, h.silent.2, nofun⟩ rfl

theorem Same.lockRange (found : SyncStart) : Started t (u.lockRange found) := by
  have started := h.txm .active
  unfold SyncTask.lockRange
  split
  · exact h.putBack
  split
  · exact (started.txm .aborted).setError _
  split
  · exact (started.txm .aborted).putBack
  split
  · exact (started.txm .committed).setFinish
  split
  · exact (started.txm .aborted).putBack
  split
  · exact (started.txm .aborted).setError _
  · exact started.scanDeltaSize found

end

theorem dataSync_started (t : SyncTask) (found : SyncStart) : Started t (t.dataSync found) := by
  have adjusted : Same t (t.adjustSyncTs found.latestPendingTs) := same_adjustSyncTs _
  unfold dataSync
  split
  · unfold dataSyncRange
    split
    · exact same_refl.scanDeltaSize found
    split
    · exact same_refl.setError _
    split
    · exact same_refl.setError _
    simp only
    split
    · exact adjusted.setFinish
    split
    · exact adjusted.setError _
    · exact adjusted.lockRange found
  · unfold dataSyncHash
    split
    · exact same_refl.setError _
    simp only
    split
    · exact adjusted.setFinish
    split
    · exact adjusted.setError _
    split
    · exact adjusted.putBack
    split
    · exact ((adjusted.txm .active).txm .aborted).setError _
    split
    · exact ((adjusted.txm .active).txm .aborted).putBack
    · exact (adjusted.txm .active).beginScan

theorem flying_scan (h : Flying t) (place : t.place = .scanning) (round : SyncScan) :
    Flying (t.scan round) := by
  have scans : t.place.scans = 1 := by rw [place]; rfl
  have count := h.count
  have fails := flying_leave (some .scanError) h scans
  rw [scans] at count
  unfold scan
  split
  · split
    · exact fails
    · exact flying_scans count rfl
  · split
    · exact fails
    · have sent : ∀ v : SyncTask, v = (if t.forwardCache then t.sendCache round.uploads else t) →
          v.flightTaskCnt = v.flushWork.length + v.uploads + 1 := by
        rintro v rfl
        split
        · simp only [sendCache]
          omega
        · exact count
      have here := sent _ rfl
      simp only
      generalize (if t.forwardCache then t.sendCache round.uploads else t) = v at here ⊢
      split
      · exact flying_scans here rfl
      · exact flying_scans here rfl

theorem flying_handOver (h : Flying t) {memUsage : Nat} {drained : Bool}
    (place : t.place = .allocated memUsage drained) : Flying (t.handOver memUsage drained) := by
  have count := h.count
  rw [place] at count
  unfold handOver
  split
  · exact flying_scans count rfl
  · cases drained <;> exact flying_scans (count_addFlushWork count memUsage) rfl

theorem flying_flushLeft (h : Flying t) {memUsage : Nat}
    (place : t.place = .drained (some memUsage)) : Flying (t.flushLeft memUsage) := by
  have count := h.count
  rw [place] at count
  unfold flushLeft
  split
  · exact flying_scans (count_addFlushWork count memUsage) rfl
  · exact flying_scans count rfl

theorem flying_completed (h : Flying t) (landed : t.place.landed = true)
    (started : Started t u) : Flying u := by
  cases started with
  | waits _ same _ landed' => exact h.to_landed same landed landed'
  | tells _ same told => exact h.to_landed same landed (by rw [told.place]; rfl)
  | scans _ same _ place =>
    obtain ⟨zero, empty, none_, -⟩ := h.of_landed landed
    refine flying_scans ?_ (by rw [place]; rfl)
    simp [same.flights, same.flushWork, same.uploads, zero, empty, none_]

theorem finishRange_started (t : SyncTask) : Started t t.finishRange := by
  unfold finishRange
  split
  · exact same_refl.setFinish
  · exact (same_refl.txm .committed).raise_setFinish

theorem ckptEnd_started (t : SyncTask) (ok catalogExists : Bool) :
    Started t (t.ckptEnd ok catalogExists) := by
  have committed : Same t t.commitTx := same_refl.txm .committed
  unfold ckptEnd
  simp only
  split
  · exact committed.setError _
  split
  · exact committed.raise_setFinish
  · exact committed.setFinish

theorem fail_started (t : SyncTask) (leaderTerm standbyNodeTerm : Int) :
    Started t (t.fail leaderTerm standbyNodeTerm) := by
  unfold fail
  split
  · exact same_refl.setError _
  · exact (same_refl.txm .aborted).setError _

theorem splitFlushRange_started (t : SyncTask) (partitionId ok : Bool) :
    Started t (t.splitFlushRange partitionId ok) := by
  unfold splitFlushRange
  split
  · have order : t.updateLastDataSyncTs.setFinish.commitTx = t.commitTx.updateLastDataSyncTs.setFinish := by
      by_cases raised : t.lastSyncTs < t.dataSyncTs <;>
        simp only [updateLastDataSyncTs, commitTx, raised, if_true, if_false] <;> rfl
    rw [order]
    exact (same_refl.txm .committed).raise_setFinish
  · exact (same_refl.txm .aborted).setError _

/-- The slices could not be written, and the leader has changed. A task of a split does not write
them. -/
def Abandons (t : SyncTask) (a : SyncAction) : Prop :=
  t.duringSplitRange = false ∧ a = .updateStoreSlice false false

theorem updateStoreSlice_cases (t : SyncTask) (stored isLeader : Bool) :
    (t.updateStoreSlice stored isLeader = t.finishRange ∨ t.updateStoreSlice stored isLeader = t) ∧
        ¬ Abandons t (.updateStoreSlice stored isLeader) ∨
      Abandons t (.updateStoreSlice stored isLeader) ∧ t.updateStoreSlice stored isLeader =
        (t.setError .requestedNodeNotLeader).finishRange := by
  unfold updateStoreSlice Abandons
  cases t.duringSplitRange <;> cases stored <;> cases isLeader <;> simp

theorem Flying.aloft_of_flush (h : Flying t) {i : Nat} (bound : i < t.flushWork.length) :
    t.place.landed = false := by
  cases landed : t.place.landed with
  | false => rfl
  | true =>
    obtain ⟨-, empty, -⟩ := h.of_landed landed
    simp [empty] at bound

theorem Flying.aloft_of_upload (h : Flying t) (some_ : t.uploads ≠ 0) : t.place.landed = false := by
  cases landed : t.place.landed with
  | false => rfl
  | true => exact absurd (h.of_landed landed).2.2.1 some_

theorem step_flying (h : Flying t) (stepped : Step t a u) : Flying u := by
  unfold Step step at stepped
  cases a with
  | dataSync found =>
    obtain ⟨place, rfl⟩ : t.place = .queued ∧ t.dataSync found = u := by simpa using stepped
    exact flying_completed h (by rw [place]; rfl) (dataSync_started t found)
  | scan round =>
    obtain ⟨place, rfl⟩ : t.place = .scanning ∧ t.scan round = u := by simpa using stepped
    exact flying_scan h place round
  | allocate =>
    simp only at stepped
    split at stepped <;> cases stepped
    rename_i place
    have count := h.count
    rw [place] at count
    exact flying_scans count rfl
  | handOver =>
    simp only at stepped
    split at stepped <;> cases stepped
    rename_i place
    exact flying_handOver h place
  | flushLeft =>
    simp only at stepped
    split at stepped <;> cases stepped
    rename_i place
    exact flying_flushLeft h place
  | endScan =>
    obtain ⟨place, rfl⟩ : t.place = .drained none ∧ t.leave none = u := by simpa using stepped
    exact flying_leave none h (by rw [place]; rfl)
  | flush i succ =>
    simp only [Option.ite_none_right_eq_some, Option.some.injEq] at stepped
    obtain ⟨bound, rfl⟩ := stepped
    have count := h.count
    have fewer := List.length_eraseIdx_of_lt bound
    exact flying_postProcess _ (by simp only [fewer]; omega) (h.aloft_of_flush bound)
  | uploaded =>
    simp only [Option.ite_none_left_eq_some, Option.some.injEq] at stepped
    obtain ⟨some_, rfl⟩ := stepped
    have count := h.count
    exact flying_postProcess _ (by simp only; omega) (h.aloft_of_upload some_)
  | updateStoreSlice stored isLeader =>
    obtain ⟨⟨place, -⟩, rfl⟩ : (t.place = .ending ∧ t.partition = .range) ∧
      t.updateStoreSlice stored isLeader = u := by simpa using stepped
    have landed : t.place.landed = true := by rw [place]; rfl
    obtain ⟨same | same, -⟩ | ⟨-, same⟩ := updateStoreSlice_cases t stored isLeader
    · rw [same]
      exact flying_completed h landed (finishRange_started t)
    · rw [same]
      exact h
    · rw [same]
      have told : Flying (t.setError .requestedNodeNotLeader) :=
        flying_completed h landed (same_refl.setError _)
      exact flying_completed told rfl (finishRange_started _)
  | ckptEnd ok catalogExists =>
    obtain ⟨⟨place, -⟩, rfl⟩ : (t.place = .ending ∧ t.partition = .hash) ∧
      t.ckptEnd ok catalogExists = u := by simpa using stepped
    exact flying_completed h (by rw [place]; rfl) (ckptEnd_started t ok catalogExists)
  | fail leaderTerm standbyNodeTerm =>
    obtain ⟨place, rfl⟩ : t.place = .failing ∧ t.fail leaderTerm standbyNodeTerm = u := by
      simpa using stepped
    exact flying_completed h (by rw [place]; rfl) (fail_started t leaderTerm standbyNodeTerm)
  | splitFlushRange partitionId ok =>
    obtain ⟨place, rfl⟩ : t.place = .splitting ∧ t.splitFlushRange partitionId ok = u := by
      simpa using stepped
    exact flying_completed h (by rw [place]; rfl) (splitFlushRange_started t partitionId ok)

/-- What a task is constructed with and never changes. -/
structure Fixed (t u : SyncTask) : Prop where
  partition : u.partition = t.partition
  forwardCache : u.forwardCache = t.forwardCache
  duringSplitRange : u.duringSplitRange = t.duringSplitRange

theorem Started.frame (h : Started t u) : Frame t u := by
  cases h with
  | waits frame | tells frame | scans frame => exact frame

theorem Started.fixed (h : Started t u) : Fixed t u :=
  ⟨h.frame.partition, h.frame.forwardCache, h.frame.duringSplitRange⟩

theorem fixed_postProcess (t : SyncTask) (err : Option CkptErrorCode) :
    Fixed t (t.postProcess err) := by
  unfold postProcess
  simp only
  split
  · split
    · exact ⟨rfl, rfl, rfl⟩
    · cases split : t.duringSplitRange <;> exact ⟨rfl, rfl, split.symm⟩
    · exact ⟨rfl, rfl, rfl⟩
  · exact ⟨rfl, rfl, rfl⟩

theorem fixed_leave (t : SyncTask) (err : Option CkptErrorCode) : Fixed t (t.leave err) :=
  have post := fixed_postProcess { t with place := .left } err
  ⟨post.partition, post.forwardCache, post.duringSplitRange⟩

theorem fixed_scan (t : SyncTask) (round : SyncScan) : Fixed t (t.scan round) := by
  unfold scan
  split
  · split
    · exact fixed_leave t _
    · exact ⟨rfl, rfl, rfl⟩
  · split
    · exact fixed_leave t _
    · cases t.forwardCache <;> simp only [if_true, if_false, Bool.false_eq_true] <;> split <;>
        exact ⟨rfl, rfl, rfl⟩

theorem step_fixed (stepped : Step t a u) : Fixed t u := by
  unfold Step step at stepped
  cases a with
  | dataSync found =>
    obtain ⟨-, rfl⟩ : t.place = .queued ∧ t.dataSync found = u := by simpa using stepped
    exact (dataSync_started t found).fixed
  | scan round =>
    obtain ⟨-, rfl⟩ : t.place = .scanning ∧ t.scan round = u := by simpa using stepped
    exact fixed_scan t round
  | allocate =>
    simp only at stepped
    split at stepped <;> cases stepped
    exact ⟨rfl, rfl, rfl⟩
  | handOver =>
    simp only at stepped
    split at stepped <;> cases stepped
    unfold handOver
    split <;> exact ⟨rfl, rfl, rfl⟩
  | flushLeft =>
    simp only at stepped
    split at stepped <;> cases stepped
    unfold flushLeft
    split <;> exact ⟨rfl, rfl, rfl⟩
  | endScan =>
    obtain ⟨-, rfl⟩ : t.place = .drained none ∧ t.leave none = u := by simpa using stepped
    exact fixed_leave t none
  | flush i succ =>
    simp only [Option.ite_none_right_eq_some, Option.some.injEq] at stepped
    obtain ⟨-, rfl⟩ := stepped
    have post := fixed_postProcess { t with flushWork := t.flushWork.eraseIdx i }
      (if succ then none else some .flushError)
    exact ⟨post.partition, post.forwardCache, post.duringSplitRange⟩
  | uploaded =>
    simp only [Option.ite_none_left_eq_some, Option.some.injEq] at stepped
    obtain ⟨-, rfl⟩ := stepped
    have post := fixed_postProcess { t with uploads := t.uploads - 1 } none
    exact ⟨post.partition, post.forwardCache, post.duringSplitRange⟩
  | updateStoreSlice stored isLeader =>
    obtain ⟨-, rfl⟩ : (t.place = .ending ∧ t.partition = .range) ∧
      t.updateStoreSlice stored isLeader = u := by simpa using stepped
    obtain ⟨same | same, -⟩ | ⟨-, same⟩ := updateStoreSlice_cases t stored isLeader
    · rw [same]
      exact (finishRange_started t).fixed
    · rw [same]
      exact ⟨rfl, rfl, rfl⟩
    · rw [same]
      have finished := (finishRange_started (t.setError .requestedNodeNotLeader)).fixed
      exact ⟨finished.partition, finished.forwardCache, finished.duringSplitRange⟩
  | ckptEnd ok catalogExists =>
    obtain ⟨-, rfl⟩ : (t.place = .ending ∧ t.partition = .hash) ∧
      t.ckptEnd ok catalogExists = u := by simpa using stepped
    exact (ckptEnd_started t ok catalogExists).fixed
  | fail leaderTerm standbyNodeTerm =>
    obtain ⟨-, rfl⟩ : t.place = .failing ∧ t.fail leaderTerm standbyNodeTerm = u := by
      simpa using stepped
    exact (fail_started t leaderTerm standbyNodeTerm).fixed
  | splitFlushRange partitionId ok =>
    obtain ⟨-, rfl⟩ : t.place = .splitting ∧ t.splitFlushRange partitionId ok = u := by
      simpa using stepped
    exact (splitFlushRange_started t partitionId ok).fixed

theorem silent_postProcess (t : SyncTask) (err : Option CkptErrorCode)
    (opened : t.place ≠ .completed) : Silent t (t.postProcess err) := by
  unfold postProcess
  simp only
  split
  · split
    · exact ⟨rfl, rfl, nofun⟩
    · cases t.duringSplitRange <;> exact ⟨rfl, rfl, nofun⟩
    · exact ⟨rfl, rfl, nofun⟩
  · exact ⟨rfl, rfl, opened⟩

theorem Flying.not_completed (h : Flying t) (stepped : Step t a u) : t.place ≠ .completed := by
  intro done
  obtain ⟨-, empty, none_, -⟩ := h.of_landed (by rw [done]; rfl)
  unfold Step step at stepped
  cases a <;> simp [done, empty, none_] at stepped

end SyncTask

end TxService
