import TxService.SyncTaskFlights

/-!
# How a data sync task ends

Every way a task ends tells its status once, but for one: a task whose slices could not be
written before the leader changed is told to have failed and then to be finished.
-/

namespace TxService

open Transition

namespace SyncTask

variable {t u : SyncTask} {a : SyncAction}

theorem Started.outcome (h : Started t u) : Silent t u ∨ ∃ outcome, Told t u outcome := by
  cases h with
  | waits _ _ silent _ => exact .inl silent
  | tells _ _ told => exact .inr ⟨_, told⟩
  | scans _ _ silent _ => exact .inl silent

theorem silent_leave (err : Option CkptErrorCode) : Silent t (t.leave err) := by
  have post := silent_postProcess { t with place := .left } err nofun
  exact ⟨post.completions, post.lastSyncTs, post.place⟩

theorem silent_scan (round : SyncScan) : Silent t (t.scan round) := by
  unfold scan
  split
  · split
    · exact silent_leave _
    · exact ⟨rfl, rfl, nofun⟩
  · split
    · exact silent_leave _
    · cases t.forwardCache <;> simp only [if_true, if_false, Bool.false_eq_true] <;> split <;>
        exact ⟨rfl, rfl, nofun⟩

theorem silent_handOver (memUsage : Nat) (drained : Bool) :
    Silent t (t.handOver memUsage drained) := by
  unfold handOver
  split
  · exact ⟨rfl, rfl, nofun⟩
  · cases drained <;> exact ⟨rfl, rfl, nofun⟩

/-- A step of a task that is not completed tells the status nothing, or once, but for the one
that gives the update of the slices up. -/
theorem step_outcome (opened : t.place ≠ .completed) (stepped : Step t a u) :
    ((Silent t u ∨ ∃ outcome, Told t u outcome) ∧ ¬ Abandons t a) ∨
      (Abandons t a ∧ u.place = .completed ∧
        u.completions = t.completions ++ [some .requestedNodeNotLeader, none]) := by
  unfold Step step at stepped
  cases a with
  | dataSync found =>
    obtain ⟨-, rfl⟩ : t.place = .queued ∧ t.dataSync found = u := by simpa using stepped
    exact .inl ⟨(dataSync_started t found).outcome, by rintro ⟨-, ⟨⟩⟩⟩
  | scan round =>
    obtain ⟨-, rfl⟩ : t.place = .scanning ∧ t.scan round = u := by simpa using stepped
    exact .inl ⟨.inl (silent_scan round), by rintro ⟨-, ⟨⟩⟩⟩
  | allocate =>
    simp only at stepped
    split at stepped <;> cases stepped
    exact .inl ⟨.inl ⟨rfl, rfl, by simp⟩, by rintro ⟨-, ⟨⟩⟩⟩
  | handOver =>
    simp only at stepped
    split at stepped <;> cases stepped
    exact .inl ⟨.inl (silent_handOver _ _), by rintro ⟨-, ⟨⟩⟩⟩
  | flushLeft =>
    simp only at stepped
    split at stepped <;> cases stepped
    unfold flushLeft
    split <;> exact .inl ⟨.inl ⟨rfl, rfl, by simp⟩, by rintro ⟨-, ⟨⟩⟩⟩
  | endScan =>
    obtain ⟨-, rfl⟩ : t.place = .drained none ∧ t.leave none = u := by simpa using stepped
    exact .inl ⟨.inl (silent_leave none), by rintro ⟨-, ⟨⟩⟩⟩
  | flush i succ =>
    simp only [Option.ite_none_right_eq_some, Option.some.injEq] at stepped
    obtain ⟨-, rfl⟩ := stepped
    have post := silent_postProcess { t with flushWork := t.flushWork.eraseIdx i }
      (if succ then none else some .flushError) opened
    exact .inl ⟨.inl ⟨post.completions, post.lastSyncTs, post.place⟩, by rintro ⟨-, ⟨⟩⟩⟩
  | uploaded =>
    simp only [Option.ite_none_left_eq_some, Option.some.injEq] at stepped
    obtain ⟨-, rfl⟩ := stepped
    have post := silent_postProcess { t with uploads := t.uploads - 1 } none opened
    exact .inl ⟨.inl ⟨post.completions, post.lastSyncTs, post.place⟩, by rintro ⟨-, ⟨⟩⟩⟩
  | updateStoreSlice stored isLeader =>
    obtain ⟨-, rfl⟩ : (t.place = .ending ∧ t.partition = .range) ∧
      t.updateStoreSlice stored isLeader = u := by simpa using stepped
    obtain ⟨same | same, kept⟩ | ⟨abandoned, same⟩ := updateStoreSlice_cases t stored isLeader
    · rw [same]
      exact .inl ⟨(finishRange_started t).outcome, kept⟩
    · rw [same]
      exact .inl ⟨.inl ⟨rfl, rfl, opened⟩, kept⟩
    · rw [same]
      refine .inr ⟨abandoned, rfl, ?_⟩
      unfold finishRange updateLastDataSyncTs
      rw [show (t.setError .requestedNodeNotLeader).duringSplitRange = false from abandoned.1]
      simp only [Bool.false_eq_true, if_false]
      split <;> simp [setFinish, setError, commitTx]
  | ckptEnd ok catalogExists =>
    obtain ⟨-, rfl⟩ : (t.place = .ending ∧ t.partition = .hash) ∧
      t.ckptEnd ok catalogExists = u := by simpa using stepped
    exact .inl ⟨(ckptEnd_started t ok catalogExists).outcome, by rintro ⟨-, ⟨⟩⟩⟩
  | fail leaderTerm standbyNodeTerm =>
    obtain ⟨-, rfl⟩ : t.place = .failing ∧ t.fail leaderTerm standbyNodeTerm = u := by
      simpa using stepped
    exact .inl ⟨(fail_started t leaderTerm standbyNodeTerm).outcome, by rintro ⟨-, ⟨⟩⟩⟩
  | splitFlushRange partitionId ok =>
    obtain ⟨-, rfl⟩ : t.place = .splitting ∧ t.splitFlushRange partitionId ok = u := by
      simpa using stepped
    exact .inl ⟨(splitFlushRange_started t partitionId ok).outcome, by rintro ⟨-, ⟨⟩⟩⟩

/-- The status of the task has been told nothing as long as the task is not completed, and once
when it is; the timestamp has been raised only by a task that ended with success. -/
structure EndsOnce (start t : SyncTask) : Prop where
  opened : t.place ≠ .completed → t.completions = []
  once : t.place = .completed → t.completions.length = 1
  raised : t.lastSyncTs ≠ start.lastSyncTs → t.completions = [none]

theorem EndsOnce.step (h : EndsOnce t u) {v : SyncTask} (opened : u.place ≠ .completed)
    (next : Silent u v ∨ ∃ outcome, Told u v outcome) : EndsOnce t v := by
  have empty := h.opened opened
  have kept : u.lastSyncTs = t.lastSyncTs := by
    by_contra changed
    exact absurd (h.raised changed) (by simp [empty])
  obtain silent | ⟨outcome, told⟩ := next
  · refine ⟨fun _ => silent.completions.trans empty, fun done => absurd done silent.place, ?_⟩
    intro changed
    exact absurd (silent.lastSyncTs.trans kept) changed
  · have only : v.completions = [outcome] := by rw [told.completions, empty]; rfl
    refine ⟨fun still => absurd told.place still, fun _ => by rw [only]; rfl, ?_⟩
    intro changed
    obtain rfl | same := told.lastSyncTs
    · exact only
    · exact absurd (same.trans kept) changed

/-- A task is completed exactly once, and raises the timestamp only with success, in the runs in
which its slices are written in the end or it is a task of a split, and in no other. -/
theorem ends_once_iff (start final : SyncTask) (acts : List SyncAction) (fresh : Fresh start)
    (run : Run Step start acts final) :
    EndsOnce start final ↔
      (start.duringSplitRange = false → .updateStoreSlice false false ∉ acts) := by
  have history := Run.history
    (P := fun acts t => Flying t ∧ t.duringSplitRange = start.duringSplitRange ∧
      (EndsOnce start t ∧ (start.duringSplitRange = false → .updateStoreSlice false false ∉ acts) ∨
        start.duringSplitRange = false ∧ .updateStoreSlice false false ∈ acts ∧
          t.place = .completed ∧ t.completions.length = 2)) run ?_ ?_
  · obtain ⟨-, -, ⟨ends, calm⟩ | ⟨plain, given_up, done, twice⟩⟩ := history
    · exact iff_of_true ends calm
    · refine iff_of_false (fun ends => ?_) (fun calm => calm plain given_up)
      have := ends.once done
      omega
  · refine ⟨fresh.flying, rfl, .inl ⟨⟨fun _ => fresh.completions, ?_, fun changed => absurd rfl changed⟩,
      fun _ => List.not_mem_nil⟩⟩
    intro done
    rw [fresh.place] at done
    cases done
  · rintro acts t a u stepped ⟨flying, split, before⟩
    have opened := flying.not_completed stepped
    refine ⟨step_flying flying stepped, (step_fixed stepped).duringSplitRange.trans split, ?_⟩
    obtain ⟨ends, calm⟩ | ⟨-, -, done, -⟩ := before
    · obtain ⟨next, kept⟩ | ⟨⟨plain, rfl⟩, done, told⟩ := step_outcome opened stepped
      · refine .inl ⟨ends.step opened next, fun plain mem => ?_⟩
        obtain old | now := List.mem_append.mp mem
        · exact calm plain old
        · exact kept ⟨split.trans plain, (List.mem_singleton.mp now).symm⟩
      · exact .inr ⟨split ▸ plain, by simp, done, by simp [told, ends.opened opened]⟩
    · exact absurd done opened

/-- A task with one round, up to the update of the slices. -/
def oneRound : List SyncAction :=
  [.dataSync {}, .scan { scanCnt := 1, memUsage := 8, drained := true }, .allocate, .handOver,
    .endScan, .flush 0 true]

theorem ends_once_iff_retried :
    EndsOnce { partition := .range, dataSyncTs := 5 }
      { partition := .range, dataSyncTs := 5, lastSyncTs := 5, place := .completed,
        txm := .committed, completions := [none] } :=
  (ends_once_iff _ _ (oneRound ++ [.updateStoreSlice false true, .updateStoreSlice true true])
    ⟨rfl, rfl, rfl, rfl, rfl, rfl, rfl⟩ (Run.of_foldlM step (fun _ _ _ stepped => stepped) rfl)).mpr
    (fun _ => by decide)

/-- The slices cannot be written, and the leader has changed by then. -/
theorem ended_twice :
    ∃ final, Run Step { partition := .range, dataSyncTs := 5 }
        (oneRound ++ [.updateStoreSlice false false]) final ∧
      final.completions = [some .requestedNodeNotLeader, none] ∧ final.lastSyncTs = 5 ∧
      ¬ EndsOnce { partition := .range, dataSyncTs := 5 } final := by
  refine ⟨
    { partition := .range, dataSyncTs := 5, lastSyncTs := 5, place := .completed,
      txm := .committed, completions := [some .requestedNodeNotLeader, none] },
    Run.of_foldlM step (fun _ _ _ stepped => stepped) rfl, rfl, rfl, fun ends => ?_⟩
  have once := ends.once rfl
  cases once

end SyncTask

end TxService
