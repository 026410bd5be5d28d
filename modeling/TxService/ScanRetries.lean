import TxService.SyncTaskEnds

/-!
# A task that is put back

A task whose scan fails goes back to its queue with the error still recorded in it. The next run
keeps the first error, so that it puts the task back again even when it succeeds.
-/

namespace TxService

open Transition

namespace SyncTask

variable {t u : SyncTask} {a : SyncAction}

inductive Processed (t u : SyncTask) : Prop
  | waits : u.place = t.place → u.retries = t.retries → Processed t u
  | ends : u.ckptErr = none → u.place = .ending → u.retries = t.retries → Processed t u
  | retries : u.ckptErr = some .scanError → u.place = .queued → u.retries = t.retries + 1 →
      Processed t u
  | fails : u.ckptErr = some .flushError → u.place = .failing → u.retries = t.retries →
      Processed t u

theorem postProcess_processed (t : SyncTask) (err : Option CkptErrorCode) :
    Processed t (t.postProcess err) := by
  unfold postProcess
  simp only
  split
  · split
    · rename_i found
      exact .ends found rfl rfl
    · rename_i found
      cases t.duringSplitRange <;> exact .retries found rfl rfl
    · rename_i found
      exact .fails found rfl rfl
  · exact .waits rfl rfl

theorem postProcess_ckptErr (t : SyncTask) (err : Option CkptErrorCode) :
    (t.postProcess err).ckptErr = if t.ckptErr = none then err else t.ckptErr := by
  unfold postProcess
  simp only
  split
  · split
    · rfl
    · cases t.duringSplitRange <;> rfl
    · rfl
  · rfl

/-- A task that has been put back for a failed scan keeps the error, and no other task in the
queue has one. -/
structure Marked (t : SyncTask) : Prop where
  retried : t.retries ≠ 0 → t.ckptErr = some .scanError
  clean : t.retries = 0 → t.place = .queued → t.ckptErr = none

theorem Fresh.marked (h : Fresh t) : Marked t :=
  ⟨fun some_ => absurd h.retries some_, fun _ _ => h.ckptErr⟩

theorem Marked.postProcess (h : Marked t) (err : Option CkptErrorCode)
    (taken : t.place ≠ .queued) : Marked (t.postProcess err) := by
  have kept := postProcess_ckptErr t err
  have mark : t.retries ≠ 0 → (t.postProcess err).ckptErr = some .scanError := by
    intro some_
    rw [kept, h.retried some_]
    rfl
  cases postProcess_processed t err with
  | waits place same =>
    exact ⟨fun some_ => mark (same ▸ some_), fun _ queued => absurd (place ▸ queued) taken⟩
  | ends _ place same =>
    exact ⟨fun some_ => mark (same ▸ some_), fun _ queued => by cases place.symm.trans queued⟩
  | retries found _ more =>
    refine ⟨fun _ => found, fun zero => ?_⟩
    omega
  | fails _ place same =>
    exact ⟨fun some_ => mark (same ▸ some_), fun _ queued => by cases place.symm.trans queued⟩

/-- The same error and the same count, and not in the queue. -/
theorem Marked.off_queue (h : Marked t) (ckptErr : u.ckptErr = t.ckptErr)
    (retries : u.retries = t.retries) (taken : u.place ≠ .queued) : Marked u :=
  ⟨fun some_ => ckptErr.trans (h.retried (retries ▸ some_)), fun _ queued => absurd queued taken⟩

theorem Marked.started (h : Marked t) (queued : t.place = .queued) (started : Started t u) :
    Marked u :=
  have frame := started.frame
  ⟨fun some_ => frame.ckptErr.trans (h.retried (frame.retries ▸ some_)),
    fun zero _ => frame.ckptErr.trans (h.clean (frame.retries ▸ zero) queued)⟩

theorem Marked.completed (h : Marked t) (started : Started t u) (done : u.place = .completed) :
    Marked u :=
  h.off_queue started.frame.ckptErr started.frame.retries (by rw [done]; nofun)

theorem Marked.leave (h : Marked t) (err : Option CkptErrorCode) : Marked (t.leave err) := by
  have away : Marked { t with place := .left } := h.off_queue rfl rfl nofun
  exact away.postProcess err nofun

theorem Marked.scan (h : Marked t) (round : SyncScan) : Marked (t.scan round) := by
  unfold SyncTask.scan
  split
  · split
    · exact h.leave _
    · exact h.off_queue rfl rfl nofun
  · split
    · exact h.leave _
    · cases t.forwardCache <;> simp only [if_true, if_false, Bool.false_eq_true] <;> split <;>
        exact h.off_queue rfl rfl nofun

theorem ckptEnd_completed (t : SyncTask) (ok catalogExists : Bool) :
    (t.ckptEnd ok catalogExists).place = .completed := by
  unfold ckptEnd
  simp only
  split
  · rfl
  split <;> rfl

theorem splitFlushRange_completed (t : SyncTask) (partitionId ok : Bool) :
    (t.splitFlushRange partitionId ok).place = .completed := by
  unfold splitFlushRange
  split <;> rfl

theorem Marked.step (h : Marked t) (flying : Flying t) (stepped : Step t a u) : Marked u := by
  have busy : t.place.landed = false → t.place ≠ .queued := by
    rintro aloft queued
    simp [queued, TaskPlace.landed] at aloft
  unfold Step SyncTask.step at stepped
  cases a with
  | dataSync found =>
    obtain ⟨queued, rfl⟩ : t.place = .queued ∧ t.dataSync found = u := by simpa using stepped
    exact h.started queued (dataSync_started t found)
  | scan round =>
    obtain ⟨-, rfl⟩ : t.place = .scanning ∧ t.scan round = u := by simpa using stepped
    exact h.scan round
  | allocate =>
    simp only at stepped
    split at stepped <;> cases stepped
    exact h.off_queue rfl rfl (by rintro ⟨⟩)
  | handOver =>
    simp only at stepped
    split at stepped <;> cases stepped
    rename_i drained _
    unfold handOver
    split
    · exact h.off_queue rfl rfl (by rintro ⟨⟩)
    · cases drained <;> exact h.off_queue rfl rfl (by rintro ⟨⟩)
  | flushLeft =>
    simp only at stepped
    split at stepped <;> cases stepped
    unfold flushLeft
    split <;> exact h.off_queue rfl rfl (by rintro ⟨⟩)
  | endScan =>
    obtain ⟨-, rfl⟩ : t.place = .drained none ∧ t.leave none = u := by simpa using stepped
    exact h.leave none
  | flush i succ =>
    simp only [Option.ite_none_right_eq_some, Option.some.injEq] at stepped
    obtain ⟨bound, rfl⟩ := stepped
    have taken := busy (flying.aloft_of_flush bound)
    have fewer : Marked { t with flushWork := t.flushWork.eraseIdx i } := h.off_queue rfl rfl taken
    exact fewer.postProcess _ taken
  | uploaded =>
    simp only [Option.ite_none_left_eq_some, Option.some.injEq] at stepped
    obtain ⟨some_, rfl⟩ := stepped
    have taken := busy (flying.aloft_of_upload some_)
    have fewer : Marked { t with uploads := t.uploads - 1 } := h.off_queue rfl rfl taken
    exact fewer.postProcess _ taken
  | updateStoreSlice stored isLeader =>
    obtain ⟨-, rfl⟩ : (t.place = .ending ∧ t.partition = .range) ∧
      t.updateStoreSlice stored isLeader = u := by simpa using stepped
    obtain ⟨same | same, -⟩ | ⟨-, same⟩ := updateStoreSlice_cases t stored isLeader
    · rw [same]
      exact h.completed (finishRange_started t) rfl
    · rw [same]
      exact h
    · rw [same]
      have told : Marked (t.setError .requestedNodeNotLeader) := h.off_queue rfl rfl (by rintro ⟨⟩)
      exact told.completed (finishRange_started _) rfl
  | ckptEnd ok catalogExists =>
    obtain ⟨-, rfl⟩ : (t.place = .ending ∧ t.partition = .hash) ∧
      t.ckptEnd ok catalogExists = u := by simpa using stepped
    exact h.completed (ckptEnd_started t ok catalogExists) (ckptEnd_completed t ok catalogExists)
  | fail leaderTerm standbyNodeTerm =>
    obtain ⟨-, rfl⟩ : t.place = .failing ∧ t.fail leaderTerm standbyNodeTerm = u := by
      simpa using stepped
    exact h.completed (fail_started t leaderTerm standbyNodeTerm) rfl
  | splitFlushRange partitionId ok =>
    obtain ⟨-, rfl⟩ : t.place = .splitting ∧ t.splitFlushRange partitionId ok = u := by
      simpa using stepped
    exact h.completed (splitFlushRange_started t partitionId ok) (splitFlushRange_completed t _ _)

/-- The scan goes on to the end and the flush tasks succeed. -/
def Succeeds (forwardCache : Bool) : SyncAction → Prop
  | .dataSync _ => False
  | .scan round => round.failed = false ∧ (forwardCache = true → round.bucketInfos = true)
  | .flush _ succ => succ = true
  | _ => True

/-- A run of a task on its way, with the error that the task came with. -/
structure Underway (err : Option CkptErrorCode) (t : SyncTask) : Prop where
  ckptErr : t.ckptErr = err
  completions : t.completions = []
  place : t.place.landed = false ∨ err = none ∧ t.place = .ending ∨
    err = some .scanError ∧ t.place = .queued

variable {err : Option CkptErrorCode}

theorem Underway.postProcess (known : err ≠ some .flushError) (ckptErr : t.ckptErr = err)
    (completions : t.completions = []) (aloft : t.place.landed = false) :
    Underway err (t.postProcess none) := by
  have kept : (t.postProcess none).ckptErr = err := by
    rw [postProcess_ckptErr, ← ckptErr]
    split <;> simp_all
  have silent := silent_postProcess t none (by rintro done; simp [done, TaskPlace.landed] at aloft)
  refine ⟨kept, silent.completions.trans completions, ?_⟩
  cases postProcess_processed t none with
  | waits place _ => exact .inl (place ▸ aloft)
  | ends found place _ => exact .inr (.inl ⟨kept.symm.trans found, place⟩)
  | retries found place _ => exact .inr (.inr ⟨kept.symm.trans found, place⟩)
  | fails found _ _ => exact absurd (kept.symm.trans found) known

theorem Underway.scan (h : Underway err t) {round : SyncScan} (hash : t.partition = .hash)
    (succeeds : Succeeds t.forwardCache (.scan round)) :
    Underway err (t.scan round) := by
  have keeps : ¬ (round.failed || t.forwardCache && !round.bucketInfos) = true := by
    obtain ⟨scanned, known⟩ := succeeds
    cases forward : t.forwardCache <;> simp_all
  unfold SyncTask.scan
  rw [hash]
  simp only [keeps]
  cases t.forwardCache <;> simp only [if_true, if_false, Bool.false_eq_true] <;> split <;>
    exact ⟨h.ckptErr, h.completions, .inl rfl⟩

theorem Underway.step (h : Underway err t) (flying : Flying t) (known : err ≠ some .flushError)
    (hash : t.partition = .hash) (succeeds : Succeeds t.forwardCache a) (stepped : Step t a u) :
    Underway err u ∧ (∀ ok catalogExists, a ≠ .ckptEnd ok catalogExists) ∨
      err = none ∧ ∃ ok catalogExists, a = .ckptEnd ok catalogExists ∧
        u = t.ckptEnd ok catalogExists := by
  unfold Step SyncTask.step at stepped
  cases a with
  | dataSync found => exact succeeds.elim
  | scan round =>
    obtain ⟨-, rfl⟩ : t.place = .scanning ∧ t.scan round = u := by simpa using stepped
    exact .inl ⟨h.scan hash succeeds, nofun⟩
  | allocate =>
    simp only at stepped
    split at stepped <;> cases stepped
    exact .inl ⟨⟨h.ckptErr, h.completions, .inl rfl⟩, nofun⟩
  | handOver =>
    simp only at stepped
    split at stepped <;> cases stepped
    rename_i drained _
    unfold SyncTask.handOver
    rw [if_neg (h.ckptErr ▸ known)]
    cases drained <;> exact .inl ⟨⟨h.ckptErr, h.completions, .inl rfl⟩, nofun⟩
  | flushLeft =>
    simp only at stepped
    split at stepped <;> cases stepped
    unfold SyncTask.flushLeft
    split <;> exact .inl ⟨⟨h.ckptErr, h.completions, .inl rfl⟩, nofun⟩
  | endScan =>
    obtain ⟨-, rfl⟩ : t.place = .drained none ∧ t.leave none = u := by simpa using stepped
    exact .inl ⟨.postProcess known h.ckptErr h.completions rfl, nofun⟩
  | flush i succ =>
    simp only [Option.ite_none_right_eq_some, Option.some.injEq] at stepped
    obtain ⟨bound, rfl⟩ := stepped
    obtain rfl : succ = true := succeeds
    exact .inl ⟨.postProcess known h.ckptErr h.completions (flying.aloft_of_flush bound), nofun⟩
  | uploaded =>
    simp only [Option.ite_none_left_eq_some, Option.some.injEq] at stepped
    obtain ⟨some_, rfl⟩ := stepped
    exact .inl ⟨.postProcess known h.ckptErr h.completions (flying.aloft_of_upload some_), nofun⟩
  | updateStoreSlice stored isLeader =>
    simp [hash] at stepped
  | ckptEnd ok catalogExists =>
    obtain ⟨⟨place, -⟩, rfl⟩ : (t.place = .ending ∧ t.partition = .hash) ∧
      t.ckptEnd ok catalogExists = u := by simpa using stepped
    refine .inr ⟨?_, ok, catalogExists, rfl, rfl⟩
    obtain aloft | ⟨none_, -⟩ | ⟨-, queued⟩ := h.place
    · simp [place, TaskPlace.landed] at aloft
    · exact none_
    · cases place.symm.trans queued
  | fail leaderTerm standbyNodeTerm =>
    obtain ⟨failing, -⟩ : t.place = .failing ∧ t.fail leaderTerm standbyNodeTerm = u := by
      simpa using stepped
    obtain aloft | ⟨-, ending⟩ | ⟨-, queued⟩ := h.place
    · simp [failing, TaskPlace.landed] at aloft
    · cases failing.symm.trans ending
    · cases failing.symm.trans queued
  | splitFlushRange partitionId ok =>
    obtain ⟨splitting, -⟩ : t.place = .splitting ∧ t.splitFlushRange partitionId ok = u := by
      simpa using stepped
    obtain aloft | ⟨-, ending⟩ | ⟨-, queued⟩ := h.place
    · simp [splitting, TaskPlace.landed] at aloft
    · cases splitting.symm.trans ending
    · cases splitting.symm.trans queued

/-- How the run of a task that came with an error, or without, has gone so far. -/
inductive Passed (err : Option CkptErrorCode) (acts : List SyncAction) (t : SyncTask) : Prop
  | underway : Underway err t → (∀ ok catalogExists, .ckptEnd ok catalogExists ∉ acts) →
      Passed err acts t
  | ended (before : List SyncAction) (ok catalogExists : Bool) : err = none →
      acts = before ++ [.ckptEnd ok catalogExists] →
      (∀ ok catalogExists, .ckptEnd ok catalogExists ∉ before) → t.place = .completed →
      t.txm = .committed → t.completions = [if ok then none else some .dataStoreErr] →
      Passed err acts t

theorem Underway.ckptEnd (h : Underway err t) (ok catalogExists : Bool) :
    (t.ckptEnd ok catalogExists).txm = .committed ∧
      (t.ckptEnd ok catalogExists).completions = [if ok then none else some .dataStoreErr] := by
  unfold SyncTask.ckptEnd updateLastDataSyncTs
  cases ok with
  | false => simp [setError, commitTx, h.completions]
  | true =>
    simp only [Bool.not_true, Bool.false_eq_true, if_false]
    split
    · split <;> simp [setFinish, commitTx, h.completions]
    · simp [setFinish, commitTx, h.completions]

theorem run_passed (known : err ≠ some .flushError) {acts : List SyncAction} (h : Underway err t)
    (flying : Flying t) (hash : t.partition = .hash) (run : Run Step t acts u)
    (succeeds : ∀ a ∈ acts, Succeeds t.forwardCache a) :
    Passed err acts u := by
  have history := Run.history
    (P := fun acts v => (∀ a ∈ acts, Succeeds t.forwardCache a) →
      Flying v ∧ Fixed t v ∧ Passed err acts v) run ?_ ?_
  · exact (history succeeds).2.2
  · exact fun _ => ⟨flying, ⟨rfl, rfl, rfl⟩, .underway h fun _ _ => List.not_mem_nil⟩
  · intro acts v a w stepped ih all
    obtain ⟨flying, fixed, passed⟩ := ih fun b mem => all b (List.mem_append_left _ mem)
    have good : Succeeds v.forwardCache a := fixed.forwardCache ▸ all a (by simp)
    have next := step_fixed stepped
    refine ⟨step_flying flying stepped, ⟨next.partition.trans fixed.partition,
      next.forwardCache.trans fixed.forwardCache,
      next.duringSplitRange.trans fixed.duringSplitRange⟩, ?_⟩
    cases passed with
    | underway on none_ =>
      obtain ⟨still, other⟩ | ⟨clean, ok, catalogExists, rfl, rfl⟩ :=
        on.step flying known (fixed.partition.trans hash) good stepped
      · refine .underway still fun ok catalogExists mem => ?_
        obtain old | now := List.mem_append.mp mem
        · exact none_ ok catalogExists old
        · exact other ok catalogExists (List.mem_singleton.mp now).symm
      · obtain ⟨committed, told⟩ := on.ckptEnd ok catalogExists
        exact .ended acts ok catalogExists clean rfl none_ (ckptEnd_completed _ _ _) committed told
    | ended _ _ _ _ _ _ done => exact absurd done (flying.not_completed stepped)

/-- What is known of a task in any run of it. -/
structure Known (start t : SyncTask) : Prop where
  flying : Flying t
  marked : Marked t
  partition : t.partition = start.partition
  opened : t.place ≠ .completed → t.completions = []

theorem Fresh.run_known {start : SyncTask} {acts : List SyncAction} (fresh : Fresh start)
    (run : Run Step start acts t) : Known start t := by
  refine Run.history (P := fun _ t => Known start t) run ?_ ?_
  · exact ⟨fresh.flying, fresh.marked, rfl, fun _ => fresh.completions⟩
  · rintro _ t a u stepped known
    have opened := known.flying.not_completed stepped
    refine ⟨step_flying known.flying stepped, known.marked.step known.flying stepped,
      (step_fixed stepped).partition.trans known.partition, fun still => ?_⟩
    obtain ⟨silent | ⟨_, told⟩, -⟩ | ⟨-, done, -⟩ := step_outcome opened stepped
    · exact silent.completions.trans (known.opened opened)
    · exact absurd told.place still
    · exact absurd done still

/-- A run that scans to the end and whose flush tasks succeed completes the task exactly when no
earlier run has put it back, and the store ends the checkpoint. -/
theorem retry_completes_iff (start s t : SyncTask) (earlier acts : List SyncAction)
    (found : SyncStart) (fresh : Fresh start) (hash : start.partition = .hash)
    (before : Run Step start earlier s) (queued : s.place = .queued)
    (scans : (s.dataSync found).place = .scanning)
    (run : Run Step (s.dataSync found) acts t)
    (succeeds : ∀ a ∈ acts, Succeeds s.forwardCache a)
    (past : t.place = .queued ∨ t.place = .completed) :
    t.txm = .committed ∧ t.completions = [none] ↔
      s.retries = 0 ∧ ∀ catalogExists, .ckptEnd false catalogExists ∉ acts := by
  have known := fresh.run_known before
  have begun : Step s (.dataSync found) (s.dataSync found) := by simp [Step, step, queued]
  have started := dataSync_started s found
  have frame := started.frame
  have empty : (s.dataSync found).completions = [] := by
    obtain silent | ⟨_, told⟩ := started.outcome
    · exact silent.completions.trans (known.opened (by rw [queued]; rintro ⟨⟩))
    · cases scans.symm.trans told.place
  have underway : Underway s.ckptErr (s.dataSync found) :=
    ⟨frame.ckptErr, empty, .inl (by rw [scans]; rfl)⟩
  have first : s.ckptErr ≠ some .flushError := by
    intro flushed
    by_cases none_ : s.retries = 0
    · cases (known.marked.clean none_ queued).symm.trans flushed
    · cases (known.marked.retried none_).symm.trans flushed
  have passed := run_passed first underway (step_flying known.flying begun)
    (frame.partition.trans (known.partition.trans hash)) run (frame.forwardCache.symm ▸ succeeds)
  cases passed with
  | underway on none_ =>
    have putBack : s.ckptErr = some .scanError := by
      obtain aloft | ⟨-, ending⟩ | ⟨found, -⟩ := on.place
      · obtain here | here := past <;> simp [here, TaskPlace.landed] at aloft
      · obtain here | here := past <;> cases ending.symm.trans here
      · exact found
    refine iff_of_false (fun both => ?_) (fun both => ?_)
    · cases on.completions.symm.trans both.2
    · cases (known.marked.clean both.1 queued).symm.trans putBack
  | ended past ok catalogExists clean shape none_ _ committed told =>
    have zero : s.retries = 0 := by
      by_contra some_
      cases clean.symm.trans (known.marked.retried some_)
    subst shape
    cases ok with
    | true =>
      refine iff_of_true ⟨committed, told⟩ ⟨zero, fun c mem => ?_⟩
      obtain old | now := List.mem_append.mp mem
      · exact none_ _ _ old
      · simp at now
    | false =>
      refine iff_of_false (fun other => ?_) (fun both => both.2 catalogExists (by simp))
      cases told.symm.trans other.2

/-- One round that is scanned and flushed. -/
def goodRound : List SyncAction :=
  [.scan { scanCnt := 1, memUsage := 8, drained := true }, .allocate, .handOver, .endScan,
    .flush 0 true]

theorem goodRound_succeeds : ∀ a ∈ goodRound, Succeeds false a := by
  simp [goodRound, Succeeds]

theorem retry_completes_iff_first :
    ∃ t, Run Step (dataSync { partition := .hash, dataSyncTs := 5 } {})
        (goodRound ++ [.ckptEnd true true]) t ∧
      t.txm = .committed ∧ t.completions = [none] := by
  refine ⟨
    { partition := .hash, dataSyncTs := 5, lastSyncTs := 5, place := .completed,
      txm := .committed, completions := [none] },
    Run.of_foldlM step (fun _ _ _ stepped => stepped) rfl, ?_⟩
  refine (retry_completes_iff { partition := .hash, dataSyncTs := 5 }
    { partition := .hash, dataSyncTs := 5 } _ [] (goodRound ++ [.ckptEnd true true]) {}
    ⟨rfl, rfl, rfl, rfl, rfl, rfl, rfl⟩ rfl (.nil _) rfl rfl
    (Run.of_foldlM step (fun _ _ _ stepped => stepped) rfl) ?_ (.inr rfl)).mpr ⟨rfl, by simp [goodRound]⟩
  intro a mem
  obtain old | now := List.mem_append.mp mem
  · exact goodRound_succeeds a old
  · simp [List.mem_singleton.mp now, Succeeds]

/-- After one failed scan, a run that scans to the end and is flushed puts the task back. -/
theorem put_back_again :
    ∃ s t, Run Step { partition := .hash, dataSyncTs := 5 }
        [.dataSync {}, .scan { failed := true, scanCnt := 0, memUsage := 0, drained := false }] s ∧
      s.place = .queued ∧ s.retries = 1 ∧ Run Step (s.dataSync {}) goodRound t ∧
      t.place = .queued ∧ t.retries = 2 ∧ t.txm = .aborted ∧ t.completions = [] := by
  refine ⟨
    { partition := .hash, dataSyncTs := 5, ckptErr := some .scanError, txm := .aborted,
      retries := 1 },
    { partition := .hash, dataSyncTs := 5, ckptErr := some .scanError, txm := .aborted,
      retries := 2 }, ?_, rfl, rfl, ?_, rfl, rfl, rfl, rfl⟩
  · exact Run.of_foldlM step (fun _ _ _ stepped => stepped) rfl
  · exact Run.of_foldlM step (fun _ _ _ stepped => stepped) rfl

end SyncTask

end TxService
