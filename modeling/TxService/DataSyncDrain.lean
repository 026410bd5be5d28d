import TxService.SyncTables
import TxService.Transition

/-!
# A successful data sync has drained its scan

An entry that needs a checkpoint all the time has to be in a flush task when the loop is left
without an error.
-/

namespace TxService

open Transition KeyCursor

universe u v w

variable {K : Type v} {V : Type u} {E : Type w}

namespace ScanSlot

theorem Went.passed [LinearOrder K] {visit : CcItem K E → SyncVisit K V E} {skip : Nat → Bool}
    {s t : ScanSlot K V E} {gone left : List (CcItem K E)} {key : K}
    (h : Went visit skip s t gone left)
    (passed : t.rest = [] ∨ Behind key (restingOn CcItem.key t.rest)) :
    left = [] ∨ Behind key (restingOn CcItem.key left) := by
  rcases h.rest with same | ⟨x, rest, entry, rows, rfl, _, touched⟩
  · rwa [same] at passed
  · rw [touched] at passed
    rcases passed with empty | behind
    · cases empty
    · exact Or.inr behind

variable {visit : CcItem K E → SyncVisit K V E} {skip : Nat → Bool} {row : FlushRecord K V}
  {gone : List (CcItem K E)} {vecs : CkptVecs K V}

theorem exports_keeps (x : CcItem K E)
    (keeps : ∀ e rows, visit x = .ckpt e rows → ∀ vecs : CkptVecs K V,
      vecs.ckptVec ⊆ (rows vecs).ckptVec) (mem : row ∈ vecs.ckptVec) :
    row ∈ (exports visit skip vecs x).ckptVec := by
  unfold exports
  split
  · exact mem
  · split
    · rename_i e rows visited
      exact keeps e rows visited vecs mem
    · exact mem
    · exact mem

section
variable (keeps : ∀ x e rows, visit x = .ckpt e rows → ∀ vecs : CkptVecs K V,
  vecs.ckptVec ⊆ (rows vecs).ckptVec)
include keeps

theorem foldl_keeps (gone : List (CcItem K E)) (mem : row ∈ vecs.ckptVec) :
    row ∈ (gone.foldl (exports visit skip) vecs).ckptVec := by
  induction gone generalizing vecs with
  | nil => exact mem
  | cons x gone ih => exact ih (exports_keeps x (keeps x) mem)

theorem foldl_exports {x : CcItem K E} {e : E} {rows : CkptVecs K V → CkptVecs K V}
    (hx : x ∈ gone) (looked : skip x.page = false) (visited : visit x = .ckpt e rows)
    (mem : ∀ vecs, row ∈ (rows vecs).ckptVec) :
    row ∈ (gone.foldl (exports visit skip) vecs).ckptVec := by
  induction gone generalizing vecs with
  | nil => cases hx
  | cons y gone ih =>
    cases hx with
    | head =>
      rw [List.foldl_cons]
      apply foldl_keeps keeps
      simp [exports, looked, visited, mem]
    | tail _ hx => exact ih hx

end

end ScanSlot

namespace DataSync

variable [LinearOrder K]

inductive Action (K : Type v) (E : Type w) [LinearOrder K]
  | slot (recycleTs : Nat) (m : PagedMap K E) (heapFull : List Bool)
  | afterRound (flushError : Bool)

def step (T : SyncTable K V E) (d : DataSync K V) : Action K E → Option (DataSync K V)
  | .slot recycleTs m heapFull =>
    if d.phase = .scanning then
      some (d.executed (d.scanCc.execute (T.visit recycleTs) m heapFull))
    else none
  | .afterRound flushError => if d.phase = .scanned then some (d.afterRound flushError) else none

def run (T : SyncTable K V E) (d : DataSync K V) (actions : List (Action K E)) :
    Option (DataSync K V) :=
  actions.foldlM (step T) d

/-- The key has an entry that needs a checkpoint up to the timestamp of the sync. -/
def Needed (T : SyncTable K V E) (key : K) (d : DataSync K V) : Action K E → Prop
  | .slot _ m _ => ∃ x ∈ m.items, x.key = key ∧ T.needs d.scanCc.dataSyncTs x.entry
  | .afterRound _ => True

/-- The entry of the key does not wait on a page that is skipped or for something else, and
no round ends on a full heap before it has exported anything. -/
def Safe (T : SyncTable K V E) (key : K) (d : DataSync K V) : Action K E → Prop
  | .slot _ m _ => ∀ x ∈ m.items, x.key = key →
      d.scanCc.skips m.lastDirtyCommitTs x.page = false ∧ ¬ T.waits x.entry
  | .afterRound _ => d.scanCc.scanHeapIsFull = true → d.scanCc.vecs.ckptVec ≠ []

/-- A row of the key, up to a timestamp. -/
def IsRow (key : K) (ts : Nat) (row : FlushRecord K V) : Prop :=
  row.key = key ∧ row.hasCce = true ∧ row.commitTs ≤ ts

/-- The key has been handed to a flush task. -/
def Flushing (key : K) (d : DataSync K V) : Prop :=
  ∃ task ∈ d.pendingFlushWork, ∃ row ∈ task.dataSyncVec, IsRow key d.scanCc.dataSyncTs row

structure Covered (key : K) (d : DataSync K V) : Prop where
  plain : d.scanCc.filterLambda = none
  batch : 0 < d.scanCc.scanBatchSize
  passed : d.scanCc.drained = true ∨ Behind key d.scanCc.pausePos →
    (∃ row ∈ d.scanCc.vecs.ckptVec, IsRow key d.scanCc.dataSyncTs row) ∨ Flushing key d
  scanned : d.phase = .scanned → d.scanCc.err ≠ some .taskExpired →
    d.scanCc.drained = true ∨ d.scanCc.scanHeapIsFull = true ∨
      d.scanCc.scanBatchSize ≤ d.scanCc.vecs.ckptVec.length
  left : d.phase = .left → d.ckptErr = none → Flushing key d

variable {T : SyncTable K V E} {key : K} {d : DataSync K V}

theorem Covered.passing (h : Covered key d) {recycleTs : Nat} {m : PagedMap K E} {heapFull : List Bool}
    (needed : Needed T key d (.slot recycleTs m heapFull))
    (safe : Safe T key d (.slot recycleTs m heapFull))
    (here : d.scanCc.expired m = false)
    (passed : (d.scanCc.slot (T.visit recycleTs) m heapFull).rest = [] ∨
      Behind key (restingOn CcItem.key (d.scanCc.slot (T.visit recycleTs) m heapFull).rest)) :
    (∃ row ∈ (d.scanCc.slot (T.visit recycleTs) m heapFull).vecs.ckptVec,
      IsRow key d.scanCc.dataSyncTs row) ∨ Flushing key d := by
  obtain ⟨gone, left, went⟩ := ScanSlot.scan_went (T.visit recycleTs d.scanCc)
    (d.scanCc.skips m.lastDirtyCommitTs) d.scanCc.scanBatchSize heapFull
    { seen := [], rest := onward CcItem.key m.items d.scanCc.pausePos, vecs := d.scanCc.vecs }
  obtain ⟨x, hx, rfl, needs⟩ := needed
  obtain ⟨looked, ready⟩ := safe x hx rfl
  have passed' := went.passed passed
  have vecs : (d.scanCc.slot (T.visit recycleTs) m heapFull).vecs = _ := went.vecs
  rw [vecs]
  rcases DataSyncScanCc.passing here went.split hx passed' with behind | gone
  · rcases h.passed (Or.inr behind) with ⟨row, mem, isRow⟩ | flushing
    · exact Or.inl ⟨row, ScanSlot.foldl_keeps (T.keeps recycleTs d.scanCc) _ mem, isRow⟩
    · exact Or.inr flushing
  · obtain ⟨e, rows, visited, mem⟩ := T.exports recycleTs d.scanCc x h.plain needs ready
    refine Or.inl ⟨T.row x.key x.entry, ?_, T.row_key _ _, T.row_hasCce _ _,
      T.row_commitTs _ _ _ needs⟩
    exact ScanSlot.foldl_exports (T.keeps recycleTs d.scanCc) gone looked visited mem

theorem Covered.slot (h : Covered key d) {recycleTs : Nat} {m : PagedMap K E} {heapFull : List Bool}
    (needed : Needed T key d (.slot recycleTs m heapFull))
    (safe : Safe T key d (.slot recycleTs m heapFull)) :
    Covered key (d.executed (d.scanCc.execute (T.visit recycleTs) m heapFull)) := by
  unfold DataSyncScanCc.execute
  split
  · rename_i drained
    exact ⟨h.plain, h.batch, h.passed, fun _ _ => Or.inl drained, by simp [executed]⟩
  · rename_i undrained
    split
    · exact ⟨h.plain, h.batch, h.passed, fun _ expired => absurd rfl expired, by simp [executed]⟩
    · rename_i here
      have task := DataSyncScanCc.afterSlot_sameTask d.scanCc
        (d.scanCc.slot (T.visit recycleTs) m heapFull)
      obtain ⟨vecs, drained, pausePos, -⟩ :=
        DataSyncScanCc.afterSlot_fields (s := d.scanCc.slot (T.visit recycleTs) m heapFull)
          (by simpa using undrained)
      refine ⟨task.filterLambda.trans h.plain, ?_, ?_, ?_, ?_⟩
      · rw [executed, task.scanBatchSize]
        exact h.batch
      · intro passed
        have passed' : (d.scanCc.slot (T.visit recycleTs) m heapFull).rest = [] ∨ Behind key
            (restingOn CcItem.key (d.scanCc.slot (T.visit recycleTs) m heapFull).rest) :=
          passed.imp (fun done => List.isEmpty_iff.mp (drained.symm.trans done)) fun behind =>
            pausePos ▸ behind
        have rows := h.passing needed safe (by simpa using here) passed'
        simpa only [executed, Flushing, vecs, task.dataSyncTs] using rows
      · intro scanned _
        apply DataSyncScanCc.afterSlot_finished
        by_contra unfinished
        simp [executed, unfinished] at scanned
      · intro left
        simp only [executed] at left
        split at left <;> cases left

theorem Covered.afterRound (h : Covered key d) (scanned : d.phase = .scanned) {flushError : Bool}
    (safe : Safe (E := E) T key d (.afterRound flushError)) : Covered key (d.afterRound flushError) := by
  unfold DataSync.afterRound
  split
  · exact ⟨h.plain, h.batch, h.passed, by simp, by simp⟩
  · rename_i valid
    have ended := h.scanned scanned valid
    simp only
    split
    · rename_i empty
      have empty : d.scanCc.vecs.ckptVec = [] := by simpa using empty
      have flushing (passed : d.scanCc.drained = true ∨ Behind key d.scanCc.pausePos) :
          Flushing key d := by
        rcases h.passed passed with ⟨row, mem, _⟩ | flushing
        · rw [empty] at mem
          cases mem
        · exact flushing
      refine ⟨h.plain, h.batch, fun passed => Or.inr (flushing passed), by simp, ?_⟩
      intro _ _
      apply flushing
      left
      rcases ended with drained | full | batch
      · exact drained
      · exact absurd empty (safe full)
      · have := h.batch
        rw [empty] at batch
        simp at batch
        omega
    · split
      · exact ⟨h.plain, h.batch, h.passed, by simp, by simp⟩
      · have flushing (passed : d.scanCc.drained = true ∨ Behind key d.scanCc.pausePos) :
            ∃ task ∈ d.pendingFlushWork ++ [d.scanCc.vecs.flushDataTask],
              ∃ row ∈ task.dataSyncVec, IsRow key d.scanCc.dataSyncTs row := by
          rcases h.passed passed with ⟨row, mem, isRow⟩ | ⟨task, mem, flushing⟩
          · refine ⟨_, List.mem_append_right _ List.mem_cons_self, row, ?_, isRow⟩
            exact List.mem_filter.mpr ⟨mem, isRow.2.1⟩
          · exact ⟨task, List.mem_append_left _ mem, flushing⟩
        refine ⟨h.plain, h.batch, fun passed => Or.inr (flushing passed), ?_, ?_⟩
        · intro again
          simp only at again
          split at again <;> cases again
        · intro left _
          simp only at left
          split at left
          · rename_i drained
            exact flushing (Or.inl drained)
          · cases left

/-- The rounds of a sync without a filter, on maps in which the key needs a checkpoint all
the time, whose steps are all safe for it. -/
def Reached (T : SyncTable K V E) (key : K) : DataSync K V → Prop :=
  Reachable
    (fun d => ∃ dataSyncTs previousCkptTs scanBatchSize forwardCache, 0 < scanBatchSize ∧
      d = start dataSyncTs previousCkptTs scanBatchSize forwardCache none)
    fun d action t => Needed T key d action ∧ Safe T key d action ∧ step T d action = some t

theorem Reached.covered (h : Reached T key d) : Covered key d := by
  refine h.invariant ?_ ?_
  · rintro _ ⟨dataSyncTs, previousCkptTs, scanBatchSize, forwardCache, batch, rfl⟩
    exact ⟨rfl, batch, by simp [start, Behind], by simp [start], by simp [start]⟩
  · rintro d action t ⟨needed, safe, step⟩ covered
    cases action with
    | slot recycleTs m heapFull =>
      simp only [DataSync.step, Option.ite_none_right_eq_some, Option.some.injEq] at step
      obtain ⟨_, rfl⟩ := step
      exact covered.slot needed safe
    | afterRound flushError =>
      simp only [DataSync.step, Option.ite_none_right_eq_some, Option.some.injEq] at step
      obtain ⟨scanned, rfl⟩ := step
      exact covered.afterRound scanned safe

/-- When the loop is left without an error, an entry that needed a checkpoint all the time
is in a flush task, if all steps were safe for it. -/
theorem data_sync_drains (K : Type v) (V : Type u) [LinearOrder K] :
    (∀ (key : K) (d : DataSync K V), Reached (objectTable K V) key d →
      d.phase = .left → d.ckptErr = none → Flushing key d) ∧
    ∀ (mvccEnabled : Bool) (key : K) (d : DataSync K V),
      Reached (versionedTable K V mvccEnabled) key d →
      d.phase = .left → d.ckptErr = none → Flushing key d :=
  ⟨fun _ _ reached => reached.covered.left, fun _ _ _ reached => reached.covered.left⟩

def dirtyAt (ts : Nat) : SyncEntry Nat :=
  { curPayload := some 0, commitTs := ts, payloadStatus := .normal, bufferedCmds := []
    flushed := false }

def oneEntry (ts : Nat) : PagedMap Nat (SyncEntry Nat) where
  items := [⟨1, 0, dirtyAt ts⟩]
  lastDirtyCommitTs _ := ts
  sorted := List.pairwise_singleton _ _

def threeEntries : PagedMap Nat (SyncEntry Nat) where
  items := [⟨1, 0, dirtyAt 5⟩, ⟨2, 0, dirtyAt 6⟩, ⟨3, 1, dirtyAt 7⟩]
  lastDirtyCommitTs _ := 7
  sorted := by simp [Sorted]

theorem slot_threeEntries {d : DataSync Nat Nat} (heapFull : List Bool)
    (ts : d.scanCc.dataSyncTs = 10) (previous : d.scanCc.previousCkptTs = 0) :
    Needed (objectTable Nat Nat) 3 d (.slot 0 threeEntries heapFull) ∧
      Safe (objectTable Nat Nat) 3 d (.slot 0 threeEntries heapFull) := by
  constructor
  · refine ⟨⟨3, 1, dirtyAt 7⟩, by simp [threeEntries], rfl, rfl, ?_⟩
    rw [ts]
    decide
  · intro x listed key
    have last : x = ⟨3, 1, dirtyAt 7⟩ := by
      simp only [threeEntries, List.mem_cons, List.not_mem_nil, or_false] at listed
      rcases listed with rfl | rfl | rfl
      · cases key
      · cases key
      · rfl
    rw [last]
    refine ⟨?_, fun waits => waits rfl⟩
    rw [DataSyncScanCc.skips, previous]
    rfl

/-- Two rows to a round. The first round is scanned in two slots, the scan pauses at the last entry,
and the second round flushes it. -/
theorem threeEntries_flushed :
    ∃ d, run (objectTable Nat Nat) (start 10 0 2 false none)
        [.slot 0 threeEntries [false], .slot 0 threeEntries [false, false, false], .afterRound false,
          .slot 0 threeEntries [false, false], .afterRound false] = some d ∧
      d.phase = .left ∧ d.pendingFlushWork.length = 2 ∧ Flushing 3 d := by
  have started : Reached (objectTable Nat Nat) 3 (start 10 0 2 false none) :=
    .start ⟨10, 0, 2, false, by decide, rfl⟩
  have slot {d t} (reached : Reached (objectTable Nat Nat) 3 d) (heapFull : List Bool)
      (ts : d.scanCc.dataSyncTs = 10) (previous : d.scanCc.previousCkptTs = 0)
      (next : step (objectTable Nat Nat) d (.slot 0 threeEntries heapFull) = some t) :
      Reached (objectTable Nat Nat) 3 t :=
    have ok := slot_threeEntries heapFull ts previous
    reached.next ⟨ok.1, ok.2, next⟩
  have round {d t} (reached : Reached (objectTable Nat Nat) 3 d)
      (rows : d.scanCc.scanHeapIsFull = false)
      (next : step (objectTable Nat Nat) d (.afterRound false) = some t) :
      Reached (objectTable Nat Nat) 3 t :=
    reached.next (a := .afterRound false) ⟨trivial, fun full => absurd (rows.symm.trans full) (by decide), next⟩
  have paused := slot (slot started [false] rfl rfl rfl) [false, false, false] rfl rfl rfl
  have drained := slot (round paused rfl rfl) [false, false] rfl rfl rfl
  exact ⟨_, rfl, rfl, rfl, (data_sync_drains Nat Nat).1 _ _ (round drained rfl rfl) rfl rfl⟩

/-- The heap is full before the round has exported anything: nothing is flushed, and the
loop takes the scan for drained. -/
theorem full_heap_ends_sync :
    ∃ d, run (objectTable Nat Nat) (start 10 0 128 false none)
        [.slot 0 (oneEntry 5) [true], .afterRound false] = some d ∧
      d.phase = .left ∧ d.ckptErr = none ∧ d.scanCc.drained = false ∧
      (objectTable Nat Nat).needs 10 (dirtyAt 5) ∧ ¬ Flushing 1 d := by
  refine ⟨_, rfl, rfl, rfl, rfl, ⟨rfl, by decide⟩, ?_⟩
  rintro ⟨task, mem, _⟩
  cases mem

end DataSync

end TxService
