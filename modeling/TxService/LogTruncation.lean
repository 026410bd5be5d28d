import TxService.SyncTables
import TxService.Transition

/-!
# The log is kept while a buffered command needs it

If a data sync does not ask for the log to be kept, every version up to its timestamp has to be
exported, persistent or dropped by then.
-/

namespace TxService

open Transition KeyCursor

universe u v

variable {K : Type v} {V : Type u}

namespace SyncEntry

variable (dataSyncTs : Nat) (skip : Nat → Bool) (x : CcItem K (SyncEntry V))

/-- The current version is to be synced. -/
def Due (e : SyncEntry V) : Prop := e.needCkpt = true ∧ e.commitTs ≤ dataSyncTs

/-- Every command that is still buffered is later than the sync. -/
def Later (e : SyncEntry V) : Prop := ∀ c ∈ e.bufferedCmds, dataSyncTs < c.newVersion

instance (e : SyncEntry V) : Decidable (Later dataSyncTs e) :=
  inferInstanceAs (Decidable (∀ c ∈ e.bufferedCmds, dataSyncTs < c.newVersion))

/-- Nothing is known of the record, and all its commands are to be synced. -/
def KeepsLog : Prop :=
  skip x.page = false ∧ x.entry.payloadStatus = .unknown ∧
    ∃ back, x.entry.bufferedCmds.getLast? = some back ∧ back.newVersion ≤ dataSyncTs

/-- An entry that the scan does not look at, or whose last buffered command is later than
the sync, has nothing to sync; an entry with commands to sync has expired in the store
and nothing else to sync. -/
def Accountable : Prop :=
  if skip x.page = true ∨ ∃ back, x.entry.bufferedCmds.getLast? = some back ∧
      dataSyncTs < back.newVersion then
    Later dataSyncTs x.entry ∧ ¬ Due dataSyncTs x.entry
  else
    x.entry.bufferedCmds = [] ∨
      x.entry.payloadStatus = .deleted ∧ x.entry.commitTs = 1 ∧ ¬ Due dataSyncTs x.entry

variable {dataSyncTs skip x}

theorem reports_iff :
    ScanSlot.reports (syncAt dataSyncTs) skip x = true ↔ KeepsLog dataSyncTs skip x := by
  cases looked : skip x.page with
  | true => simp [ScanSlot.reports, KeepsLog, looked]
  | false =>
    cases last : x.entry.bufferedCmds.getLast? with
    | none => cases dirty : x.entry.needCkpt <;> simp [ScanSlot.reports, KeepsLog, syncAt, last, dirty]
    | some back =>
      by_cases later : dataSyncTs < back.newVersion
      · simp [ScanSlot.reports, KeepsLog, syncAt, looked, last, later]
      · by_cases unknown : x.entry.payloadStatus = .unknown
        · simp [ScanSlot.reports, KeepsLog, syncAt, looked, last, later, unknown]
          omega
        · by_cases gone : x.entry.payloadStatus = .deleted ∧ x.entry.commitTs = 1 <;>
            simp [ScanSlot.reports, KeepsLog, syncAt, looked, last, later, unknown, gone]

theorem accountable_iff :
    (Due dataSyncTs x.entry → taken skip x = true) ∧
        Later dataSyncTs (ScanSlot.leaves (syncAt dataSyncTs) skip x).entry ↔
      Accountable dataSyncTs skip x := by
  cases looked : skip x.page with
  | true => simp [leaves_skipped looked, taken, Accountable, looked, and_comm]
  | false =>
    cases last : x.entry.bufferedCmds.getLast? with
    | none =>
      have ready : x.entry.bufferedCmds = [] := List.getLast?_eq_none_iff.mp last
      simp +contextual [leaves_ready ready, taken, Accountable, looked, ready, Later, Due]
    | some back =>
      have mem : back ∈ x.entry.bufferedCmds := List.mem_of_getLast? last
      have busy : x.entry.bufferedCmds ≠ [] := List.ne_nil_of_mem mem
      have left : taken skip x = false := by simp [taken, busy]
      by_cases later : dataSyncTs < back.newVersion
      · simp [leaves_later last later, left, Accountable, last, later, and_comm]
      · by_cases gone : x.entry.payloadStatus = .deleted ∧ x.entry.commitTs = 1
        · simp [leaves_expired looked last later gone, left, Accountable, looked, last, later, busy,
            gone, Later]
        · have stuck : ¬ Later dataSyncTs x.entry := fun all => later (all back mem)
          have other : ¬ (x.entry.payloadStatus = .deleted ∧ x.entry.commitTs = 1 ∧
              ¬ Due dataSyncTs x.entry) := fun h => gone ⟨h.1, h.2.1⟩
          simp [leaves_stuck looked last later gone, Accountable, looked, last, later, busy, stuck,
            other]

end SyncEntry

namespace DataSync

/-- All rows that the rounds have exported. -/
def rows (d : DataSync K V) : List (FlushRecord K V) :=
  d.pendingFlushWork.flatMap (fun task => task.dataSyncVec) ++ d.scanCc.vecs.ckptVec

/-- `LOG_NOT_TRUNCATABLE` has been reported. -/
def reported (d : DataSync K V) : Bool :=
  d.noTruncateLog || d.scanCc.err == some ScanError.logNotTruncatable

theorem afterRound_scanCc (d : DataSync K V) (flushError : Bool) :
    (d.afterRound flushError).scanCc = d.scanCc ∨
      (d.afterRound flushError).scanCc = d.scanCc.reset := by
  unfold afterRound
  split
  · exact Or.inl rfl
  simp only
  split
  · exact Or.inr rfl
  split
  · exact Or.inl rfl
  · exact Or.inr rfl

theorem afterRound_reported (d : DataSync K V) (flushError : Bool) :
    (d.afterRound flushError).reported = d.reported := by
  unfold afterRound
  split
  · rfl
  simp only
  repeat' split
  all_goals simp [reported, DataSyncScanCc.reset]

theorem afterRound_rows {d : DataSync K V} (cce : ∀ row ∈ d.scanCc.vecs.ckptVec, row.hasCce = true)
    (flushError : Bool) : (d.afterRound flushError).rows = d.rows := by
  have pushed : d.scanCc.vecs.flushDataTask.dataSyncVec = d.scanCc.vecs.ckptVec :=
    List.filter_eq_self.mpr cce
  unfold afterRound
  split
  · rfl
  simp only
  split
  · rename_i empty
    have empty : d.scanCc.vecs.ckptVec = [] := by simpa using empty
    rw [rows, rows, empty]
    rfl
  split
  · rfl
  · rw [rows, rows, List.flatMap_append]
    simp [pushed, DataSyncScanCc.reset]

end DataSync

/-- A data sync and the map it goes over. -/
structure SyncRun (K : Type v) (V : Type u) [LinearOrder K] where
  map : PagedMap K (SyncEntry V)
  sync : DataSync K V

namespace SyncRun

inductive Action
  | slot (heapFull : List Bool)
  | afterRound (flushError : Bool)

variable [LinearOrder K]

def step (w : SyncRun K V) : Action → Option (SyncRun K V)
  | .slot heapFull =>
    if w.sync.phase = .scanning then
      some
        { map := w.sync.scanCc.mapAfter SyncEntry.visit w.map heapFull
          sync := w.sync.executed (w.sync.scanCc.execute SyncEntry.visit w.map heapFull) }
    else none
  | .afterRound flushError =>
    if w.sync.phase = .scanned then some { w with sync := w.sync.afterRound flushError } else none

/-- Every version up to the sync is persistent, exported or dropped. -/
def Accounted (w : SyncRun K V) : Prop :=
  ∀ x ∈ w.map.items,
    (SyncEntry.Due w.sync.scanCc.dataSyncTs x.entry → x.entry.flushRecord x.key ∈ w.sync.rows) ∧
      SyncEntry.Later w.sync.scanCc.dataSyncTs x.entry

section
variable (m : PagedMap K (SyncEntry V)) (task : DataSyncScanCc K V)

/-- The items in front of the position have been gone by, the others not. -/
structure Swept (w : SyncRun K V) (done todo : List (CcItem K (SyncEntry V))) : Prop where
  split : m.items = done ++ todo
  items : w.map.items =
    done.map (ScanSlot.leaves (SyncEntry.syncAt task.dataSyncTs) (task.skips m.lastDirtyCommitTs)) ++ todo
  marks : w.map.lastDirtyCommitTs = m.lastDirtyCommitTs
  sameTask : task.SameTask w.sync.scanCc
  drained : w.sync.scanCc.drained = true → todo = []
  position : w.sync.scanCc.drained = false →
    w.sync.scanCc.pausePos = none ∧ done = [] ∨
      ∃ x rest, todo = x :: rest ∧ w.sync.scanCc.pausePos = some x.key
  rows : w.sync.rows = (done.filter (SyncEntry.taken (task.skips m.lastDirtyCommitTs))).map
    fun x => x.entry.flushRecord x.key
  reported : w.sync.reported = done.any
    (ScanSlot.reports (SyncEntry.syncAt task.dataSyncTs) (task.skips m.lastDirtyCommitTs))
  valid : w.sync.scanCc.err ≠ some .taskExpired

variable {m task} {w : SyncRun K V} {done todo : List (CcItem K (SyncEntry V))}

theorem Swept.resumes (h : Swept m task w done todo) (undrained : w.sync.scanCc.drained = false) :
    before CcItem.key w.map.items w.sync.scanCc.pausePos =
        done.map (ScanSlot.leaves (SyncEntry.syncAt task.dataSyncTs)
          (task.skips m.lastDirtyCommitTs)) ∧
      onward CcItem.key w.map.items w.sync.scanCc.pausePos = todo ∧
      w.sync.scanCc.expired w.map = false := by
  have sorted := w.map.sorted
  rcases h.position undrained with ⟨start, rfl⟩ | ⟨x, rest, rfl, here⟩
  · rw [start, h.items, DataSyncScanCc.expired, start]
    exact ⟨rfl, rfl, rfl⟩
  · rw [h.items] at sorted
    obtain ⟨front, onward⟩ := split_at sorted
    rw [DataSyncScanCc.expired, here, h.items, front, onward]
    exact ⟨rfl, rfl, rfl⟩

theorem Swept.slot (h : Swept m task w done todo) (plain : task.filterLambda = none)
    (heapFull : List Bool) :
    ∃ done' todo', Swept m task
      { map := w.sync.scanCc.mapAfter SyncEntry.visit w.map heapFull
        sync := w.sync.executed (w.sync.scanCc.execute SyncEntry.visit w.map heapFull) } done' todo' := by
  cases drained : w.sync.scanCc.drained with
  | true =>
    refine ⟨done, todo, h.split, ?_, h.marks, ?_, ?_, ?_, ?_, ?_, ?_⟩
    all_goals simp only [DataSyncScanCc.mapAfter, DataSyncScanCc.itemsAfter, drained, Bool.true_or,
      if_true, DataSyncScanCc.execute, DataSync.executed]
    · exact h.items
    · exact h.sameTask
    · exact fun _ => h.drained drained
    · exact fun undrained => by cases undrained
    · exact h.rows
    · exact h.reported
    · exact h.valid
  | false =>
    obtain ⟨front, onward, here⟩ := h.resumes drained
    obtain ⟨gone, left, split, seen, rest, vecs, keepLog⟩ :=
      SyncEntry.slot_spec (m := w.map) (h.sameTask.filterLambda.trans plain) heapFull
    have same := h.sameTask
    rw [h.marks, same.skips, same.dataSyncTs] at seen keepLog
    rw [h.marks, same.skips] at vecs
    rw [onward] at split
    obtain ⟨executed, items⟩ :=
      DataSyncScanCc.execute_slot SyncEntry.visit heapFull drained here
    obtain ⟨vecs', drained', pausePos', err'⟩ := DataSyncScanCc.afterSlot_fields
      (s := w.sync.scanCc.slot SyncEntry.visit w.map heapFull) drained
    rw [rest] at drained' pausePos'
    refine ⟨done ++ gone, left, ?_, ?_, h.marks, ?_, ?_, ?_, ?_, ?_, ?_⟩
    · rw [h.split, split, List.append_assoc]
    · refine items.trans ?_
      rw [front, seen, rest, List.map_append, List.append_assoc]
    all_goals simp only [DataSync.executed, executed, DataSync.rows, DataSync.reported]
    · exact same.trans (DataSyncScanCc.afterSlot_sameTask _ _)
    · intro finished
      exact List.isEmpty_iff.mp (drained'.symm.trans finished)
    · intro unfinished
      cases left with
      | nil => simp [drained'] at unfinished
      | cons x left => exact Or.inr ⟨x, left, rfl, pausePos'⟩
    · rw [vecs', vecs, ← List.append_assoc, List.filter_append, List.map_append, ← h.rows]
      rfl
    · rw [err', keepLog, List.any_append, ← h.reported, DataSync.reported]
      cases gone.any _ <;> simp
    · rw [err']
      split
      · simp
      · exact h.valid

theorem Swept.afterRound (h : Swept m task w done todo) (flushError : Bool) :
    Swept m task { w with sync := w.sync.afterRound flushError } done todo := by
  have rows : (w.sync.afterRound flushError).rows = w.sync.rows := by
    apply DataSync.afterRound_rows
    intro row mem
    have all : row ∈ w.sync.rows := List.mem_append_right _ mem
    rw [h.rows] at all
    obtain ⟨x, _, rfl⟩ := List.mem_map.mp all
    rfl
  have reported := w.sync.afterRound_reported flushError
  have same : (w.sync.afterRound flushError).scanCc.drained = w.sync.scanCc.drained ∧
      (w.sync.afterRound flushError).scanCc.pausePos = w.sync.scanCc.pausePos ∧
      task.SameTask (w.sync.afterRound flushError).scanCc ∧
      (w.sync.afterRound flushError).scanCc.err ≠ some .taskExpired := by
    obtain ⟨ts, previous, batch, persisted, filter⟩ := h.sameTask
    rcases w.sync.afterRound_scanCc flushError with same | same <;> rw [same]
    · exact ⟨rfl, rfl, h.sameTask, h.valid⟩
    · exact ⟨rfl, rfl, ⟨ts, previous, batch, persisted, filter⟩, nofun⟩
  obtain ⟨drained, pausePos, sameTask, valid⟩ := same
  refine ⟨h.split, h.items, h.marks, sameTask, ?_, ?_, rows.trans h.rows,
    reported.trans h.reported, valid⟩
  · rw [drained]
    exact h.drained
  · rw [drained, pausePos]
    exact h.position

/-- Any number of slots and rounds. -/
def Reached (m : PagedMap K (SyncEntry V)) (sync : DataSync K V) : SyncRun K V → Prop :=
  Reachable (fun w => w = { map := m, sync := sync }) fun w action t => step w action = some t

end

section
variable (m : PagedMap K (SyncEntry V)) (dataSyncTs previousCkptTs scanBatchSize : Nat)
  (forwardCache : Bool)

/-- Pages that the sync passes over. -/
def passesOver (page : Nat) : Bool := m.lastDirtyCommitTs page ≤ previousCkptTs && !forwardCache

variable {m dataSyncTs previousCkptTs scanBatchSize forwardCache} {w : SyncRun K V}

theorem Reached.swept
    (h : Reached m (DataSync.start dataSyncTs previousCkptTs scanBatchSize forwardCache none) w) :
    ∃ done todo, Swept m
      (DataSync.start dataSyncTs previousCkptTs scanBatchSize forwardCache none).scanCc w done todo := by
  refine Reachable.invariant (P := fun w => ∃ done todo, Swept m _ w done todo) h ?_ ?_
  · rintro _ rfl
    refine ⟨[], m.items, rfl, rfl, rfl, ⟨rfl, rfl, rfl, rfl, rfl⟩, ?_, ?_, rfl, rfl, ?_⟩
    · intro drained
      cases drained
    · exact fun _ => Or.inl ⟨rfl, rfl⟩
    · simp [DataSync.start]
  · rintro w action t step ⟨done, todo, swept⟩
    cases action with
    | slot heapFull =>
      simp only [SyncRun.step, Option.ite_none_right_eq_some, Option.some.injEq] at step
      obtain ⟨_, rfl⟩ := step
      exact swept.slot rfl heapFull
    | afterRound flushError =>
      simp only [SyncRun.step, Option.ite_none_right_eq_some, Option.some.injEq] at step
      obtain ⟨_, rfl⟩ := step
      exact ⟨done, todo, swept.afterRound flushError⟩

/-- An item has a row exactly if it was taken, since no other item has its key. -/
theorem mem_rows_iff (skip : Nat → Bool) {x : CcItem K (SyncEntry V)} (hx : x ∈ m.items) :
    x.entry.flushRecord x.key ∈
        (m.items.filter (SyncEntry.taken skip)).map (fun x => x.entry.flushRecord x.key) ↔
      SyncEntry.taken skip x = true := by
  constructor
  · intro mem
    obtain ⟨y, hy, same⟩ := List.mem_map.mp mem
    obtain ⟨hy, taken⟩ := List.mem_filter.mp hy
    rwa [← m.sorted.unique hy hx (congrArg FlushRecord.key same)]
  · intro taken
    exact List.mem_map.mpr ⟨x, List.mem_filter.mpr ⟨hx, taken⟩, rfl⟩

theorem accounted_item (skip : Nat → Bool) {x : CcItem K (SyncEntry V)} (hx : x ∈ m.items) :
    ((SyncEntry.Due dataSyncTs (ScanSlot.leaves (SyncEntry.syncAt dataSyncTs) skip x).entry →
        (ScanSlot.leaves (SyncEntry.syncAt dataSyncTs) skip x).entry.flushRecord
          (ScanSlot.leaves (SyncEntry.syncAt dataSyncTs) skip x).key ∈
            (m.items.filter (SyncEntry.taken skip)).map fun x => x.entry.flushRecord x.key) ∧
      SyncEntry.Later dataSyncTs (ScanSlot.leaves (SyncEntry.syncAt dataSyncTs) skip x).entry) ↔
      SyncEntry.Accountable dataSyncTs skip x := by
  rw [← SyncEntry.accountable_iff, ← mem_rows_iff skip hx]
  obtain ⟨cmds, left⟩ := SyncEntry.leaves_same dataSyncTs skip x
  rw [left]
  exact Iff.rfl

/-- When the scan has gone over the whole map, everything is accounted for exactly if each
entry was accountable. -/
theorem Reached.accounted_iff
    (h : Reached m (DataSync.start dataSyncTs previousCkptTs scanBatchSize forwardCache none) w)
    (drained : w.sync.scanCc.drained = true) :
    Accounted w ↔ ∀ x ∈ m.items,
      SyncEntry.Accountable dataSyncTs (passesOver m previousCkptTs forwardCache) x := by
  obtain ⟨done, todo, swept⟩ := h.swept
  obtain rfl : todo = [] := swept.drained drained
  obtain rfl : m.items = done := by rw [swept.split, List.append_nil]
  have ts : w.sync.scanCc.dataSyncTs = dataSyncTs := swept.sameTask.dataSyncTs
  have item : ∀ x ∈ m.items, _ ↔ SyncEntry.Accountable dataSyncTs _ x :=
    fun x hx => accounted_item (passesOver m previousCkptTs forwardCache) hx
  rw [Accounted, swept.items, List.append_nil, swept.rows, ts, List.forall_mem_map]
  exact forall₂_congr item

/-- The records for which a sync asks to keep the log. -/
theorem Reached.reported_iff
    (h : Reached m (DataSync.start dataSyncTs previousCkptTs scanBatchSize forwardCache none) w)
    (drained : w.sync.scanCc.drained = true) :
    w.sync.reported = true ↔ ∃ x ∈ m.items,
      SyncEntry.KeepsLog dataSyncTs (passesOver m previousCkptTs forwardCache) x := by
  obtain ⟨done, todo, swept⟩ := h.swept
  obtain rfl : todo = [] := swept.drained drained
  obtain rfl : m.items = done := by rw [swept.split, List.append_nil]
  rw [swept.reported, List.any_eq_true]
  exact exists_congr fun x => and_congr_right fun _ => SyncEntry.reports_iff

/-- A sync over the whole map that does not ask for the log accounts for every version up to
its timestamp exactly if it keeps the log for some entry or every entry is accountable. -/
theorem unreported_accounted_iff
    (h : Reached m (DataSync.start dataSyncTs previousCkptTs scanBatchSize forwardCache none) w)
    (drained : w.sync.scanCc.drained = true) :
    (w.sync.reported = false → Accounted w) ↔
      (∃ x ∈ m.items, SyncEntry.KeepsLog dataSyncTs (passesOver m previousCkptTs forwardCache) x) ∨
        ∀ x ∈ m.items,
          SyncEntry.Accountable dataSyncTs (passesOver m previousCkptTs forwardCache) x := by
  rw [← h.accounted_iff drained, ← h.reported_iff drained]
  cases w.sync.reported <;> simp

end

/-- A record of which nothing is known, after two of its commands have been replayed. -/
def waiting (first : Nat) : PagedMap Nat (SyncEntry Nat) where
  items :=
    let cmd (version : Nat) : TxnCmd Nat := ⟨version - 1, version, false, [⟨false, 0, some⟩]⟩
    [⟨1, 0, (ObjectEntry.initial.executeReplayLogCc (cmd first)).executeReplayLogCc (cmd 20), false⟩]
  lastDirtyCommitTs _ := 20
  sorted := List.pairwise_singleton _ _

theorem later_commands_accounted :
    ∃ w, step ⟨waiting 15, DataSync.start 10 0 128 false none⟩ (.slot [false]) = some w ∧
      w.sync.reported = false ∧ Accounted w := by
  have started : Reached (waiting 15) (DataSync.start 10 0 128 false none)
      ⟨waiting 15, DataSync.start 10 0 128 false none⟩ := .start rfl
  have scanned := started.next (a := .slot [false]) rfl
  refine ⟨_, rfl, rfl, (unreported_accounted_iff scanned rfl).mpr (Or.inr ?_) rfl⟩
  intro x hx
  cases List.mem_singleton.mp hx
  rw [SyncEntry.Accountable, if_pos (Or.inr ⟨_, rfl, by decide⟩)]
  exact ⟨by decide, fun due => absurd due.1 (by decide)⟩

/-- Only the last buffered command is compared with the sync, so a command that is to be
synced stays in the list behind a later one, and the log is not kept for it. -/
theorem early_command_unreported :
    ∃ w, step ⟨waiting 5, DataSync.start 10 0 128 false none⟩ (.slot [false]) = some w ∧
      w.sync.scanCc.drained = true ∧ w.sync.reported = false ∧ w.sync.rows = [] ∧
      (w.map.items.flatMap fun x => x.entry.bufferedCmds.map TxnCmd.newVersion) = [5, 20] ∧
      ¬ Accounted w := by
  refine ⟨_, rfl, rfl, rfl, rfl, rfl, ?_⟩
  intro accounted
  have later := (accounted _ List.mem_cons_self).2 _ List.mem_cons_self
  revert later
  decide

end SyncRun

end TxService
