import TxService.DataSyncScan

/-!
# What a slot of the scan does

A slot goes by some items in the order of the map. What it exports, reports and leaves is
a sum over these items, and the position it leaves is behind all of them.
-/

namespace TxService

universe u v w

open KeyCursor

section
variable {K : Type v} {V : Type u} {E : Type w}

namespace ScanSlot

variable (visit : CcItem K E → SyncVisit K V E) (skip : Nat → Bool)

/-- How an item is left behind. -/
def leaves (x : CcItem K E) : CcItem K E :=
  if skip x.page then x
  else
    match visit x with
    | .pass entry => { x with entry := entry }
    | .keepLog => x
    | .ckpt entry _ => { x with entry := entry }

def exports (vecs : CkptVecs K V) (x : CcItem K E) : CkptVecs K V :=
  if skip x.page then vecs
  else
    match visit x with
    | .ckpt _ rows => rows vecs
    | .pass _ | .keepLog => vecs

/-- The items for which the log has to be kept. -/
def reports (x : CcItem K E) : Bool :=
  !skip x.page &&
    match visit x with
    | .keepLog => true
    | .pass _ | .ckpt _ _ => false

/-- Some items have been gone by; the next one may have been touched before the heap was
found to be full. -/
structure Went (s t : ScanSlot K V E) (gone left : List (CcItem K E)) : Prop where
  split : s.rest = gone ++ left
  seen : t.seen = s.seen ++ gone.map (leaves visit skip)
  rest : t.rest = left ∨ ∃ x rest entry rows, left = x :: rest ∧ visit x = .ckpt entry rows ∧
    t.rest = { x with entry := entry } :: rest
  vecs : t.vecs = gone.foldl (exports visit skip) s.vecs
  reported : t.replayCmdsNotnull = (s.replayCmdsNotnull || gone.any (reports visit skip))

variable {visit skip} {s t r : ScanSlot K V E} {gone more left : List (CcItem K E)} {x : CcItem K E}

@[simp] theorem leaves_key : (leaves visit skip x).key = x.key := by
  unfold leaves
  split
  · rfl
  · split <;> rfl

theorem Went.trans (h : Went visit skip s t gone t.rest) (h' : Went visit skip t r more left) :
    Went visit skip s r (gone ++ more) left where
  split := by rw [h.split, h'.split, List.append_assoc]
  seen := by rw [h'.seen, h.seen, List.map_append, List.append_assoc]
  rest := h'.rest
  vecs := by rw [h'.vecs, h.vecs, List.foldl_append]
  reported := by rw [h'.reported, h.reported, List.any_append, Bool.or_assoc]

theorem Went.still : Went visit skip s s [] s.rest where
  split := rfl
  seen := by simp
  rest := Or.inl rfl
  vecs := rfl
  reported := by simp

theorem went_skipping (skipped : ∀ y ∈ gone, skip y.page = true) (split : s.rest = gone ++ left) :
    Went visit skip s (s.goBy gone left) gone left where
  split := split
  seen := by
    have same : gone.map (leaves visit skip) = gone.map id := by
      apply List.map_congr_left
      intro y hy
      simp [leaves, skipped y hy]
    rw [same, List.map_id]
    rfl
  rest := Or.inl rfl
  vecs := by
    clear split
    induction gone generalizing s with
    | nil => rfl
    | cons y gone ih =>
      obtain ⟨here, later⟩ := List.forall_mem_cons.mp skipped
      rw [List.foldl_cons, exports, if_pos here]
      exact ih later
  reported := by
    have silent : gone.any (reports visit skip) = false := by
      rw [List.any_eq_false]
      intro y hy
      simp [reports, skipped y hy]
    simp [goBy, silent]

theorem went_visiting (split : s.rest = x :: left)
    (moved : t.seen = s.seen ++ [leaves visit skip x] ∧ t.rest = left)
    (vecs : t.vecs = exports visit skip s.vecs x)
    (reported : t.replayCmdsNotnull = (s.replayCmdsNotnull || reports visit skip x)) :
    Went visit skip s t [x] t.rest where
  split := by rw [split, moved.2, List.singleton_append]
  seen := moved.1
  rest := Or.inl rfl
  vecs := vecs
  reported := by simp [reported]

theorem scan_went (visit : CcItem K E → SyncVisit K V E) (skip : Nat → Bool) (scanBatchSize : Nat)
    (heapFull : List Bool) (s : ScanSlot K V E) :
    ∃ gone left, Went visit skip s (s.scan visit skip scanBatchSize heapFull) gone left := by
  induction heapFull generalizing s with
  | nil => exact ⟨[], s.rest, .still⟩
  | cons full heapFull ih =>
    have onward {t gone} (h : Went visit skip s t gone t.rest) :
        ∃ gone left, Went visit skip s (t.scan visit skip scanBatchSize heapFull) gone left := by
      obtain ⟨more, left, later⟩ := ih t
      exact ⟨gone ++ more, left, h.trans later⟩
    cases split : s.rest with
    | nil =>
      rw [scan, split]
      exact ⟨[], s.rest, .still⟩
    | cons x rest =>
      rw [scan, split]
      simp only
      by_cases batch : scanBatchSize ≤ s.vecs.ckptVec.length
      · rw [if_pos batch]
        exact ⟨[], s.rest, .still⟩
      rw [if_neg batch]
      by_cases skipped : skip x.page = true
      · rw [if_pos skipped]
        apply onward
        apply went_skipping
        · intro y hy
          have same := List.mem_takeWhile_imp hy
          rwa [of_decide_eq_true same]
        · rw [split, List.takeWhile_append_dropWhile]
      rw [if_neg skipped]
      cases visited : visit x with
      | pass entry =>
        apply onward
        apply went_visiting split <;> simp [leaves, exports, reports, skipped, visited, goBy]
      | keepLog =>
        apply onward
        apply went_visiting split <;>
          simp [leaves, exports, reports, skipped, visited, goBy, ScanSlot.keepLog]
      | ckpt entry rows =>
        cases full with
        | true =>
          exact ⟨[], s.rest, rfl, by simp, Or.inr ⟨x, rest, entry, rows, split, visited, rfl⟩, rfl,
            by simp⟩
        | false =>
          apply onward
          apply went_visiting split <;>
            simp [leaves, exports, reports, skipped, visited, goBy, ScanSlot.add]

end ScanSlot

namespace DataSyncScanCc

section
variable {req : DataSyncScanCc K V} {s : ScanSlot K V E}

/-- What stays the same for all rounds of a task. -/
structure SameTask (req req' : DataSyncScanCc K V) : Prop where
  dataSyncTs : req'.dataSyncTs = req.dataSyncTs
  previousCkptTs : req'.previousCkptTs = req.previousCkptTs
  scanBatchSize : req'.scanBatchSize = req.scanBatchSize
  includePersistedData : req'.includePersistedData = req.includePersistedData
  filterLambda : req'.filterLambda = req.filterLambda

theorem SameTask.trans {req' req'' : DataSyncScanCc K V} (h : SameTask req req')
    (h' : SameTask req' req'') : SameTask req req'' where
  dataSyncTs := h'.dataSyncTs.trans h.dataSyncTs
  previousCkptTs := h'.previousCkptTs.trans h.previousCkptTs
  scanBatchSize := h'.scanBatchSize.trans h.scanBatchSize
  includePersistedData := h'.includePersistedData.trans h.includePersistedData
  filterLambda := h'.filterLambda.trans h.filterLambda

theorem SameTask.skips {req' : DataSyncScanCc K V} (h : SameTask req req')
    (lastDirtyCommitTs : Nat → Nat) :
    req'.skips lastDirtyCommitTs = req.skips lastDirtyCommitTs := by
  funext page
  rw [DataSyncScanCc.skips, h.previousCkptTs, h.includePersistedData]
  rfl

theorem afterSlot_sameTask (req : DataSyncScanCc K V) (s : ScanSlot K V E) :
    SameTask req (req.afterSlot s).1 := by
  unfold afterSlot
  cases s.rest with
  | nil => exact ⟨rfl, rfl, rfl, rfl, rfl⟩
  | cons x rest =>
    simp only
    split <;> exact ⟨rfl, rfl, rfl, rfl, rfl⟩

theorem afterSlot_fields (undrained : req.drained = false) :
    (req.afterSlot s).1.vecs = s.vecs ∧ (req.afterSlot s).1.drained = s.rest.isEmpty ∧
      (req.afterSlot s).1.pausePos = restingOn CcItem.key s.rest ∧
      (req.afterSlot s).1.err =
        if s.replayCmdsNotnull then some .logNotTruncatable else req.err := by
  unfold afterSlot
  cases s.rest with
  | nil => simp [restingOn]
  | cons x rest =>
    simp only
    split <;> simp [restingOn, undrained]

theorem afterSlot_finished (finished : (req.afterSlot s).2 = true) :
    (req.afterSlot s).1.drained = true ∨ (req.afterSlot s).1.scanHeapIsFull = true ∨
      (req.afterSlot s).1.scanBatchSize ≤ (req.afterSlot s).1.vecs.ckptVec.length := by
  unfold afterSlot at finished ⊢
  cases split : s.rest with
  | nil => simp
  | cons x rest =>
    simp only [split] at finished
    simp only
    split
    · simp
    · rename_i room
      rw [if_neg room] at finished
      simp_all

end

variable [LinearOrder K] (req : DataSyncScanCc K V)
  (visit : DataSyncScanCc K V → CcItem K E → SyncVisit K V E) (m : PagedMap K E)
  (heapFull : List Bool)

def itemsAfter : List (CcItem K E) :=
  if req.drained || req.expired m then m.items
  else
    before CcItem.key m.items req.pausePos ++
      ((req.slot visit m heapFull).seen ++ (req.slot visit m heapFull).rest)

theorem itemsAfter_keys :
    (req.itemsAfter visit m heapFull).map CcItem.key = m.items.map CcItem.key := by
  unfold itemsAfter
  split
  · rfl
  · obtain ⟨gone, left, went⟩ := ScanSlot.scan_went (visit req) (req.skips m.lastDirtyCommitTs)
      req.scanBatchSize heapFull
      { seen := [], rest := onward CcItem.key m.items req.pausePos, vecs := req.vecs }
    have seen : (req.slot visit m heapFull).seen.map CcItem.key = gone.map CcItem.key := by
      rw [slot, went.seen]
      simp [Function.comp_def]
    have rest : (req.slot visit m heapFull).rest.map CcItem.key = left.map CcItem.key := by
      rw [slot]
      rcases went.rest with same | ⟨x, rest, entry, rows, eq, _, touched⟩
      · rw [same]
      · rw [touched, eq]
        rfl
    rw [List.map_append, List.map_append, seen, rest, ← List.map_append, ← List.map_append,
      ← went.split, before_append_onward]

variable {req m} in
/-- What is in front of the new position was in front of the old one or has been gone by. -/
theorem passing {gone left : List (CcItem K E)} {x : CcItem K E} (here : req.expired m = false)
    (split : onward CcItem.key m.items req.pausePos = gone ++ left) (hx : x ∈ m.items)
    (passed : left = [] ∨ Behind x.key (restingOn CcItem.key left)) :
    Behind x.key req.pausePos ∨ x ∈ gone := by
  rcases gone_by m.sorted split hx passed with front | gone
  · left
    cases cursor : req.pausePos with
    | none =>
      rw [cursor] at front
      cases front
    | some p =>
      apply behind_of_before m.sorted _ (cursor ▸ front)
      simpa [expired, cursor] using here
  · exact Or.inr gone

variable {req m} in
theorem execute_slot (undrained : req.drained = false) (here : req.expired m = false) :
    req.execute visit m heapFull = req.afterSlot (req.slot visit m heapFull) ∧
      req.itemsAfter visit m heapFull = before CcItem.key m.items req.pausePos ++
        ((req.slot visit m heapFull).seen ++ (req.slot visit m heapFull).rest) := by
  simp [execute, itemsAfter, undrained, here]

def mapAfter : PagedMap K E where
  items := req.itemsAfter visit m heapFull
  lastDirtyCommitTs := m.lastDirtyCommitTs
  sorted := m.sorted.of_keys (itemsAfter_keys req visit m heapFull)

end DataSyncScanCc

end

end TxService
