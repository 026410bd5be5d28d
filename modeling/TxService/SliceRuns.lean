import TxService.SliceCuts

/-!
# A range through splits of its slices and of itself

The slices of a range are made from its stored specification, cut further by the
checkpointer and taken out when the range is split. Through all of it they partition
the range, and a split hands every slice it takes out to the new range unchanged.
-/

namespace TxService.RangeSlice

open OrderedCuts Transition

universe u

variable {K : Type u} [LinearOrder K] [OrderBot K]

inductive SliceAction (K : Type u)
  | initSlices (first : SliceInitInfo K) (rest : List (SliceInitInfo K))
  | updateSlice (position : Nat) (first next : SliceChangeInfo K) (rest : List (SliceChangeInfo K))
  | splitRange (newEnd : K)
  | setRangeEndKey (endKey : K)

/-- The action only cuts a slice. -/
def SliceAction.cuts : SliceAction K → Bool
  | .updateSlice .. => true
  | _ => false

namespace TemplateStoreRange

/-- Slices are made from ascending keys, a slice is cut at ascending keys inside it, and a range is
split at a boundary key. -/
def Enabled (r : TemplateStoreRange K) : SliceAction K → Prop
  | .initSlices _ rest => Ascending (r.rangeStartKey :: rest.map SliceInitInfo.key)
  | .updateSlice position _ next rest => ∃ slice, r.slices[position]? = some slice ∧
      CutsInside slice ((next :: rest).map SliceChangeInfo.key)
  | .splitRange newEnd => newEnd ∈ r.boundaryKeys
  | .setRangeEndKey _ => True

def exec (r : TemplateStoreRange K) : SliceAction K → TemplateStoreRange K
  | .initSlices first rest => r.initSlices first rest
  | .updateSlice position first next rest => r.updateSlice position first next rest
  | .splitRange newEnd => (r.splitRange newEnd).2.2
  | .setRangeEndKey endKey => r.setRangeEndKey endKey

def Constructed (r : TemplateStoreRange K) : Prop :=
  ∃ startKey endKey emptyRange, r = new startKey (some endKey) emptyRange

def Step (r : TemplateStoreRange K) (a : SliceAction K) (r' : TemplateStoreRange K) : Prop :=
  r.Enabled a ∧ r' = r.exec a

def Reached : TemplateStoreRange K → Prop := Reachable Constructed Step

variable {r : TemplateStoreRange K} {a : SliceAction K} {s : StoreSlice K} {newEnd : K}
  {r' : TemplateStoreRange K}

theorem Partitioned.exec (h : Partitioned r) (enabled : r.Enabled a) :
    Partitioned (r.exec a) := by
  cases a with
  | initSlices first rest => exact partitioned_initSlices enabled
  | updateSlice position first next rest =>
    obtain ⟨slice, here, inside⟩ := enabled
    exact h.updateSlice here inside
  | splitRange newEnd => exact h.splitRange enabled
  | setRangeEndKey endKey => exact h.setRangeEndKey endKey

theorem Reached.partitioned (h : Reached r) : Partitioned r := by
  refine Reachable.invariant h ?_ ?_
  · rintro r ⟨startKey, endKey, emptyRange, rfl⟩
    exact partitioned_new startKey (some endKey) emptyRange
  · rintro r a r' ⟨enabled, rfl⟩ now
    exact now.exec enabled

omit [LinearOrder K] [OrderBot K] in
theorem fits_makeSlices {rangeEndKey : Option K} {start : K} {info : SliceInitInfo K}
    {rest : List (SliceInitInfo K)} (mem : s ∈ makeSlices rangeEndKey start info rest) :
    s.size.toUInt32.toUInt64 = s.size := by
  induction rest generalizing start info with
  | nil =>
    cases List.mem_singleton.mp mem
    simp [StoreSlice.new]
  | cons next rest ih =>
    rcases List.mem_cons.mp mem with rfl | mem
    · simp [StoreSlice.new]
    · exact ih mem

omit [LinearOrder K] [OrderBot K] in
theorem fits_subSlices {slice : StoreSlice K} {sliceEndKey : Option K}
    {infos : List (SliceChangeInfo K)} (mem : s ∈ subSlices slice sliceEndKey infos) :
    s.size.toUInt32.toUInt64 = s.size := by
  induction infos with
  | nil => cases mem
  | cons info rest ih =>
    rcases List.mem_cons.mp mem with rfl | mem
    · simp [subSlice, StoreSlice.new]
    · exact ih mem

theorem Fits.exec (fits : Fits r) (h : Partitioned r) (enabled : r.Enabled a) :
    Fits (r.exec a) := by
  cases a with
  | initSlices first rest => exact fun s mem => fits_makeSlices mem
  | updateSlice position first next rest =>
    obtain ⟨slice, here, inside⟩ := enabled
    intro s mem
    simp only [TemplateStoreRange.exec, h.updateSlice_eq here inside, List.mem_append,
      List.mem_cons] at mem
    rcases mem with (before | rfl | sub) | after
    · exact fits s (List.mem_of_mem_take before)
    · simp
    · exact fits_subSlices sub
    · exact fits s (List.mem_of_mem_drop after)
  | splitRange newEnd =>
    obtain ⟨left, right, keys⟩ := List.append_of_mem enabled
    rw [TemplateStoreRange.exec, h.splitRange_eq keys]
    split
    · exact fits
    · exact fun s mem => fits s (List.mem_of_mem_take mem)
  | setRangeEndKey endKey =>
    obtain ⟨before, last, whole, slices⟩ := setRangeEndKey_slices h.slices_ne_nil endKey
    intro s mem
    rw [TemplateStoreRange.exec, slices, List.mem_append, List.mem_singleton] at mem
    rcases mem with earlier | rfl
    · exact fits s (whole ▸ List.mem_append_left _ earlier)
    · exact fits last (whole ▸ List.mem_append_right _ List.mem_cons_self)

theorem Reached.fits (h : Reached r) : Fits r := by
  suffices both : Partitioned r ∧ Fits r from both.2
  refine Reachable.invariant (P := fun r => Partitioned r ∧ Fits r) h ?_ ?_
  · rintro r ⟨startKey, endKey, emptyRange, rfl⟩
    refine ⟨partitioned_new startKey (some endKey) emptyRange, fun s mem => ?_⟩
    cases List.mem_singleton.mp mem
    rfl
  · rintro r a r' ⟨enabled, rfl⟩ now
    exact ⟨now.1.exec enabled, now.2.exec now.1 enabled⟩

/-- What a split keeps of a slice. -/
def spec (s : StoreSlice K) : (K × Option K) × UInt64 × SliceStatus := (s.bounds, s.size, s.status)

omit [LinearOrder K] [OrderBot K] in
/-- Slices that lie between keys are made again from their keys, sizes and statuses. -/
theorem makeSlices_of_slices {start : K} {keys : List K} {stop : Option K}
    {slices : List (StoreSlice K)}
    (bounds : (s :: slices).map StoreSlice.bounds = spans start keys stop)
    (fits : ∀ t ∈ s :: slices, t.size.toUInt32.toUInt64 = t.size) :
    (makeSlices stop start ⟨start, s.size.toUInt32, s.status⟩
        (List.zipWith (fun key s => ⟨key, s.size.toUInt32, s.status⟩) keys slices)).map spec =
      (s :: slices).map spec := by
  have first := fits s List.mem_cons_self
  induction keys generalizing start s slices with
  | nil =>
    obtain ⟨same, nothing⟩ := List.cons.inj bounds
    rw [List.map_eq_nil_iff] at nothing
    subst nothing
    simp [makeSlices, spec, StoreSlice.new, first, ← same, StoreSlice.bounds]
  | cons key keys ih =>
    obtain ⟨same, later⟩ := List.cons.inj bounds
    cases slices with
    | nil =>
      have count := congrArg List.length later
      rw [length_spans] at count
      cases count
    | cons t slices =>
      have more := ih later (fun u mem => fits u (List.mem_cons_of_mem _ mem))
        (fits t (List.mem_cons_of_mem _ List.mem_cons_self))
      rw [List.zipWith_cons_cons, makeSlices, List.map_cons, more, List.map_cons]
      simp [spec, StoreSlice.new, StoreSlice.bounds, ← same, first]

omit [LinearOrder K] [OrderBot K] in
theorem map_key_zipWith {keys : List K} {slices : List (StoreSlice K)}
    (length : slices.length = keys.length) :
    (List.zipWith (fun key s => (⟨key, s.size.toUInt32, s.status⟩ : SliceInitInfo K)) keys
      slices).map SliceInitInfo.key = keys := by
  induction keys generalizing slices with
  | nil => rfl
  | cons key keys ih =>
    cases slices with
    | nil => cases length
    | cons s slices => rw [List.zipWith_cons_cons, List.map_cons, ih (Nat.succ.inj length)]

/-- The part of a split range that a new range gets. -/
def newRange (r : TemplateStoreRange K) (newEnd : K) (first : SliceInitInfo K)
    (rest : List (SliceInitInfo K)) : TemplateStoreRange K :=
  (new newEnd r.lastEnd false).initSlices first rest

omit [OrderBot K] in
/-- A split leaves the slices before the key where they are, and the new range gets the others as
they were. -/
theorem splitRange_keeps (h : Partitioned r) (fits : Fits r) (mem : newEnd ∈ r.boundaryKeys)
    {removed : List (SliceInitInfo K)} (done : r.splitRange newEnd = (true, removed, r')) :
    ∃ first rest, removed = first :: rest ∧ ∀ key,
      ((if key < newEnd then r' else r.newRange newEnd first rest).findSlice key).map spec =
        (r.findSlice key).map spec := by
  obtain ⟨left, right, keys⟩ := List.append_of_mem mem
  rw [h.splitRange_eq keys] at done
  split at done
  · cases done
  obtain ⟨rfl, rfl⟩ := Prod.mk.inj (Prod.mk.inj done).2
  have rear := h.bounds_drop keys
  obtain ⟨s, slices, dropped⟩ : ∃ s slices, r.slices.drop (left.length + 1) = s :: slices := by
    refine List.exists_cons_of_ne_nil fun nothing => ?_
    have count := congrArg List.length rear
    rw [nothing, length_spans] at count
    cases count
  refine ⟨_, _, by rw [removedSlices, dropped, List.zipWith_cons_cons], fun key => ?_⟩
  have ascending := h.ascending.of_cons
  have later : Ascending (newEnd :: right) := by
    rw [keys] at ascending
    exact (List.pairwise_append.mp ascending).2.1
  have whole := searchSlice_eq_cell ascending key
  split
  · rename_i before
    have kept := searchSlice_eq_cell (h.cut keys).ascending.of_cons key
    have same : cell r.boundaryKeys key = cell left key := by
      rw [keys, cell, List.countP_append, ← cell, ← cell, cell_cons_of_lt later before, Nat.add_zero]
    have small : cell left key < left.length + 1 := Nat.lt_succ_of_le List.countP_le_length
    rw [findSlice, findSlice, whole, kept, same]
    dsimp only
    rw [List.getElem?_take_of_lt small]
  · rename_i after
    rw [not_lt] at after
    have split : ∀ c ∈ left, c ≤ key := by
      rw [keys] at ascending
      intro c member
      exact ((List.pairwise_append.mp ascending).2.2 c member newEnd List.mem_cons_self).le.trans after
    have same : cell r.boundaryKeys key = left.length + 1 + cell right key := by
      rw [keys, cell_append split, cell_cons_of_le after]
      omega
    rw [dropped] at rear
    have again := makeSlices_of_slices rear fun t member =>
      fits t (List.mem_of_mem_drop (dropped ▸ member))
    have length : slices.length = right.length := by
      have count := congrArg List.length rear
      rw [List.length_map, length_spans] at count
      exact Nat.succ.inj count
    have made := searchSlice_eq_cell
      (r := r.newRange newEnd ⟨newEnd, s.size.toUInt32, s.status⟩ (List.zipWith _ right slices))
      (by rw [newRange, initSlices, map_key_zipWith length]; exact later.of_cons) key
    have boundary : (r.newRange newEnd ⟨newEnd, s.size.toUInt32, s.status⟩
        (List.zipWith _ right slices)).boundaryKeys = right := map_key_zipWith length
    rw [findSlice, findSlice, made, boundary, whole, same, ← List.getElem?_drop, dropped,
      ← List.getElem?_map, ← List.getElem?_map, ← again]
    rfl

/-- The range has been split at the key, and nothing but cuts has happened since. -/
structure SplitAt (newEnd : K) (r : TemplateStoreRange K) : Prop where
  partitioned : Partitioned r
  noEnd : r.rangeEndKey = none
  last : r.lastEnd = some newEnd

omit [OrderBot K] in
theorem Partitioned.splitAt (h : Partitioned r) (mem : newEnd ∈ r.boundaryKeys)
    {removed : List (SliceInitInfo K)} (done : r.splitRange newEnd = (true, removed, r')) :
    SplitAt newEnd r' := by
  obtain ⟨left, right, keys⟩ := List.append_of_mem mem
  rw [h.splitRange_eq keys] at done
  split at done
  · cases done
  obtain ⟨-, rfl⟩ := Prod.mk.inj (Prod.mk.inj done).2
  exact ⟨h.cut keys, rfl, lastEnd_of_bounds (h.bounds_take keys)⟩

theorem SplitAt.step (h : SplitAt newEnd r) (step : Step r a r') :
    SplitAt newEnd r' ∨ a.cuts = false := by
  obtain ⟨enabled, rfl⟩ := step
  cases a with
  | initSlices | splitRange | setRangeEndKey => exact .inr rfl
  | updateSlice position first next rest =>
    obtain ⟨slice, here, inside⟩ := enabled
    refine .inl ⟨h.partitioned.updateSlice here inside, ?_, ?_⟩
    · rw [TemplateStoreRange.exec, h.partitioned.updateSlice_eq here inside]
      exact h.noEnd
    · exact (h.partitioned.updateSlice_lastEnd here inside).trans h.last

theorem SplitAt.run (h : SplitAt newEnd r) {acts : List (SliceAction K)} (run : Run Step r acts r')
    (cuts : ∀ a ∈ acts, a.cuts = true) : SplitAt newEnd r' := by
  rcases run.keeps_until (fun _ _ _ step now => SplitAt.step now step) h
    with now | ⟨before, a, after, _, rfl, _, _, ended⟩
  · exact now
  · cases (cuts a (by simp)).symm.trans ended

/-- The slices always partition the range up to the end of the last one, which is the range's own
end whenever that is set; a split with the slices it takes out keeps them all, and as long as slices
are only cut after it, the range has no end and its last slice ends at the key of the split. -/
theorem slices_partition_range (h : Reached r) :
    Ascending r.boundaryKeys ∧ r.slices.length = r.boundaryKeys.length + 1 ∧
    (∀ (i : Nat) (s : StoreSlice K), r.slices[i]? = some s →
      (r.rangeStartKey :: r.boundaryKeys)[i]? = some s.startKey ∧
        (r.boundaryKeys.map some ++ [r.lastEnd])[i]? = some s.endKey) ∧
    (r.rangeEndKey = none ∨ r.lastEnd = r.rangeEndKey) ∧
    (∀ key, r.rangeStartKey ≤ key → (∀ e, r.lastEnd = some e → key < e) →
      (∃ s, r.findSlice key = some s ∧ s.Contains key) ∧
        ∀ (i : Nat) (s : StoreSlice K), r.slices[i]? = some s → s.Contains key →
          i = r.searchSlice key true) ∧
    ∀ newEnd ∈ r.boundaryKeys, ∀ removed r', r.splitRange newEnd = (true, removed, r') →
      (∃ first rest, removed = first :: rest ∧ ∀ key,
        ((if key < newEnd then r' else r.newRange newEnd first rest).findSlice key).map spec =
          (r.findSlice key).map spec) ∧
      ∀ acts r'', Run Step r' acts r'' → (∀ a ∈ acts, a.cuts = true) →
        r''.rangeEndKey = none ∧ r''.lastEnd = some newEnd := by
  have partitioned := h.partitioned
  refine ⟨partitioned.ascending.of_cons, partitioned.length, fun i s here => ?_, partitioned.ends,
    fun key ge lt => ?_, fun newEnd mem removed r' done => ?_⟩
  · exact partitioned.slice_ends here
  · exact ⟨partitioned.findSlice ge lt, fun i s here => partitioned.eq_searchSlice here⟩
  · refine ⟨splitRange_keeps partitioned h.fits mem done, fun acts r'' run cuts => ?_⟩
    have now := (partitioned.splitAt mem done).run run cuts
    exact ⟨now.noEnd, now.last⟩

/-- A range of two slices, the first of which is cut at 4 and 7. -/
def threeCuts : TemplateStoreRange Nat :=
  (((new 0 (some 20) false).initSlices ⟨0, 100, .fullyCached⟩ [⟨10, 50, .partiallyCached⟩]).updateSlice
    0 ⟨0, 40, 40⟩ ⟨4, 30, 30⟩ [⟨7, 30, 30⟩])

theorem reached_threeCuts : Reached threeCuts := by
  have made : Reached ((new 0 (some 20) false).initSlices ⟨0, 100, .fullyCached⟩
      [⟨10, 50, .partiallyCached⟩] : TemplateStoreRange Nat) :=
    Reachable.next (a := .initSlices _ _) (Reachable.start ⟨0, 20, false, rfl⟩)
      ⟨by simp [Enabled, new], rfl⟩
  refine Reachable.next (a := .updateSlice 0 _ _ _) made ⟨⟨_, rfl, ?_, ?_⟩, rfl⟩
  · decide
  · rintro key mem e ⟨⟩
    revert mem
    revert key
    decide

theorem slices_partition_range_cut :
    threeCuts.boundaryKeys = [4, 7, 10] ∧
      (∃ s, threeCuts.findSlice 8 = some s ∧ s.Contains 8) ∧
      ∃ removed r', threeCuts.splitRange 7 = (true, removed, r') ∧
        (∃ first rest, removed = first :: rest ∧
          ((threeCuts.newRange 7 first rest).findSlice 12).map spec =
            (threeCuts.findSlice 12).map spec) ∧
        (r'.updateSlice 1 ⟨4, 15, 15⟩ ⟨5, 15, 15⟩ []).boundaryKeys = [4, 5] ∧
        (r'.updateSlice 1 ⟨4, 15, 15⟩ ⟨5, 15, 15⟩ []).lastEnd = some 7 := by
  obtain ⟨-, -, -, -, inside, splits⟩ := slices_partition_range reached_threeCuts
  have found := (inside 8 (by decide) (by decide)).1
  obtain ⟨⟨first, rest, eq, same⟩, cut⟩ := splits 7 (by decide) _ _ rfl
  have enabled : Enabled (threeCuts.splitRange 7).2.2 (.updateSlice 1 ⟨4, 15, 15⟩ ⟨5, 15, 15⟩ []) := by
    refine ⟨_, rfl, by decide, ?_⟩
    rintro key mem e ⟨⟩
    revert key
    decide
  obtain ⟨-, last⟩ := cut [.updateSlice 1 ⟨4, 15, 15⟩ ⟨5, 15, 15⟩ []] _
    (.cons ⟨enabled, rfl⟩ (.nil _)) (by simp [SliceAction.cuts])
  exact ⟨by decide, found, _, _, rfl, ⟨first, rest, eq, same 12⟩, by decide, last⟩

/-- Once a range is split, and until its end is set again, its last slice ends at the key it was
split at and not at the range's end. -/
theorem split_range_has_no_end :
    ∃ r : TemplateStoreRange Nat, Reached r ∧ r.lastEnd = some 7 ∧ r.rangeEndKey = none := by
  have key : 7 ∈ threeCuts.boundaryKeys := by decide
  have split : Reached (threeCuts.splitRange 7).2.2 :=
    Reachable.next (a := .splitRange 7) reached_threeCuts ⟨key, rfl⟩
  exact ⟨_, split, by decide, by decide⟩

end TemplateStoreRange

end TxService.RangeSlice
