import TxService.StoreRange

/-!
# Slices partition a range

In a partitioned range the slices are the spans between the boundary keys, so a key
of the range is in one slice, and `SearchSlice` finds it. Making the slices anew,
cutting one of them further, splitting the range at a boundary key and setting its
end all keep the range partitioned. Between `SplitRange` and `SetRangeEndKey` the
range has no end key; its last slice then ends where the range was split.
-/

namespace TxService.RangeSlice

open OrderedCuts

universe u

variable {K : Type u}

def StoreSlice.Contains [LinearOrder K] (s : StoreSlice K) (key : K) : Prop := Within s.bounds key

namespace TemplateStoreRange

section
variable [LinearOrder K] {keys : List K} {x : K}

/-- The loop keeps the keys before `first_idx` below the search key and those from
`first_idx + len` on at or above it. -/
theorem lowerBoundFrom_spec (ascending : Ascending keys) {steps firstIdx len : Nat}
    (enough : len ≤ steps) (bound : firstIdx + len ≤ keys.length)
    (below : ∀ j key, j < firstIdx → keys[j]? = some key → key < x)
    (above : ∀ j key, firstIdx + len ≤ j → keys[j]? = some key → x ≤ key) :
    lowerBoundFrom keys x steps firstIdx len ≤ keys.length ∧
      (∀ j key, j < lowerBoundFrom keys x steps firstIdx len → keys[j]? = some key → key < x) ∧
      ∀ j key, lowerBoundFrom keys x steps firstIdx len ≤ j → keys[j]? = some key → x ≤ key := by
  induction steps generalizing firstIdx len with
  | zero =>
    have zero : len = 0 := by omega
    subst zero
    exact ⟨bound, below, above⟩
  | succ steps ih =>
    rw [lowerBoundFrom]
    split
    case isFalse nothing =>
      have zero : len = 0 := by omega
      subst zero
      exact ⟨bound, below, above⟩
    case isTrue positive =>
      have half : len >>> 1 < len := by
        rw [Nat.shiftRight_eq_div_pow]
        omega
      generalize len >>> 1 = halfLen at half ⊢
      have inside : firstIdx + halfLen < keys.length := by omega
      have middle := List.getElem?_eq_getElem inside
      have ordered := List.pairwise_iff_getElem.mp ascending
      simp only [middle, Option.any_some, decide_eq_true_eq]
      split
      · rename_i lt
        refine ih (by omega) (by omega) ?_ ?_
        · intro j key before here
          obtain ⟨jlt, rfl⟩ := List.getElem?_eq_some_iff.mp here
          rcases Nat.lt_or_ge j (firstIdx + halfLen) with earlier | later
          · exact (ordered j _ jlt inside earlier).trans lt
          · have same : j = firstIdx + halfLen := by omega
            subst same
            exact lt
        · intro j key after
          exact above j key (by omega)
      · rename_i ge
        refine ih (by omega) (by omega) below ?_
        intro j key after here
        obtain ⟨jlt, rfl⟩ := List.getElem?_eq_some_iff.mp here
        rcases Nat.eq_or_lt_of_le after with same | later
        · subst same
          exact not_lt.mp ge
        · exact (not_lt.mp ge).trans (ordered _ j inside jlt later).le

/-- `LowerBound` stops between the smaller keys and the others. -/
theorem lowerBound_split (ascending : Ascending keys) (x : K) :
    ∃ left right, keys = left ++ right ∧ lowerBound keys x = left.length ∧
      (∀ c ∈ left, c < x) ∧ ∀ c ∈ right, x ≤ c := by
  obtain ⟨le, below, above⟩ :=
    lowerBoundFrom_spec (x := x) ascending (Nat.le_refl keys.length) (by omega : 0 + _ ≤ _)
      (fun j key lt => absurd lt (by omega)) fun j key ge here => by
        have := (List.getElem?_eq_some_iff.mp here).1
        omega
  rw [← lowerBound] at le below above
  refine ⟨keys.take (lowerBound keys x), keys.drop (lowerBound keys x),
    (List.take_append_drop _ _).symm, by rw [List.length_take]; omega, ?_, ?_⟩
  · intro c mem
    obtain ⟨j, lt, rfl⟩ := List.mem_iff_getElem.mp mem
    rw [List.length_take] at lt
    refine below j _ (by omega) ?_
    rw [List.getElem_take, List.getElem?_eq_getElem]
  · intro c mem
    obtain ⟨j, lt, rfl⟩ := List.mem_iff_getElem.mp mem
    rw [List.length_drop] at lt
    refine above (lowerBound keys x + j) _ (by omega) ?_
    rw [List.getElem_drop, List.getElem?_eq_getElem]

theorem searchSlice_eq_cell {r : TemplateStoreRange K} (ascending : Ascending r.boundaryKeys)
    (key : K) : r.searchSlice key true = cell r.boundaryKeys key := by
  obtain ⟨left, right, split, found, below, above⟩ := lowerBound_split ascending key
  have count : cell r.boundaryKeys key = left.length + cell right key := by
    rw [split, cell_append fun c mem => (below c mem).le]
  simp only [searchSlice, found]
  rw [count, split, List.length_append]
  cases right with
  | nil => simp [cell]
  | cons c right =>
    have here : (left ++ c :: right)[left.length]? = some c := by simp
    rw [split] at ascending
    have later : Ascending (c :: right) := (List.pairwise_append.mp ascending).2.1
    rw [if_neg (by simp), here]
    by_cases same : c = key
    · subst same
      have zero : cell right c = 0 :=
        cell_eq_zero fun d mem => List.rel_of_pairwise_cons later mem
      rw [if_pos ⟨rfl, trivial⟩, cell_cons_of_le le_rfl, zero]
    · have lt : key < c := lt_of_le_of_ne (above c List.mem_cons_self) (Ne.symm same)
      rw [if_neg (by simp [same]), cell_cons_of_lt later lt, Nat.add_zero]

end

/-- Where the last slice ends. -/
def lastEnd (r : TemplateStoreRange K) : Option K := r.slices.getLast?.bind StoreSlice.endKey

theorem lastEnd_of_bounds {r : TemplateStoreRange K} {start : K} {cuts : List K} {stop : Option K}
    (bounds : r.slices.map StoreSlice.bounds = spans start cuts stop) : r.lastEnd = stop := by
  obtain ⟨front, last, eq⟩ := spans_stop start cuts
  have ends : (r.slices.map StoreSlice.bounds).getLast? = some (last, stop) := by
    rw [bounds, eq, List.getLast?_concat]
  rw [List.getLast?_map] at ends
  obtain ⟨s, here, pair⟩ := Option.map_eq_some_iff.mp ends
  rw [lastEnd, here]
  exact congrArg Prod.snd pair

/-- The slices lie between consecutive boundary keys. The range's own end is the end of the last
one, unless it is not set. -/
structure Partitioned [LinearOrder K] (r : TemplateStoreRange K) : Prop where
  ascending : Ascending (r.rangeStartKey :: r.boundaryKeys)
  bounds : r.slices.map StoreSlice.bounds = spans r.rangeStartKey r.boundaryKeys r.lastEnd
  ends : r.rangeEndKey = none ∨ r.lastEnd = r.rangeEndKey

/-- The slices are well formed: they partition the range and none after the first is empty. -/
structure WellFormed [LinearOrder K] (r : TemplateStoreRange K) : Prop extends Partitioned r where
  inside : ∀ key ∈ r.boundaryKeys, ∀ e, r.lastEnd = some e → key < e

/-- The sizes of the slices fit the records they are sent in. -/
def Fits (r : TemplateStoreRange K) : Prop := ∀ s ∈ r.slices, s.size.toUInt32.toUInt64 = s.size

section
variable [LinearOrder K] {r : TemplateStoreRange K}

theorem Partitioned.of_bounds (stop : Option K)
    (ascending : Ascending (r.rangeStartKey :: r.boundaryKeys))
    (bounds : r.slices.map StoreSlice.bounds = spans r.rangeStartKey r.boundaryKeys stop)
    (ends : r.rangeEndKey = none ∨ stop = r.rangeEndKey) : Partitioned r := by
  have last := lastEnd_of_bounds bounds
  exact ⟨ascending, last ▸ bounds, last ▸ ends⟩

theorem Partitioned.length (h : Partitioned r) : r.slices.length = r.boundaryKeys.length + 1 := by
  have eq := congrArg List.length h.bounds
  rwa [List.length_map, length_spans] at eq

variable {i : Nat} {s : StoreSlice K} {key : K} {left right : List K} {newEnd : K}

section
variable (h : Partitioned r)
include h

theorem Partitioned.span_at (here : r.slices[i]? = some s) :
    (spans r.rangeStartKey r.boundaryKeys r.lastEnd)[i]? = some s.bounds := by
  rw [← h.bounds, List.getElem?_map, here]
  rfl

theorem Partitioned.eq_searchSlice (here : r.slices[i]? = some s) (contains : s.Contains key) :
    i = r.searchSlice key true := by
  rw [searchSlice_eq_cell h.ascending.of_cons]
  exact eq_cell_of_within h.ascending.of_cons (h.span_at here) contains

theorem Partitioned.findSlice (ge : r.rangeStartKey ≤ key)
    (lt : ∀ e, r.lastEnd = some e → key < e) :
    ∃ s, r.findSlice key = some s ∧ s.Contains key := by
  obtain ⟨span, at_cell, within⟩ := within_cell h.ascending.of_cons ge lt
  rw [← h.bounds, List.getElem?_map] at at_cell
  obtain ⟨s, here, rfl⟩ := Option.map_eq_some_iff.mp at_cell
  refine ⟨s, ?_, within⟩
  rw [TemplateStoreRange.findSlice, searchSlice_eq_cell h.ascending.of_cons, here]

/-- A slice starts at the boundary key before it and ends at the one after it. -/
theorem Partitioned.slice_ends (here : r.slices[i]? = some s) :
    (r.rangeStartKey :: r.boundaryKeys)[i]? = some s.startKey ∧
      (r.boundaryKeys.map some ++ [r.lastEnd])[i]? = some s.endKey := by
  have span := h.span_at here
  rw [← map_fst_spans r.rangeStartKey r.boundaryKeys r.lastEnd,
    ← map_snd_spans r.rangeStartKey r.boundaryKeys r.lastEnd, List.getElem?_map, List.getElem?_map,
    span]
  exact ⟨rfl, rfl⟩

theorem Partitioned.start_lt {i j : Nat} {s t : StoreSlice K} (lt : i < j)
    (at_i : r.slices[i]? = some s) (at_j : r.slices[j]? = some t) : s.startKey < t.startKey := by
  obtain ⟨ib, si⟩ := List.getElem?_eq_some_iff.mp (h.slice_ends at_i).1
  obtain ⟨jb, tj⟩ := List.getElem?_eq_some_iff.mp (h.slice_ends at_j).1
  rw [← si, ← tj]
  exact List.pairwise_iff_getElem.mp h.ascending i j ib jb lt

theorem Partitioned.start_mem (later : i ≠ 0) (here : r.slices[i]? = some s) :
    s.startKey ∈ r.boundaryKeys := by
  obtain ⟨j, rfl⟩ := Nat.exists_eq_succ_of_ne_zero later
  exact List.mem_of_getElem? (h.slice_ends here).1

theorem Partitioned.end_eq {s t : StoreSlice K} (at_i : r.slices[i]? = some s)
    (next : r.slices[i + 1]? = some t) :
    s.endKey = some t.startKey := by
  have stop := (h.slice_ends at_i).2
  have start := (h.slice_ends next).1
  rw [List.getElem?_cons_succ] at start
  have bound := (List.getElem?_eq_some_iff.mp start).1
  rw [List.getElem?_append_left (by rwa [List.length_map]), List.getElem?_map, start] at stop
  exact (Option.some.inj stop).symm

end

theorem partitioned_new (startKey : K) (endKey : Option K) (emptyRange : Bool) :
    Partitioned (new startKey endKey emptyRange) :=
  .of_bounds endKey (List.pairwise_singleton _ _) rfl (.inr rfl)

omit [LinearOrder K] in
theorem setRangeEndKey_slices (nonempty : r.slices ≠ []) (endKey : K) :
    ∃ before s, r.slices = before ++ [s] ∧
      (r.setRangeEndKey endKey).slices = before ++ [{ s with endKey := some endKey }] := by
  obtain ⟨before, s, whole⟩ := (List.eq_nil_or_concat r.slices).resolve_left nonempty
  rw [List.concat_eq_append] at whole
  refine ⟨before, s, whole, ?_⟩
  rw [setRangeEndKey, whole, List.modifyLast_concat]

theorem Partitioned.slices_ne_nil (h : Partitioned r) : r.slices ≠ [] := by
  intro nothing
  have count := h.length
  rw [nothing] at count
  exact absurd count (Nat.succ_ne_zero _).symm

theorem Partitioned.setRangeEndKey (h : Partitioned r) (endKey : K) :
    Partitioned (r.setRangeEndKey endKey) := by
  refine .of_bounds (some endKey) h.ascending ?_ (.inr rfl)
  obtain ⟨front, last, eq⟩ := spans_stop r.rangeStartKey r.boundaryKeys
  obtain ⟨before, s, whole, slices⟩ := setRangeEndKey_slices h.slices_ne_nil endKey
  have split := h.bounds
  rw [eq, whole, List.map_append] at split
  obtain ⟨fronts, lasts⟩ := List.append_inj' split rfl
  have start : s.startKey = last := congrArg Prod.fst (List.singleton_inj.mp lasts)
  rw [slices, List.map_append, fronts]
  simp only [TemplateStoreRange.setRangeEndKey, eq, List.map_singleton, StoreSlice.bounds, start]

omit [LinearOrder K] in
theorem map_bounds_makeSlices (rangeEndKey : Option K) (start : K) (info : SliceInitInfo K)
    (rest : List (SliceInitInfo K)) :
    (makeSlices rangeEndKey start info rest).map StoreSlice.bounds =
      spans start (rest.map SliceInitInfo.key) rangeEndKey := by
  induction rest generalizing start info with
  | nil => rfl
  | cons next rest ih =>
    simp only [makeSlices, List.map_cons, ih, spans]
    rfl

theorem partitioned_initSlices {first : SliceInitInfo K} {rest : List (SliceInitInfo K)}
    (ascending : Ascending (r.rangeStartKey :: rest.map SliceInitInfo.key)) :
    Partitioned (r.initSlices first rest) :=
  .of_bounds r.rangeEndKey ascending (map_bounds_makeSlices _ _ _ _) (.inr rfl)

/-- A boundary key begins the slice after the keys before it. -/
theorem Partitioned.searchSlice_boundary (h : Partitioned r)
    (keys : r.boundaryKeys = left ++ key :: right) : r.searchSlice key true = left.length + 1 := by
  have ascending := h.ascending.of_cons
  rw [searchSlice_eq_cell ascending]
  rw [keys] at ascending ⊢
  obtain ⟨-, later, before⟩ := List.pairwise_append.mp ascending
  rw [cell_append fun c mem => (before c mem key List.mem_cons_self).le, cell_cons_of_le le_rfl,
    cell_eq_zero fun c mem => List.rel_of_pairwise_cons later mem]

/-- The specifications of the slices that a split takes out. -/
def removedSlices (r : TemplateStoreRange K) (keys : List K) (offset : Nat) :
    List (SliceInitInfo K) :=
  List.zipWith (fun key s => ⟨key, s.size.toUInt32, s.status⟩) keys (r.slices.drop offset)

section
variable (h : Partitioned r) (keys : r.boundaryKeys = left ++ newEnd :: right)
include h keys

theorem Partitioned.splitRange_eq :
    r.splitRange newEnd =
      if r.slices.any StoreSlice.busy then (false, [], r)
      else (true, r.removedSlices (newEnd :: right) (left.length + 1),
        { r with
          slices := r.slices.take (left.length + 1), boundaryKeys := left, rangeEndKey := none }) := by
  rw [splitRange, h.searchSlice_boundary keys, if_neg (Nat.succ_ne_zero _), Nat.add_sub_cancel, keys,
    List.drop_left, List.take_left]
  rfl

theorem Partitioned.bounds_take :
    (r.slices.take (left.length + 1)).map StoreSlice.bounds =
      spans r.rangeStartKey left (some newEnd) := by
  rw [List.map_take, h.bounds, keys, spans_append, List.take_left' length_spans]

theorem Partitioned.bounds_drop :
    (r.slices.drop (left.length + 1)).map StoreSlice.bounds = spans newEnd right r.lastEnd := by
  rw [List.map_drop, h.bounds, keys, spans_append, List.drop_left' length_spans]

theorem Partitioned.cut :
    Partitioned { r with
      slices := r.slices.take (left.length + 1), boundaryKeys := left, rangeEndKey := none } := by
  refine .of_bounds (some newEnd) ?_ (h.bounds_take keys) (.inl rfl)
  have ascending := h.ascending
  rw [keys, ← List.cons_append] at ascending
  exact (List.pairwise_append.mp ascending).1

end

theorem Partitioned.splitRange (h : Partitioned r) (mem : newEnd ∈ r.boundaryKeys) :
    Partitioned (r.splitRange newEnd).2.2 := by
  obtain ⟨left, right, keys⟩ := List.append_of_mem mem
  rw [h.splitRange_eq keys]
  split
  · exact h
  · exact h.cut keys

end

end TemplateStoreRange

end TxService.RangeSlice
