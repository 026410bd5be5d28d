import Mathlib.Data.List.InsertIdx
import Mathlib.Order.Nat
import TxService.SlicePartition

/-!
# Cutting a slice into sub-slices

`UpdateSlice` puts the new keys and the new slices into their vectors one after the
other. The result is the list with the slice replaced by its sub-slices, and the
range stays partitioned.
-/

namespace TxService.RangeSlice.TemplateStoreRange

open OrderedCuts

universe u

variable {K : Type u}

theorem insertIdx_length_append {α : Type u} (left right : List α) (a : α) :
    (left ++ right).insertIdx left.length a = left ++ a :: right := by
  induction left with
  | nil => rfl
  | cons l left ih => simp only [List.cons_append, List.length_cons, List.insertIdx_succ_cons, ih]

/-- The sub-slices that the loop makes, in order. -/
def subSlices (slice : StoreSlice K) (sliceEndKey : Option K) :
    List (SliceChangeInfo K) → List (StoreSlice K)
  | [] => []
  | info :: rest => subSlice slice sliceEndKey info rest :: subSlices slice sliceEndKey rest

theorem length_subSlices (slice : StoreSlice K) (sliceEndKey : Option K)
    (infos : List (SliceChangeInfo K)) :
    (subSlices slice sliceEndKey infos).length = infos.length := by
  induction infos with
  | nil => rfl
  | cons info rest ih => rw [subSlices, List.length_cons, ih, List.length_cons]

/-- The loop puts what it makes between what is before its place and what is after it. -/
theorem insertSubSlices_eq {slice : StoreSlice K} {sliceEndKey : Option K} {sliceIdx idx : Nat}
    {infos : List (SliceChangeInfo K)} {r : TemplateStoreRange K} (keysLeft keysRight : List K)
    (left right : List (StoreSlice K)) (keys : r.boundaryKeys = keysLeft ++ keysRight)
    (slices : r.slices = left ++ right) (keysLength : keysLeft.length + 1 = sliceIdx + idx)
    (length : left.length = sliceIdx + idx) :
    insertSubSlices slice sliceEndKey sliceIdx idx infos r =
      { r with
        boundaryKeys := keysLeft ++ infos.map SliceChangeInfo.key ++ keysRight
        slices := left ++ subSlices slice sliceEndKey infos ++ right } := by
  induction infos generalizing idx r keysLeft left with
  | nil => simp [insertSubSlices, subSlices, ← keys, ← slices]
  | cons info rest ih =>
    have keyPlace : sliceIdx + idx - 1 = keysLeft.length := by omega
    rw [insertSubSlices, keyPlace, ← length, keys, slices, insertIdx_length_append,
      insertIdx_length_append]
    rw [ih (keysLeft ++ [info.key]) (left ++ [subSlice slice sliceEndKey info rest])]
    · simp [subSlices]
    · simp
    · simp
    · simp only [List.length_append, List.length_singleton]
      omega
    · simp only [List.length_append, List.length_singleton]
      omega

/-- A slice that ends at the first key and its sub-slices are the spans of the keys. -/
theorem bounds_subSlices (slice : StoreSlice K) (sliceEndKey : Option K) (start : K)
    (infos : List (SliceChangeInfo K)) :
    (start, (infos.head?.map SliceChangeInfo.key).or sliceEndKey) ::
        (subSlices slice sliceEndKey infos).map StoreSlice.bounds =
      spans start (infos.map SliceChangeInfo.key) sliceEndKey := by
  induction infos generalizing start with
  | nil => rfl
  | cons info rest ih =>
    simp only [subSlices, List.map_cons, spans, ← ih info.key]
    rfl

section
variable [LinearOrder K] [OrderBot K] {r : TemplateStoreRange K} {position : Nat}
  {slice : StoreSlice K} {first next : SliceChangeInfo K} {rest : List (SliceChangeInfo K)}

/-- The keys at which a slice is cut ascend strictly inside it. -/
def CutsInside (slice : StoreSlice K) (keys : List K) : Prop :=
  Ascending (slice.startKey :: keys) ∧ ∀ key ∈ keys, ∀ e, slice.endKey = some e → key < e

theorem Partitioned.position_eq (h : Partitioned r) (here : r.slices[position]? = some slice)
    {key : K} (after : slice.startKey < key) (before : ∀ e, slice.endKey = some e → key < e) :
    (if slice.startKey = ⊥ then 0 else r.searchSlice slice.startKey true) = position := by
  have found : position = r.searchSlice slice.startKey true :=
    h.eq_searchSlice here ⟨le_rfl, fun e stop => after.trans (before e stop)⟩
  split
  · rename_i bottom
    rw [found, searchSlice_eq_cell h.ascending.of_cons, bottom]
    refine (cell_eq_zero fun c mem => ?_).symm
    exact bot_le.trans_lt (List.rel_of_pairwise_cons h.ascending mem)
  · exact found.symm

theorem Partitioned.updateSlice_eq (h : Partitioned r) (here : r.slices[position]? = some slice)
    (inside : CutsInside slice ((next :: rest).map SliceChangeInfo.key)) :
    r.updateSlice position first next rest =
      { r with
        boundaryKeys := r.boundaryKeys.take position ++
          (next :: rest).map SliceChangeInfo.key ++ r.boundaryKeys.drop position
        slices := r.slices.take position ++
          ({ slice with
              endKey := some next.key
              size := first.curSize.toUInt64
              postCkptSize := first.postUpdateSize.toUInt64 } ::
            subSlices slice slice.endKey (next :: rest)) ++ r.slices.drop (position + 1) } := by
  have index := h.position_eq here (List.rel_of_pairwise_cons inside.1 List.mem_cons_self)
    (inside.2 next.key List.mem_cons_self)
  have bound : position < r.slices.length := (List.getElem?_eq_some_iff.mp here).1
  have count := h.length
  rw [updateSlice, here]
  simp only [index]
  rw [insertSubSlices_eq (r.boundaryKeys.take position) (r.boundaryKeys.drop position)
    (r.slices.take position ++ [{ slice with
      endKey := some next.key
      size := first.curSize.toUInt64
      postCkptSize := first.postUpdateSize.toUInt64 }])
    (r.slices.drop (position + 1))]
  · simp
  · rw [List.take_append_drop]
  · rw [List.set_eq_take_append_cons_drop, if_pos bound, List.append_assoc, List.singleton_append]
  · rw [List.length_take]
    omega
  · rw [List.length_append, List.length_take, List.length_singleton]
    omega

theorem Partitioned.bounds_updateSlice (h : Partitioned r) (first : SliceChangeInfo K)
    (here : r.slices[position]? = some slice)
    (inside : CutsInside slice ((next :: rest).map SliceChangeInfo.key)) :
    (r.updateSlice position first next rest).slices.map StoreSlice.bounds =
      spans r.rangeStartKey (r.boundaryKeys.take position ++
        (next :: rest).map SliceChangeInfo.key ++ r.boundaryKeys.drop position) r.lastEnd := by
  rw [h.updateSlice_eq here inside, spans_refine (h.span_at here), ← bounds_subSlices slice,
    ← h.bounds]
  simp [StoreSlice.bounds, List.map_take, List.map_drop]

theorem Partitioned.updateSlice (h : Partitioned r) (here : r.slices[position]? = some slice)
    (inside : CutsInside slice ((next :: rest).map SliceChangeInfo.key)) :
    Partitioned (r.updateSlice position first next rest) := by
  have bounds := h.bounds_updateSlice first here inside
  rw [h.updateSlice_eq here inside] at bounds ⊢
  exact .of_bounds r.lastEnd (ascending_refine h.ascending (h.span_at here) inside.1 inside.2) bounds h.ends

theorem Partitioned.updateSlice_lastEnd (h : Partitioned r)
    (here : r.slices[position]? = some slice)
    (inside : CutsInside slice ((next :: rest).map SliceChangeInfo.key)) :
    (r.updateSlice position first next rest).lastEnd = r.lastEnd :=
  lastEnd_of_bounds (h.bounds_updateSlice first here inside)

theorem Partitioned.updateSlice_keys (h : Partitioned r) {keys : List K}
    (here : r.slices[position]? = some slice) (inside : CutsInside slice keys)
    (same : (next :: rest).map SliceChangeInfo.key = keys) :
    let r' := r.updateSlice position first next rest
    Partitioned r' ∧ r'.lastEnd = r.lastEnd ∧ r'.rangeStartKey = r.rangeStartKey ∧
      r'.boundaryKeys = r.boundaryKeys.take position ++ keys ++ r.boundaryKeys.drop position ∧
      ∃ middle, middle.length = keys.length + 1 ∧
        r'.slices = r.slices.take position ++ middle ++ r.slices.drop (position + 1) := by
  subst same
  intro r'
  refine ⟨h.updateSlice here inside, h.updateSlice_lastEnd here inside, ?_⟩
  simp only [r', h.updateSlice_eq here inside]
  refine ⟨trivial, trivial, _, ?_, rfl⟩
  rw [List.length_cons, length_subSlices, List.length_map]

end

end TxService.RangeSlice.TemplateStoreRange
