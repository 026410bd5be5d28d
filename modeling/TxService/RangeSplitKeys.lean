import TxService.RangeSplit
import TxService.SinglePrecision
import TxService.SliceRuns

/-!
# Where a range is split

`CalculateRangeSplitKeys` starts a sub-range where the slices before it add up to the average. A
slice larger than a sub-range is cut at keys sampled from it.
-/

namespace TxService.RangeSlice

open OrderedCuts SinglePrecision

universe u

variable {K : Type u} [LinearOrder K] [OrderBot K]

/-- `range_max_size`, in bytes. -/
def rangeMaxSize : Nat := 268435456

/-- `new_range_load_factor`. -/
def newRangeLoadFactor : ℚ := float (1 / 10)

/-- `ceil(post_ckpt_size / (range_max_size * new_range_load_factor))`, in floats. -/
def subrangeCnt (postCkptSize : Nat) : Nat :=
  ⌈float (float postCkptSize / float (float rangeMaxSize * newRangeLoadFactor))⌉₊

def avgSubrangeSize (postCkptSize : UInt64) : UInt64 :=
  UInt64.ofNat (postCkptSize.toNat / subrangeCnt postCkptSize.toNat)

/-- The inner loop, over the slices from `slice_idx` on: where it stops, and the slice there if that
one has to be sampled. -/
def nextSubrange (avgSize : UInt64) :
    Nat → UInt64 → List (StoreSlice K) → Nat × Option (StoreSlice K)
  | sliceIdx, _, [] => (sliceIdx, none)
  | sliceIdx, currSize, slice :: rest =>
    if currSize < avgSize then
      if slice.postCkptSize ≠ noPostCkptSize then
        if avgSize < slice.postCkptSize then (sliceIdx, some slice)
        else nextSubrange avgSize (sliceIdx + 1) (currSize + slice.postCkptSize) rest
      else nextSubrange avgSize (sliceIdx + 1) (currSize + slice.size) rest
    else (sliceIdx, none)

theorem subrangeCnt_pos {postCkptSize : Nat} (pos : 0 < postCkptSize) :
    0 < subrangeCnt postCkptSize := by
  have size : (0 : ℚ) < rangeMaxSize := by norm_num [rangeMaxSize]
  have factor : 0 < newRangeLoadFactor := float_pos (by norm_num)
  refine Nat.ceil_pos.mpr (float_pos (div_pos (float_pos ?_) (float_pos ?_)))
  · exact_mod_cast pos
  · exact mul_pos (float_pos size) factor

theorem subrangeCnt_le {postCkptSize : Nat} (pos : 0 < postCkptSize) :
    subrangeCnt postCkptSize ≤ postCkptSize := by
  have total : (0 : ℚ) < postCkptSize := by exact_mod_cast pos
  have size : (0 : ℚ) < rangeMaxSize := by norm_num [rangeMaxSize]
  have factor : 0 < newRangeLoadFactor := float_pos (by norm_num)
  have product : 0 < float rangeMaxSize * newRangeLoadFactor := mul_pos (float_pos size) factor
  -- a sub-range is far larger than the rounding
  have large : (2 : ℚ) * (1 + 1 / 2 ^ 24) * (1 + 1 / 2 ^ 24) ≤
      float (float rangeMaxSize * newRangeLoadFactor) := by
    have first : (rangeMaxSize : ℚ) / 2 ≤ float rangeMaxSize := by
      have := le_float size
      linarith
    have second : (1 : ℚ) / 20 ≤ newRangeLoadFactor := by
      have := le_float (q := 1 / 10) (by norm_num)
      rw [newRangeLoadFactor]
      linarith
    have third := le_float product
    have fourth : (rangeMaxSize : ℚ) / 2 * (1 / 20) ≤ float rangeMaxSize * newRangeLoadFactor :=
      mul_le_mul first second (by norm_num) (float_pos size).le
    norm_num [rangeMaxSize] at third fourth ⊢
    linarith
  have divisor := float_pos product
  have quotient := div_pos (float_pos total) divisor
  refine Nat.ceil_le.mpr ((float_le quotient).trans ?_)
  rw [div_mul_eq_mul_div, div_le_iff₀ divisor]
  have up := float_le total
  calc float postCkptSize * (1 + 1 / 2 ^ 24)
      ≤ postCkptSize * (1 + 1 / 2 ^ 24) * (1 + 1 / 2 ^ 24) :=
        mul_le_mul_of_nonneg_right up (by norm_num)
    _ = postCkptSize * ((1 + 1 / 2 ^ 24) * (1 + 1 / 2 ^ 24)) := by ring
    _ ≤ postCkptSize * float (float rangeMaxSize * newRangeLoadFactor) :=
        mul_le_mul_of_nonneg_left (by linarith) total.le

theorem avgSubrangeSize_pos {postCkptSize : UInt64} (pos : 0 < postCkptSize) :
    0 < avgSubrangeSize postCkptSize := by
  have total : 0 < postCkptSize.toNat := UInt64.lt_iff_toNat_lt.mp pos
  have least : 0 < postCkptSize.toNat / subrangeCnt postCkptSize.toNat :=
    Nat.div_pos (subrangeCnt_le total) (subrangeCnt_pos total)
  have small : postCkptSize.toNat / subrangeCnt postCkptSize.toNat < 2 ^ 64 :=
    (Nat.div_le_self _ _).trans_lt postCkptSize.toNat_lt
  rw [UInt64.lt_iff_toNat_lt, avgSubrangeSize, UInt64.toNat_ofNat_of_lt' small]
  exact least

omit [LinearOrder K] [OrderBot K] in
/-- The inner loop stops at a slice that has to be sampled, or goes on by one slice at least. -/
theorem nextSubrange_spec (avgSize : UInt64) (sliceIdx : Nat) (currSize : UInt64)
    (slices : List (StoreSlice K)) :
    let stop := nextSubrange avgSize sliceIdx currSize slices
    sliceIdx ≤ stop.1 ∧ stop.1 ≤ sliceIdx + slices.length ∧
      (∀ s, stop.2 = some s → slices[stop.1 - sliceIdx]? = some s) ∧
      (stop.2 = none → currSize < avgSize → slices ≠ [] → sliceIdx < stop.1) := by
  induction slices generalizing sliceIdx currSize with
  | nil => exact ⟨Nat.le_refl _, Nat.le_refl _, nofun, fun _ _ nothing => absurd rfl nothing⟩
  | cons slice rest ih =>
    -- one slice on
    have onward (size : UInt64) :
        let stop := nextSubrange avgSize (sliceIdx + 1) size rest
        sliceIdx ≤ stop.1 ∧ stop.1 ≤ sliceIdx + (slice :: rest).length ∧
          (∀ s, stop.2 = some s → (slice :: rest)[stop.1 - sliceIdx]? = some s) ∧
          (stop.2 = none → currSize < avgSize → slice :: rest ≠ [] → sliceIdx < stop.1) := by
      obtain ⟨le, upper, sampled, -⟩ := ih (sliceIdx + 1) size
      generalize nextSubrange avgSize (sliceIdx + 1) size rest = stop at le upper sampled ⊢
      refine ⟨by omega, by rw [List.length_cons]; omega, ?_, fun _ _ _ => by omega⟩
      intro s found
      have place : stop.1 - sliceIdx = stop.1 - (sliceIdx + 1) + 1 := by omega
      rw [place]
      exact sampled s found
    simp only [nextSubrange]
    split
    · split
      · split
        · refine ⟨Nat.le_refl _, Nat.le_add_right _ _, ?_, nofun⟩
          rintro s ⟨⟩
          rw [Nat.sub_self]
          rfl
        · exact onward _
      · exact onward _
    · rename_i full
      exact ⟨Nat.le_refl _, Nat.le_add_right _ _, nofun, fun _ room => absurd room full⟩

namespace TemplateStoreRange

/-- `UpdateSliceSpec`, of the slice at a position and one sampled key at least. The slice is altered
once nobody pins it. -/
def updateSliceSpec (position : Nat) (slice : StoreSlice K) (key : K) (keys : List K)
    (r : TemplateStoreRange K) : TemplateStoreRange K :=
  let subsliceCnt := UInt64.ofNat (keys.length + 2)
  let subSliceSize := (slice.size / subsliceCnt).toUInt32
  let subPostCkptSize := (slice.postCkptSize / subsliceCnt).toUInt32
  let info := fun key => (⟨key, subSliceSize, subPostCkptSize⟩ : SliceChangeInfo K)
  r.updateSlice position (info slice.startKey) (info key) (keys.map info)

/-- The start of the sub-range's first slice is a split key, unless the sub-range is the first. -/
def startSubrange (r : TemplateStoreRange K) (subrangeSliceIdx : Nat) (newRangeKeys : List K) :
    List K :=
  if subrangeSliceIdx ≠ 0 then
    newRangeKeys ++ (r.slices[subrangeSliceIdx]?.map StoreSlice.startKey).toList
  else newRangeKeys

/-- The outer loop, for so many sub-ranges. The answer is whether sampling went through, the keys
and the range with its new slices. -/
def splitKeysFrom (sampleSubRangeKeys : StoreSlice K → Nat → Option (List K)) (avgSize : UInt64) :
    Nat → Nat → Nat → List K → TemplateStoreRange K →
      Option (Bool × List K × TemplateStoreRange K)
  | 0, _, _, _, _ => none
  | steps + 1, sliceIdx, subrangeSliceIdx, newRangeKeys, r =>
    if sliceIdx < r.slices.length then
      let stop := nextSubrange avgSize sliceIdx 0 (r.slices.drop sliceIdx)
      let newRangeKeys := r.startSubrange subrangeSliceIdx newRangeKeys
      match stop.2 with
      | none => splitKeysFrom sampleSubRangeKeys avgSize steps stop.1 stop.1 newRangeKeys r
      | some slice =>
        let sliceSubrangesCnt := max 2 (slice.postCkptSize / avgSize).toNat
        match sampleSubRangeKeys slice (sliceSubrangesCnt - 1) with
        | none => some (false, newRangeKeys, r)
        | some [] =>
          splitKeysFrom sampleSubRangeKeys avgSize steps (stop.1 + 1) (stop.1 + 1) newRangeKeys r
        | some (key :: keys) =>
          splitKeysFrom sampleSubRangeKeys avgSize steps (stop.1 + keys.length + 2)
            (stop.1 + keys.length + 2) (newRangeKeys ++ key :: keys)
            (r.updateSliceSpec stop.1 slice key keys)
    else some (true, newRangeKeys, r)

def calculateRangeSplitKeys (sampleSubRangeKeys : StoreSlice K → Nat → Option (List K))
    (postCkptSize : UInt64) (r : TemplateStoreRange K) :
    Option (Bool × List K × TemplateStoreRange K) :=
  splitKeysFrom sampleSubRangeKeys (avgSubrangeSize postCkptSize) (r.slices.length + 1) 0 0 [] r

variable {r : TemplateStoreRange K} {sliceIdx : Nat} {keys : List K} {s : StoreSlice K}

omit [OrderBot K] in
/-- What is before the end of a slice is before the end of the range. -/
theorem WellFormed.lt_lastEnd (h : WellFormed r) {i : Nat} {key e : K}
    (here : r.slices[i]? = some s) (before : ∀ e, s.endKey = some e → key < e)
    (stops : r.lastEnd = some e) : key < e := by
  have bound : i < r.slices.length := (List.getElem?_eq_some_iff.mp here).1
  rcases Nat.lt_or_ge (i + 1) r.slices.length with more | last
  · have next := List.getElem?_eq_getElem more
    have start := h.start_mem (Nat.succ_ne_zero i) next
    exact (before _ (h.end_eq here next)).trans (h.inside _ start e stops)
  · have count := h.length
    have place : i = (r.boundaryKeys.map some).length := by
      rw [List.length_map]
      omega
    have ends := (h.slice_ends here).2
    rw [place, List.getElem?_concat_length] at ends
    exact before e ((Option.some.inj ends).symm.trans stops)

/-- The keys found so far ascend, are boundary keys and come before the slice the loop is at. -/
structure Splitting (r : TemplateStoreRange K) (sliceIdx : Nat) (keys : List K) : Prop
    extends WellFormed r where
  ordered : Ascending keys
  boundary : ∀ key ∈ keys, key ∈ r.boundaryKeys
  before : ∀ key ∈ keys, ∀ s, r.slices[sliceIdx]? = some s → key < s.startKey

omit [OrderBot K] in
/-- With the start of the sub-range added the keys come up to the slice the loop is at. -/
theorem Splitting.startSubrange (h : Splitting r sliceIdx keys)
    (here : r.slices[sliceIdx]? = some s) :
    Ascending (r.startSubrange sliceIdx keys) ∧
      ∀ key ∈ r.startSubrange sliceIdx keys, key ∈ r.boundaryKeys ∧ key ≤ s.startKey := by
  have earlier (key : K) (mem : key ∈ keys) : key < s.startKey := h.before key mem s here
  rw [TemplateStoreRange.startSubrange]
  split
  · rename_i later
    rw [here]
    constructor
    · refine List.pairwise_append.mpr ⟨h.ordered, List.pairwise_singleton _ _, ?_⟩
      intro key mem start first
      cases List.mem_singleton.mp first
      exact earlier key mem
    · intro key mem
      rcases List.mem_append.mp mem with old | new
      · exact ⟨h.boundary key old, (earlier key old).le⟩
      · cases List.mem_singleton.mp new
        exact ⟨h.start_mem later here, le_rfl⟩
  · exact ⟨h.ordered, fun key mem => ⟨h.boundary key mem, (earlier key mem).le⟩⟩

omit [OrderBot K] in
theorem Splitting.next (h : Splitting r sliceIdx keys) {later : Nat}
    (here : r.slices[sliceIdx]? = some s) (lt : sliceIdx < later) :
    Splitting r later (r.startSubrange sliceIdx keys) := by
  obtain ⟨ordered, upTo⟩ := h.startSubrange here
  refine ⟨h.toWellFormed, ordered, fun key mem => (upTo key mem).1, ?_⟩
  intro key mem t there
  exact (upTo key mem).2.trans_lt (h.start_lt lt here there)

theorem Partitioned.updateSliceSpec_keys (h : Partitioned r) {slice : StoreSlice K}
    {position : Nat} {key : K} {rest : List K} (there : r.slices[position]? = some slice)
    (inside : CutsInside slice (key :: rest)) :
    let r' := r.updateSliceSpec position slice key rest
    Partitioned r' ∧ r'.lastEnd = r.lastEnd ∧ r'.rangeStartKey = r.rangeStartKey ∧
      r'.boundaryKeys = r.boundaryKeys.take position ++ key :: rest ++ r.boundaryKeys.drop position ∧
      ∃ middle, middle.length = rest.length + 2 ∧
        r'.slices = r.slices.take position ++ middle ++ r.slices.drop (position + 1) := by
  refine h.updateSlice_keys there inside ?_
  rw [List.map_cons, List.map_map]
  exact congrArg (key :: ·) (List.map_id' rest)

theorem Splitting.sampled (h : Splitting r sliceIdx keys) {s slice : StoreSlice K} {stop : Nat}
    {key : K} {rest : List K} (here : r.slices[sliceIdx]? = some s) (le : sliceIdx ≤ stop)
    (there : r.slices[stop]? = some slice) (inside : CutsInside slice (key :: rest)) :
    Splitting (r.updateSliceSpec stop slice key rest) (stop + rest.length + 2)
      (r.startSubrange sliceIdx keys ++ key :: rest) := by
  obtain ⟨ordered, upTo⟩ := h.startSubrange here
  have bound : stop < r.slices.length := (List.getElem?_eq_some_iff.mp there).1
  have upToSlice : s.startKey ≤ slice.startKey := by
    rcases Nat.eq_or_lt_of_le le with rfl | lt
    · cases here.symm.trans there
      exact le_rfl
    · exact (h.start_lt lt here there).le
  obtain ⟨partitioned, last, -, boundary, middle, length, slices⟩ :=
    h.updateSliceSpec_keys there inside
  -- the slice after the cut one has moved behind the new ones
  have after : (r.updateSliceSpec stop slice key rest).slices[stop + rest.length + 2]? =
      r.slices[stop + 1]? := by
    rw [slices, List.getElem?_append_right, List.getElem?_drop]
    · congr 1
      rw [List.length_append, List.length_take, length]
      omega
    · rw [List.length_append, List.length_take, length]
      omega
  have old {k : K} (mem : k ∈ r.boundaryKeys) :
      k ∈ (r.updateSliceSpec stop slice key rest).boundaryKeys := by
    rw [boundary, List.append_assoc, List.mem_append, List.mem_append]
    rw [← List.take_append_drop stop r.boundaryKeys, List.mem_append] at mem
    exact mem.imp_right .inr
  refine ⟨⟨partitioned, ?_⟩, ?_, ?_, ?_⟩
  · intro k mem e stops
    rw [last] at stops
    rw [boundary, List.append_assoc, List.mem_append, List.mem_append] at mem
    rcases mem with left | new | right
    · exact h.inside k (List.mem_of_mem_take left) e stops
    · exact h.toWellFormed.lt_lastEnd there (inside.2 k new) stops
    · exact h.inside k (List.mem_of_mem_drop right) e stops
  · refine List.pairwise_append.mpr ⟨ordered, inside.1.of_cons, ?_⟩
    intro k mem new later
    exact ((upTo k mem).2.trans upToSlice).trans_lt (List.rel_of_pairwise_cons inside.1 later)
  · intro k mem
    rcases List.mem_append.mp mem with earlier | new
    · exact old (upTo k earlier).1
    · rw [boundary]
      exact List.mem_append_left _ (List.mem_append_right _ new)
  · intro k mem t follows
    rw [after] at follows
    have next := h.end_eq there follows
    rcases List.mem_append.mp mem with earlier | new
    · exact ((upTo k earlier).2.trans upToSlice).trans_lt
        (h.start_lt (Nat.lt_succ_self stop) there follows)
    · exact inside.2 k new _ next

/-- Sampled keys ascend strictly inside the slice, and there are no more than were asked for. -/
def SamplesInside (sampleSubRangeKeys : StoreSlice K → Nat → Option (List K)) : Prop :=
  ∀ slice cnt keys, sampleSubRangeKeys slice cnt = some keys →
    keys.length ≤ cnt ∧ CutsInside slice keys

/-- The keys are valid split keys of a range that ends up so. -/
structure ValidKeys (r : TemplateStoreRange K) (keys : List K) (r' : TemplateStoreRange K) :
    Prop where
  partitioned : Partitioned r'
  sameStart : r'.rangeStartKey = r.rangeStartKey
  sameEnd : r'.lastEnd = r.lastEnd
  ordered : Ascending keys
  boundary : ∀ key ∈ keys, key ∈ r'.boundaryKeys
  inside : ∀ key ∈ keys, r.rangeStartKey < key ∧ ∀ e, r.lastEnd = some e → key < e

omit [OrderBot K] in
theorem WellFormed.validKeys (h : WellFormed r) (ordered : Ascending keys)
    (boundary : ∀ key ∈ keys, key ∈ r.boundaryKeys) : ValidKeys r keys r := by
  refine ⟨h.toPartitioned, rfl, rfl, ordered, boundary, fun key mem => ⟨?_, ?_⟩⟩
  · exact List.rel_of_pairwise_cons h.ascending (boundary key mem)
  · exact h.inside key (boundary key mem)

omit [OrderBot K] in
theorem ValidKeys.trans {r' r'' : TemplateStoreRange K} (h : ValidKeys r' keys r'')
    (sameStart : r'.rangeStartKey = r.rangeStartKey) (sameEnd : r'.lastEnd = r.lastEnd) :
    ValidKeys r keys r'' where
  partitioned := h.partitioned
  sameStart := h.sameStart.trans sameStart
  sameEnd := h.sameEnd.trans sameEnd
  ordered := h.ordered
  boundary := h.boundary
  inside := sameStart ▸ sameEnd ▸ h.inside

/-- The outer loop ends within as many steps as there are slices left, with valid keys. -/
theorem Splitting.splitKeysFrom {sampleSubRangeKeys : StoreSlice K → Nat → Option (List K)}
    (samples : SamplesInside sampleSubRangeKeys) {avgSize : UInt64} (pos : 0 < avgSize)
    {steps : Nat} (h : Splitting r sliceIdx keys) (le : sliceIdx ≤ r.slices.length)
    (enough : r.slices.length < sliceIdx + steps) :
    ∃ done keys' r', splitKeysFrom sampleSubRangeKeys avgSize steps sliceIdx sliceIdx keys r =
      some (done, keys', r') ∧ ValidKeys r keys' r' := by
  induction steps generalizing r sliceIdx keys with
  | zero => omega
  | succ steps ih =>
    rw [TemplateStoreRange.splitKeysFrom]
    split
    case isFalse =>
      exact ⟨true, keys, r, rfl, h.toWellFormed.validKeys h.ordered h.boundary⟩
    case isTrue lt =>
      have here := List.getElem?_eq_getElem lt
      obtain ⟨ge, upper, sampled, onward⟩ :=
        nextSubrange_spec avgSize sliceIdx 0 (r.slices.drop sliceIdx)
      generalize nextSubrange avgSize sliceIdx 0 (r.slices.drop sliceIdx) = answer at *
      obtain ⟨stop, sample⟩ := answer
      dsimp only at ge upper sampled onward ⊢
      rw [List.length_drop] at upper
      cases sample with
      | none =>
        have later := onward rfl pos (List.ne_nil_of_length_pos (by rw [List.length_drop]; omega))
        exact ih (h.next here later) (by omega) (by omega)
      | some slice =>
        have there := sampled slice rfl
        rw [List.getElem?_drop, Nat.add_sub_cancel' ge] at there
        have bound : stop < r.slices.length := (List.getElem?_eq_some_iff.mp there).1
        dsimp only
        split
        · obtain ⟨ordered, upTo⟩ := h.startSubrange here
          exact ⟨false, _, r, rfl,
            h.toWellFormed.validKeys ordered fun key mem => (upTo key mem).1⟩
        · exact ih (h.next here (by omega)) (by omega) (by omega)
        · rename_i key rest answer
          have inside := (samples _ _ _ answer).2
          obtain ⟨-, last, start, -, middle, length, slices⟩ := h.updateSliceSpec_keys there inside
          have count : (r.updateSliceSpec stop slice key rest).slices.length =
              r.slices.length + rest.length + 1 := by
            rw [slices, List.length_append, List.length_append, List.length_take, List.length_drop,
              length]
            omega
          obtain ⟨done, keys', r', eq, valid⟩ :=
            ih (h.sampled here ge there inside) (by omega) (by omega)
          exact ⟨done, keys', r', eq, valid.trans start last⟩

/-- `CalculateRangeSplitKeys` ends, whatever the sizes of the slices and the sampled keys are, and
its keys ascend strictly inside the range and are boundary keys of the slices it leaves, which
partition the range. -/
theorem split_keys_valid {sampleSubRangeKeys : StoreSlice K → Nat → Option (List K)}
    (samples : SamplesInside sampleSubRangeKeys) {postCkptSize : UInt64} (pos : 0 < postCkptSize)
    (h : WellFormed r) :
    ∃ done keys r', r.calculateRangeSplitKeys sampleSubRangeKeys postCkptSize =
      some (done, keys, r') ∧ ValidKeys r keys r' := by
  have start : Splitting r 0 [] := ⟨h, List.Pairwise.nil, nofun, nofun⟩
  exact start.splitKeysFrom samples (avgSubrangeSize_pos pos) (Nat.zero_le _) (by omega)

/-- After the checkpoint the first slice is larger than a sub-range may be; the size of the second is
not set. -/
def grown : TemplateStoreRange Nat :=
  ⟨0, some 20, [10], [{ StoreSlice.new 0 (some 10) 100 .fullyCached with postCkptSize := 40000000 },
    .new 10 (some 20) 50 .partiallyCached], 0⟩

def sampleFour (s : StoreSlice Nat) (cnt : Nat) : Option (List Nat) :=
  if s.startKey = 0 ∧ s.endKey = some 10 ∧ 1 ≤ cnt then some [4] else none

theorem samplesInside_sampleFour : SamplesInside sampleFour := by
  intro s cnt keys found
  rw [sampleFour] at found
  split at found
  · rename_i first
    obtain ⟨start, stop, most⟩ := first
    cases found
    refine ⟨most, by simp [start], ?_⟩
    intro key mem e ends
    cases List.mem_singleton.mp mem
    rw [stop] at ends
    cases ends
    decide
  · cases found

theorem wellFormed_grown : WellFormed grown := by
  refine ⟨.of_bounds (some 20) (by decide) rfl (.inr rfl), ?_⟩
  intro key mem e ends
  cases List.mem_singleton.mp mem
  cases ends
  decide

/-- The first slice is sampled and cut at 4, and the other one starts a range of its own. -/
theorem split_keys_valid_grown :
    ∃ done r', grown.calculateRangeSplitKeys sampleFour 40000050 = some (done, [4, 10], r') ∧
      ValidKeys grown [4, 10] r' := by
  have pos : (0 : UInt64) < 40000050 := by decide
  obtain ⟨done, keys, r', found, valid⟩ :=
    split_keys_valid samplesInside_sampleFour pos wellFormed_grown
  have sampled : (grown.calculateRangeSplitKeys sampleFour 40000050).map (·.2.1) = some [4, 10] := by
    decide +kernel
  rw [found] at sampled
  cases sampled
  exact ⟨done, r', found, valid⟩

omit [OrderBot K] in
/-- A range that starts where a slice does gets that slice. -/
theorem slices_ne_nil_of_complete {op : SplittingRange K} {infos : List (SplitRangeInfo K)}
    (h : op.Complete infos) : ∀ info ∈ infos, info.slices ≠ [] := by
  intro info mem
  obtain ⟨before, after, rfl⟩ := List.append_of_mem mem
  have starts : (before ++ info :: after).map (·.startKey) =
      op.oldStartKey :: op.newRangeInfo.ranges.map Prod.fst := by
    have ranges := congrArg (List.map Prod.fst) h.ranges
    rwa [List.map_map] at ranges
  have ascending : ((before ++ info :: after).map (·.startKey)).Pairwise (· < ·) := by
    rw [starts]
    refine List.pairwise_cons.mpr ⟨?_, List.pairwise_map.mpr op.newRangeInfo.ascending⟩
    exact List.forall_mem_map.mpr op.inside
  obtain ⟨s, slice, start⟩ : ∃ s ∈ op.slices, s.startTxKey = info.startKey := by
    have key : info.startKey ∈ op.oldStartKey :: op.newRangeInfo.ranges.map Prod.fst :=
      starts ▸ List.mem_map_of_mem mem
    rcases List.mem_cons.mp key with key | key
    · obtain ⟨first, rest, eq, start⟩ := op.slices_eq
      exact ⟨first, eq ▸ List.mem_cons_self, start.trans key.symm⟩
    · obtain ⟨range, new, key⟩ := List.mem_map.mp key
      exact key ▸ op.onBoundary range new
  rw [List.map_append, List.map_cons, List.pairwise_append, List.pairwise_cons] at ascending
  refine List.ne_nil_of_mem ((h.dealt before info after rfl s).mpr ⟨slice, start.ge, ?_⟩)
  exact fun i later => start ▸ ascending.2.1.1 _ (List.mem_map_of_mem later)

/-- If `CalculateRangeSplitKeys` returns keys, they start new ranges to which, with the old one,
`GenSplittedRangeInfos` deals all slices that it left, and no range goes empty. -/
theorem split_keys_deal_slices {sampleSubRangeKeys : StoreSlice K → Nat → Option (List K)}
    (samples : SamplesInside sampleSubRangeKeys) {postCkptSize : UInt64} (pos : 0 < postCkptSize)
    (h : WellFormed r) (partitionId : Int) (newId : K → Int) :
    ∃ done keys r', r.calculateRangeSplitKeys sampleSubRangeKeys postCkptSize = some (done, keys, r') ∧
      (keys = [] ∨ ∃ op : SplittingRange K, op.oldStartKey = r.rangeStartKey ∧
        op.partitionId = partitionId ∧ op.slices = r'.slices.map (⟨·.startKey⟩) ∧
        op.newRangeInfo.ranges = keys.map (fun key => (key, newId key)) ∧
        op.Complete op.genSplittedRangeInfos ∧ ∀ info ∈ op.genSplittedRangeInfos, info.slices ≠ []) := by
  have start : Splitting r 0 [] := ⟨h, List.Pairwise.nil, nofun, nofun⟩
  obtain ⟨done, keys, r', found, valid⟩ : ∃ done keys r',
      r.calculateRangeSplitKeys sampleSubRangeKeys postCkptSize = some (done, keys, r') ∧
        ValidKeys r keys r' :=
    start.splitKeysFrom samples (avgSubrangeSize_pos pos) (Nat.zero_le _) (by omega)
  refine ⟨done, keys, r', found, or_iff_not_imp_left.mpr fun nonempty => ?_⟩
  have starts : r'.slices.map (·.startKey) = r.rangeStartKey :: r'.boundaryKeys := by
    have := congrArg (List.map Prod.fst) valid.partitioned.bounds
    rwa [map_fst_spans, List.map_map, valid.sameStart] at this
  let op : SplittingRange K :=
    { partitionId := partitionId
      oldStartKey := r.rangeStartKey
      slices := r'.slices.map (⟨·.startKey⟩)
      starts := by
        rw [← List.head?_map, List.map_map]
        exact congrArg List.head? starts
      ascending := by
        have := valid.partitioned.ascending
        rw [valid.sameStart, ← starts] at this
        exact List.pairwise_map.mpr (List.pairwise_map.mp this)
      newRangeInfo :=
        ⟨keys.map fun key => (key, newId key), by simpa using nonempty, List.pairwise_map.mpr valid.ordered⟩
      inside := List.forall_mem_map.mpr fun key mem => (valid.inside key mem).1
      onBoundary := by
        refine List.forall_mem_map.mpr fun key mem => ?_
        have boundary : key ∈ r'.slices.map (·.startKey) :=
          starts ▸ List.mem_cons_of_mem _ (valid.boundary key mem)
        obtain ⟨s, slice, rfl⟩ := List.mem_map.mp boundary
        exact ⟨_, List.mem_map_of_mem slice, rfl⟩ }
  have complete := op.genSplittedRangeInfos_complete
  exact ⟨op, rfl, rfl, rfl, rfl, complete, slices_ne_nil_of_complete complete⟩

/-- Two slices that make a range each. -/
def halves : TemplateStoreRange Nat :=
  ⟨0, some 20, [10], [.new 0 (some 10) 20000000 .fullyCached, .new 10 (some 20) 20000000 .fullyCached], 0⟩

theorem split_keys_deal_slices_halves :
    ∃ op : SplittingRange Nat, op.newRangeInfo.ranges = [(10, 2)] ∧
      op.Complete op.genSplittedRangeInfos ∧ ∀ info ∈ op.genSplittedRangeInfos, info.slices ≠ [] := by
  have wellFormed : WellFormed halves := by
    refine ⟨.of_bounds (some 20) (by decide) rfl (.inr rfl), ?_⟩
    intro key mem e ends
    cases List.mem_singleton.mp mem
    cases ends
    decide
  have pos : (0 : UInt64) < 40000000 := by decide
  obtain ⟨done, keys, r', found, split⟩ :=
    split_keys_deal_slices samplesInside_sampleFour pos wellFormed 1 fun _ => 2
  have cut : (halves.calculateRangeSplitKeys sampleFour 40000000).map (·.2.1) = some [10] := by
    decide +kernel
  rw [found] at cut
  cases cut
  obtain ⟨op, -, -, -, ranges, dealt⟩ := split.resolve_left (List.cons_ne_nil _ _)
  exact ⟨op, ranges, dealt⟩

end TemplateStoreRange

end TxService.RangeSlice
