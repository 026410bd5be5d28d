import Mathlib.Data.List.Count
import Mathlib.Order.Lattice

/-!
# Intervals between ascending cuts

A key lies in the span whose number is the number of cuts at or below the key, and in no other one;
cutting one span further leaves the others as they are.
-/

namespace TxService.OrderedCuts

universe u

variable {K : Type u} [LinearOrder K]

abbrev Ascending (keys : List K) : Prop := keys.Pairwise (· < ·)

/-- The spans from a start to a stop; no stop is no bound. -/
def spans (start : K) : List K → Option K → List (K × Option K)
  | [], stop => [(start, stop)]
  | c :: cuts, stop => (start, some c) :: spans c cuts stop

def Within (span : K × Option K) (k : K) : Prop :=
  span.1 ≤ k ∧ ∀ stop, span.2 = some stop → k < stop

/-- How many cuts are at or below a key. -/
def cell (cuts : List K) (k : K) : Nat := cuts.countP fun c => decide (c ≤ k)

variable {start c k : K} {stop : Option K} {cuts left right : List K} {i : Nat}

omit [LinearOrder K] in
theorem length_spans : (spans start cuts stop).length = cuts.length + 1 := by
  induction cuts generalizing start with
  | nil => rfl
  | cons c cuts ih => rw [spans, List.length_cons, ih, List.length_cons]

omit [LinearOrder K] in
theorem map_fst_spans (start : K) (cuts : List K) (stop : Option K) :
    (spans start cuts stop).map Prod.fst = start :: cuts := by
  induction cuts generalizing start with
  | nil => rfl
  | cons c cuts ih => rw [spans, List.map_cons, ih]

omit [LinearOrder K] in
theorem map_snd_spans (start : K) (cuts : List K) (stop : Option K) :
    (spans start cuts stop).map Prod.snd = cuts.map some ++ [stop] := by
  induction cuts generalizing start with
  | nil => rfl
  | cons c cuts ih => rw [spans, List.map_cons, ih, List.map_cons, List.cons_append]

omit [LinearOrder K] in
theorem spans_append : spans start (left ++ c :: right) stop =
    spans start left (some c) ++ spans c right stop := by
  induction left generalizing start with
  | nil => rfl
  | cons l left ih => simp only [List.cons_append, spans, ih]

omit [LinearOrder K] in
theorem spans_stop (start : K) (cuts : List K) :
    ∃ front last, ∀ stop, spans start cuts stop = front ++ [(last, stop)] := by
  induction cuts generalizing start with
  | nil => exact ⟨[], start, fun _ => rfl⟩
  | cons c cuts ih =>
    obtain ⟨front, last, eq⟩ := ih c
    exact ⟨(start, some c) :: front, last, fun stop => by rw [spans, eq, List.cons_append]⟩

omit [LinearOrder K] in
/-- More cuts within one span leave the spans on both sides as they are. -/
theorem spans_refine {a : K} {b : Option K} (at_i : (spans start cuts stop)[i]? = some (a, b))
    (keys : List K) :
    spans start (cuts.take i ++ keys ++ cuts.drop i) stop =
      (spans start cuts stop).take i ++ spans a keys b ++ (spans start cuts stop).drop (i + 1) := by
  induction cuts generalizing start i with
  | nil =>
    cases i with
    | zero =>
      cases at_i
      simp [spans]
    | succ i => simp [spans] at at_i
  | cons c cuts ih =>
    cases i with
    | zero =>
      cases at_i
      simp [spans, spans_append]
    | succ i =>
      have rest := ih at_i
      simp only [List.take_succ_cons, List.drop_succ_cons, List.cons_append, spans, rest]

theorem ascending_refine {a : K} {b : Option K} (ascending : Ascending (start :: cuts))
    (at_i : (spans start cuts stop)[i]? = some (a, b)) {keys : List K}
    (inner : Ascending (a :: keys)) (inside : ∀ key ∈ keys, ∀ e, b = some e → key < e) :
    Ascending (start :: (cuts.take i ++ keys ++ cuts.drop i)) := by
  induction cuts generalizing start i with
  | nil =>
    cases i with
    | zero =>
      cases at_i
      simpa using inner
    | succ i => simp [spans] at at_i
  | cons c cuts ih =>
    have first : start < c := List.rel_of_pairwise_cons ascending List.mem_cons_self
    cases i with
    | zero =>
      obtain ⟨rfl, rfl⟩ : start = a ∧ some c = b := Prod.mk.inj (Option.some.inj at_i)
      have below : ∀ key ∈ start :: keys, key < c := by
        intro key mem
        rcases List.mem_cons.mp mem with rfl | mem
        · exact first
        · exact inside key mem c rfl
      have joined : Ascending ((start :: keys) ++ c :: cuts) := by
        refine List.pairwise_append.mpr ⟨inner, ascending.of_cons, ?_⟩
        intro key mem d later
        rcases List.mem_cons.mp later with rfl | later
        · exact below key mem
        · exact (below key mem).trans (List.rel_of_pairwise_cons ascending.of_cons later)
      simpa using joined
    | succ i =>
      have rest := ih ascending.of_cons at_i
      refine List.pairwise_cons.mpr ⟨?_, rest⟩
      intro d mem
      rcases List.mem_cons.mp mem with rfl | mem
      · exact first
      · exact first.trans (List.rel_of_pairwise_cons rest mem)

theorem cell_eq_zero (above : ∀ c ∈ cuts, k < c) : cell cuts k = 0 := by
  rw [cell, List.countP_eq_zero]
  intro c mem
  simpa using above c mem

theorem cell_cons_of_le (le : c ≤ k) : cell (c :: cuts) k = cell cuts k + 1 := by
  rw [cell, List.countP_cons_of_pos (by simpa using le), cell]

theorem cell_cons_of_lt (ascending : Ascending (c :: cuts)) (lt : k < c) :
    cell (c :: cuts) k = 0 := by
  apply cell_eq_zero
  intro d mem
  rcases List.mem_cons.mp mem with rfl | later
  · exact lt
  · exact lt.trans (List.rel_of_pairwise_cons ascending later)

theorem cell_append (below : ∀ c ∈ left, c ≤ k) :
    cell (left ++ right) k = left.length + cell right k := by
  rw [cell, List.countP_append, List.countP_eq_length.mpr (by simpa using below), cell]

theorem le_of_mem_spans {span : K × Option K} (ascending : Ascending (start :: cuts))
    (mem : span ∈ spans start cuts stop) : start ≤ span.1 := by
  induction cuts generalizing start with
  | nil =>
    cases List.mem_singleton.mp mem
    exact le_rfl
  | cons c cuts ih =>
    rcases List.mem_cons.mp mem with rfl | later
    · exact le_rfl
    · have first : start < c := List.rel_of_pairwise_cons ascending List.mem_cons_self
      exact first.le.trans (ih ascending.of_cons later)

theorem within_cell (ascending : Ascending cuts) (ge : start ≤ k)
    (lt : ∀ e, stop = some e → k < e) :
    ∃ span, (spans start cuts stop)[cell cuts k]? = some span ∧ Within span k := by
  induction cuts generalizing start with
  | nil => exact ⟨(start, stop), rfl, ge, lt⟩
  | cons c cuts ih =>
    rcases lt_or_ge k c with before | after
    · refine ⟨(start, some c), ?_, ge, ?_⟩
      · rw [cell_cons_of_lt ascending before]
        rfl
      · rintro e ⟨⟩
        exact before
    · rw [cell_cons_of_le after]
      exact ih ascending.of_cons after

theorem eq_cell_of_within {span : K × Option K} (ascending : Ascending cuts)
    (at_i : (spans start cuts stop)[i]? = some span) (within : Within span k) :
    i = cell cuts k := by
  induction cuts generalizing start i with
  | nil =>
    cases i with
    | zero => rfl
    | succ i => simp [spans] at at_i
  | cons c cuts ih =>
    cases i with
    | zero =>
      cases at_i
      rw [cell_cons_of_lt ascending (within.2 c rfl)]
    | succ i =>
      have begins := le_of_mem_spans ascending (List.mem_of_getElem? at_i)
      rw [cell_cons_of_le (begins.trans within.1), ← ih ascending.of_cons at_i]

end TxService.OrderedCuts
