import Mathlib.Algebra.BigOperators.Group.Finset.Basic
import Mathlib.Algebra.Order.Ring.Int
import Mathlib.Data.List.AList

/-!
# A finite table and what its records add up to

A key without a record stands for a default one, which weighs nothing; a total changes by what the
weight of a record changes.
-/

namespace TxService

universe u v w

theorem sum_update_add {ι : Type u} {R : Type v} {M : Type w} [Fintype ι] [DecidableEq ι]
    [AddCommMonoid M] (weight : R → M) (record : ι → R) (i : ι) (r : R) :
    ∑ j, weight (Function.update record i r j) + weight (record i) =
      ∑ j, weight (record j) + weight r := by
  have rest : ∑ j ∈ Finset.univ.erase i, weight (Function.update record i r j) =
      ∑ j ∈ Finset.univ.erase i, weight (record j) :=
    Finset.sum_congr rfl fun j hj => by rw [Function.update_of_ne (Finset.ne_of_mem_erase hj)]
  rw [← Finset.add_sum_erase Finset.univ _ (Finset.mem_univ i),
    ← Finset.add_sum_erase Finset.univ (fun j => weight (record j)) (Finset.mem_univ i),
    Function.update_self, rest]
  ac_rfl

structure FiniteTable (K : Type u) (R : Type v) where
  keys : Finset K
  record : K → R

namespace FiniteTable

variable {K : Type u} {R : Type v} [DecidableEq K]

def empty (default : R) : FiniteTable K R := ⟨∅, fun _ => default⟩

def find (t : FiniteTable K R) (default : R) (x : K) : R :=
  if x ∈ t.keys then t.record x else default

/-- Puts a record, or removes the one there is. -/
def set (t : FiniteTable K R) (x : K) : Option R → FiniteTable K R
  | some r => ⟨insert x t.keys, Function.update t.record x r⟩
  | none => ⟨t.keys.erase x, t.record⟩

/-- What the records add up to. -/
def total (t : FiniteTable K R) (weight : K → R → Int) : Int := ∑ x ∈ t.keys, weight x (t.record x)

variable {t : FiniteTable K R} {default : R} {x : K} {weight : K → R → Int}

theorem sum_erase_record : ∑ y ∈ t.keys.erase x, weight y (t.record y) =
    t.total weight - if x ∈ t.keys then weight x (t.record x) else 0 := by
  split
  · rename_i present
    have split := Finset.add_sum_erase t.keys (fun y => weight y (t.record y)) present
    simp only [total]
    omega
  · rename_i absent
    rw [Finset.erase_eq_of_notMem absent, total, Int.sub_zero]

theorem total_set (nothing : weight x default = 0) (r : Option R) :
    (t.set x r).total weight =
      t.total weight - weight x (t.find default x) + r.elim 0 (weight x) := by
  have found : weight x (t.find default x) = if x ∈ t.keys then weight x (t.record x) else 0 := by
    unfold find
    split
    · rfl
    · exact nothing
  rw [found, ← sum_erase_record]
  cases r with
  | none => exact (Int.add_zero _).symm
  | some r =>
    have others : ∑ y ∈ t.keys.erase x, weight y (Function.update t.record x r y) =
        ∑ y ∈ t.keys.erase x, weight y (t.record y) := by
      apply Finset.sum_congr rfl
      intro y hy
      rw [Function.update_of_ne (Finset.ne_of_mem_erase hy)]
    have keys : insert x t.keys = insert x (t.keys.erase x) := by
      ext y
      by_cases same : y = x <;> simp [same]
    simp only [total, set, keys, Option.elim_some]
    rw [Finset.sum_insert (Finset.notMem_erase x _), others, Function.update_self, Int.add_comm]

theorem find_of_forall {P : R → Prop} (h : ∀ y ∈ t.keys, P (t.record y)) (start : P default) :
    P (t.find default x) := by
  unfold find
  split
  · rename_i present
    exact h x present
  · exact start

theorem forall_set {P : R → Prop} (h : ∀ y ∈ t.keys, P (t.record y)) {r : Option R}
    (new : ∀ e, r = some e → P e) : ∀ y ∈ (t.set x r).keys, P ((t.set x r).record y) := by
  intro y hy
  cases r with
  | none => exact h y (Finset.mem_of_mem_erase hy)
  | some r =>
    by_cases same : y = x
    · subst same
      simpa [set] using new r rfl
    · have there : y ∈ t.keys := (Finset.mem_insert.mp hy).resolve_left same
      simpa [set, Function.update_of_ne same] using h y there

end FiniteTable

end TxService
