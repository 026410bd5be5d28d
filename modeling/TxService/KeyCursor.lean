import Mathlib.Data.List.Sort
import Mathlib.Data.List.TakeWhile
import Mathlib.Order.Lattice

/-!
# A cursor into a sorted list

The list may change between two visits, as long as it stays sorted; what lies before a cursor stays
before it.
-/

namespace TxService.KeyCursor

universe u v w

section
variable {K : Type u} {α : Type v} [LinearOrder K] (key : α → K)

/-- No two elements have the same key. -/
def Sorted (l : List α) : Prop := l.Pairwise fun x y => key x < key y

/-- The elements before the cursor; without a key it is at the start. -/
def before (l : List α) : Option K → List α
  | none => []
  | some k => l.takeWhile fun x => decide (key x ≠ k)

/-- The elements from the cursor on. -/
def onward (l : List α) : Option K → List α
  | none => l
  | some k => l.dropWhile fun x => decide (key x ≠ k)

/-- A key that the cursor has left behind. -/
def Behind (k : K) (cursor : Option K) : Prop := ∃ p, cursor = some p ∧ k < p

/-- Where the cursor rests when this is left. -/
def restingOn (l : List α) : Option K := l.head?.map key

theorem before_append_onward (l : List α) (cursor : Option K) :
    before key l cursor ++ onward key l cursor = l := by
  cases cursor with
  | none => rfl
  | some k => exact List.takeWhile_append_dropWhile

variable {key} {l front mid rest : List α} {cursor : Option K} {x y : α}

theorem Sorted.unique (sorted : Sorted key l) (hx : x ∈ l) (hy : y ∈ l) (same : key x = key y) :
    x = y := by
  induction l with
  | nil => cases hx
  | cons z l ih =>
    obtain ⟨least, sorted⟩ := List.pairwise_cons.mp sorted
    cases hx with
    | head =>
      cases hy with
      | head => rfl
      | tail _ hy => exact absurd same (ne_of_lt (least y hy))
    | tail _ hx =>
      cases hy with
      | head => exact absurd same.symm (ne_of_lt (least x hx))
      | tail _ hy => exact ih sorted hx hy

theorem Sorted.front_lt (sorted : Sorted key (front ++ rest)) (hx : x ∈ front)
    (hy : y ∈ rest) : key x < key y :=
  (List.pairwise_append.mp sorted).2.2 x hx y hy

theorem Sorted.of_keys {l' : List α} (sorted : Sorted key l) (same : l'.map key = l.map key) :
    Sorted key l' := by
  have keys : (l'.map key).Pairwise (· < ·) := by
    rw [same, List.pairwise_map]
    exact sorted
  exact List.pairwise_map.mp keys

theorem split_at (sorted : Sorted key (front ++ x :: rest)) :
    before key (front ++ x :: rest) (some (key x)) = front ∧
      onward key (front ++ x :: rest) (some (key x)) = x :: rest := by
  have other : ∀ y ∈ front, decide (key y ≠ key x) = true := by
    intro y hy
    simpa using ne_of_lt (sorted.front_lt hy List.mem_cons_self)
  rw [before, onward, List.takeWhile_append_of_pos other, List.dropWhile_append_of_pos other]
  simp

theorem key_onward {k : K} (split : onward key l (some k) = x :: rest) : key x = k := by
  have head := List.head?_dropWhile_not (fun x => decide (key x ≠ k)) l
  rw [onward] at split
  rw [split] at head
  simpa using head

theorem behind_of_before (sorted : Sorted key l) (found : onward key l cursor ≠ [])
    (hx : x ∈ before key l cursor) : Behind (key x) cursor := by
  cases cursor with
  | none => cases hx
  | some k =>
    cases split : onward key l (some k) with
    | nil => exact absurd split found
    | cons y rest =>
      have apart : Sorted key (before key l (some k) ++ y :: rest) := by
        rwa [← split, before_append_onward]
      refine ⟨k, rfl, ?_⟩
      rw [← key_onward split]
      exact apart.front_lt hx List.mem_cons_self

/-- When the cursor has passed an element, the element was before it or has been gone by. -/
theorem gone_by (sorted : Sorted key l) (split : onward key l cursor = mid ++ rest) (hx : x ∈ l)
    (passed : rest = [] ∨ Behind (key x) (restingOn key rest)) :
    x ∈ before key l cursor ∨ x ∈ mid := by
  rw [← before_append_onward key l cursor, split] at hx
  rcases List.mem_append.mp hx with front | onward
  · exact Or.inl front
  · rcases List.mem_append.mp onward with gone | left
    · exact Or.inr gone
    · cases rest with
      | nil => cases left
      | cons y rest =>
        rcases passed with empty | ⟨p, resting, below⟩
        · cases empty
        · cases resting
          have later : Sorted key (y :: rest) := by
            rw [← before_append_onward key l cursor, split] at sorted
            exact (List.pairwise_append.mp (List.pairwise_append.mp sorted).2.1).2.1
          cases left with
          | head => exact absurd below (lt_irrefl _)
          | tail _ left =>
            exact absurd below (lt_asymm ((List.pairwise_cons.mp later).1 x left))

end

end TxService.KeyCursor
