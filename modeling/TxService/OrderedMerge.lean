import Mathlib.Data.List.Sort
import Mathlib.Data.List.TakeWhile
import Mathlib.Order.Lattice

/-!
# Merging ordered lists

Lists that are ordered by a key are merged by taking the least head each time, and an ordered
list is cut behind a bound.
-/

namespace TxService.OrderedMerge

universe u v

variable {K : Type u} {A : Type v} [LinearOrder K] (key : A → K)

/-- Equal keys may follow one another. -/
def Ordered (l : List A) : Prop := l.Pairwise fun x y => key x ≤ key y

/-- The least head of the lists, and what is left of them. -/
def popMin : List (List A) → Option (A × List (List A))
  | [] => none
  | [] :: vecs => (popMin vecs).map fun p => (p.1, [] :: p.2)
  | (a :: as) :: vecs =>
    match popMin vecs with
    | none => some (a, as :: vecs)
    | some (b, rest) => if key b < key a then some (b, (a :: as) :: rest) else some (a, as :: vecs)

def merge : Nat → List (List A) → List A
  | 0, _ => []
  | n + 1, vecs =>
    match popMin key vecs with
    | none => []
    | some (a, rest) => a :: merge n rest

variable {key} {vecs rest : List (List A)} {a : A} {l : List A}

theorem popMin_none (none_ : popMin key vecs = none) : vecs.flatten = [] := by
  induction vecs with
  | nil => rfl
  | cons vec vecs ih =>
    cases vec with
    | nil => simpa using ih (by simpa [popMin] using none_)
    | cons a as =>
      unfold popMin at none_
      split at none_
      · cases none_
      · split at none_ <;> cases none_

/-- The least head is that of the first list, or a smaller one of a later list. -/
theorem popMin_cons_cons {x : A} {xs : List A}
    (found : popMin key ((x :: xs) :: vecs) = some (a, rest)) :
    (a = x ∧ rest = xs :: vecs ∧
        (vecs.flatten = [] ∨ ∃ b r, popMin key vecs = some (b, r) ∧ key x ≤ key b)) ∨
      ∃ r, popMin key vecs = some (a, r) ∧ rest = (x :: xs) :: r ∧ key a < key x := by
  unfold popMin at found
  split at found
  · rename_i none_
    cases found
    exact .inl ⟨rfl, rfl, .inl (popMin_none none_)⟩
  · rename_i b r later
    split at found
    · rename_i smaller
      cases found
      exact .inr ⟨r, later, rfl, smaller⟩
    · rename_i larger
      cases found
      exact .inl ⟨rfl, rfl, .inr ⟨b, r, later, le_of_not_gt larger⟩⟩

theorem popMin_nil_cons (found : popMin key ([] :: vecs) = some (a, rest)) :
    ∃ r, popMin key vecs = some (a, r) ∧ rest = [] :: r := by
  obtain ⟨⟨b, r⟩, later, same⟩ := Option.map_eq_some_iff.mp found
  cases same
  exact ⟨r, later, rfl⟩

theorem popMin_perm (found : popMin key vecs = some (a, rest)) :
    vecs.flatten.Perm (a :: rest.flatten) := by
  induction vecs generalizing a rest with
  | nil => cases found
  | cons vec vecs ih =>
    cases vec with
    | nil =>
      obtain ⟨r, later, rfl⟩ := popMin_nil_cons found
      simpa using ih later
    | cons x xs =>
      obtain ⟨rfl, rfl, -⟩ | ⟨r, later, rfl, -⟩ := popMin_cons_cons found
      · simp
      · rw [List.flatten_cons, List.flatten_cons]
        exact ((ih later).append_left _).trans List.perm_middle

theorem popMin_least (ordered : ∀ vec ∈ vecs, Ordered key vec)
    (found : popMin key vecs = some (a, rest)) : ∀ b ∈ vecs.flatten, key a ≤ key b := by
  induction vecs generalizing a rest with
  | nil => cases found
  | cons vec vecs ih =>
    obtain ⟨first, others⟩ := List.forall_mem_cons.mp ordered
    cases vec with
    | nil =>
      obtain ⟨r, later, rfl⟩ := popMin_nil_cons found
      simpa using ih others later
    | cons x xs =>
      have least : ∀ b ∈ x :: xs, key x ≤ key b := by
        intro b mem
        obtain rfl | after := List.mem_cons.mp mem
        · exact le_refl _
        · exact (List.pairwise_cons.mp first).1 b after
      intro b mem
      rw [List.flatten_cons, List.mem_append] at mem
      obtain ⟨rfl, rfl, empty | ⟨c, r, later, le⟩⟩ | ⟨r, later, rfl, lt⟩ := popMin_cons_cons found
      · obtain here | there := mem
        · exact least b here
        · simp [empty] at there
      · obtain here | there := mem
        · exact least b here
        · exact le.trans (ih others later b there)
      · obtain here | there := mem
        · exact lt.le.trans (least b here)
        · exact ih others later b there

theorem popMin_ordered (ordered : ∀ vec ∈ vecs, Ordered key vec)
    (found : popMin key vecs = some (a, rest)) : ∀ vec ∈ rest, Ordered key vec := by
  induction vecs generalizing a rest with
  | nil => cases found
  | cons vec vecs ih =>
    obtain ⟨first, others⟩ := List.forall_mem_cons.mp ordered
    cases vec with
    | nil =>
      obtain ⟨r, later, rfl⟩ := popMin_nil_cons found
      exact List.forall_mem_cons.mpr ⟨first, ih others later⟩
    | cons x xs =>
      obtain ⟨rfl, rfl, -⟩ | ⟨r, later, rfl, -⟩ := popMin_cons_cons found
      · exact List.forall_mem_cons.mpr ⟨(List.pairwise_cons.mp first).2, others⟩
      · exact List.forall_mem_cons.mpr ⟨first, ih others later⟩

theorem merge_perm (n : Nat) (vecs : List (List A)) (enough : vecs.flatten.length = n) :
    (merge key n vecs).Perm vecs.flatten := by
  induction n generalizing vecs with
  | zero =>
    rw [List.eq_nil_of_length_eq_zero enough]
    exact List.Perm.refl _
  | succ n ih =>
    unfold merge
    cases found : popMin key vecs with
    | none => rw [popMin_none found]
    | some p =>
      obtain ⟨a, rest⟩ := p
      have taken := popMin_perm found
      have fewer : rest.flatten.length = n := by
        have := taken.length_eq
        rw [List.length_cons] at this
        omega
      exact ((ih rest fewer).cons a).trans taken.symm

theorem merge_ordered (n : Nat) (vecs : List (List A)) (enough : vecs.flatten.length = n)
    (ordered : ∀ vec ∈ vecs, Ordered key vec) : Ordered key (merge key n vecs) := by
  induction n generalizing vecs with
  | zero => exact List.Pairwise.nil
  | succ n ih =>
    unfold merge
    cases found : popMin key vecs with
    | none => exact List.Pairwise.nil
    | some p =>
      obtain ⟨a, rest⟩ := p
      have taken := popMin_perm found
      have fewer : rest.flatten.length = n := by
        have := taken.length_eq
        rw [List.length_cons] at this
        omega
      refine List.pairwise_cons.mpr ⟨fun b mem => ?_, ih rest fewer (popMin_ordered ordered found)⟩
      have there : b ∈ rest.flatten := (merge_perm n rest fewer).mem_iff.mp mem
      exact popMin_least ordered found b (taken.mem_iff.mpr (List.mem_cons_of_mem a there))

/-- Without a bound nothing is above it. -/
def notAbove (bound : Option K) (k : K) : Bool := bound.all fun m => decide (k ≤ m)

theorem ordered_cut (bound : Option K) (ordered : Ordered key l) :
    (∀ x ∈ l.takeWhile (notAbove bound ∘ key), notAbove bound (key x) = true) ∧
      ∀ x ∈ l.dropWhile (notAbove bound ∘ key), notAbove bound (key x) = false := by
  refine ⟨fun x mem => by simpa using List.mem_takeWhile_imp mem, ?_⟩
  induction l with
  | nil => simp
  | cons a l ih =>
    obtain ⟨least, later⟩ := List.pairwise_cons.mp ordered
    rw [List.dropWhile_cons]
    split
    · exact ih later
    · rename_i above
      intro x mem
      cases bound with
      | none => simp [notAbove] at above
      | some m =>
        have gt : m < key a := by simpa [notAbove] using above
        obtain rfl | after := List.mem_cons.mp mem
        · simpa [notAbove] using gt
        · simpa [notAbove] using gt.trans_le (least x after)

end TxService.OrderedMerge
