import Mathlib.Logic.Function.Basic
import TxService.Protocol

/-!
# The read set of a table

An entry counts how often its cc entry was read. A read that finds another version than an
earlier one is refused, and a read that is given up takes its count back.
-/

namespace TxService

universe u

structure ReadSetEntry where
  versionTs : Nat
  readCnt : UInt16 := 1

/-- How many reads have to be given up until the entry is gone: the counter wraps. -/
def ReadSetEntry.reads (e : ReadSetEntry) : Nat := (e.readCnt - 1).toNat + 1

/-- `rset_` of one table, by the addresses of the cc entries. -/
abbrev ReadSet (A : Type u) := A → Option ReadSetEntry

namespace ReadSet

variable {A : Type u}

def reads (rset : ReadSet A) (a : A) : Nat := (rset a).elim 0 ReadSetEntry.reads

variable {a : A}

theorem reads_eq_zero {rset : ReadSet A} : rset.reads a = 0 ↔ rset a = none := by
  unfold reads
  cases rset a with
  | none => simp
  | some e => simp [ReadSetEntry.reads]

variable [DecidableEq A]

/-- A timestamp of 0 is of a gap or an unknown record. Without a result the read breaks
repeatable read. -/
def addRead (rset : ReadSet A) (cceAddr : A) (readTs : Nat) : Option (ReadSet A) :=
  match rset cceAddr with
  | none => some (Function.update rset cceAddr (some { versionTs := readTs }))
  | some e =>
    if e.versionTs < readTs ∧ e.versionTs ≠ 0 then none
    else
      some (Function.update rset cceAddr (some {
        versionTs := if 0 < readTs then readTs else e.versionTs
        readCnt := e.readCnt + 1 }))

theorem addRead_ne_none {rset rset' : ReadSet A} {cceAddr a : A} {readTs : Nat}
    (added : rset.addRead cceAddr readTs = some rset') (read : rset a ≠ none ∨ a = cceAddr) :
    rset' a ≠ none := by
  unfold addRead at added
  by_cases here : a = cceAddr
  · subst here
    split at added
    · cases added
      simp
    · split at added
      · cases added
      · cases added
        simp
  · have read := read.resolve_right here
    split at added
    · cases added
      rwa [Function.update_of_ne here]
    · split at added
      · cases added
      · cases added
        rwa [Function.update_of_ne here]

/-- The reads that are left of the entry; 0 also if there is no entry. -/
def removeReadEntry (rset : ReadSet A) (addr : A) : UInt16 × ReadSet A :=
  match rset addr with
  | none => (0, rset)
  | some e =>
    let readCnt := e.readCnt - 1
    (readCnt, Function.update rset addr (if readCnt = 0 then none else some { e with readCnt := readCnt }))

/-- A read that gives its lock up: the address goes to `drain_batch_` with the version when
no read of it is left. -/
def release (s : ReadSet A × List (A × Nat)) (x : A × Nat) : ReadSet A × List (A × Nat) :=
  let removed := s.1.removeReadEntry x.1
  (removed.2, if removed.1 = 0 then s.2 ++ [x] else s.2)

variable {e : ReadSetEntry}

theorem reads_one : e.readCnt - 1 = 0 ↔ e.reads = 1 := by
  rw [← UInt16.toNat_inj]
  exact (Nat.add_left_inj).symm

theorem reads_pred (more : e.readCnt - 1 ≠ 0) :
    ({ e with readCnt := e.readCnt - 1 } : ReadSetEntry).reads + 1 = e.reads := by
  unfold ReadSetEntry.reads
  generalize e.readCnt - 1 = left at more
  have small := left.toNat_lt
  rw [Ne, ← UInt16.toNat_inj] at more
  rw [UInt16.toNat_sub]
  simp only [UInt16.reduceToNat] at more ⊢
  omega

theorem release_reads (s : ReadSet A × List (A × Nat)) (x : A × Nat) (a : A) :
    (release s x).1.reads a = s.1.reads a - if x.1 = a then 1 else 0 := by
  unfold release removeReadEntry reads
  by_cases here : x.1 = a
  · subst here
    rw [if_pos rfl]
    cases found : s.1 x.1 with
    | none => simp [found]
    | some e =>
      simp only [Function.update_self, Option.elim_some]
      split
      · rename_i last
        rw [reads_one.mp last]
        rfl
      · rename_i more
        exact Nat.eq_sub_of_add_eq (reads_pred more)
  · rw [if_neg here]
    cases found : s.1 x.1 with
    | none => rfl
    | some e => simp [Function.update_of_ne (Ne.symm here)]

theorem release_version {s : ReadSet A × List (A × Nat)} {x : A × Nat}
    (found : (release s x).1 a = some e) : ∃ e₀, s.1 a = some e₀ ∧ e₀.versionTs = e.versionTs := by
  unfold release removeReadEntry at found
  cases read : s.1 x.1 with
  | none =>
    simp only [read] at found
    exact ⟨e, found, rfl⟩
  | some e₀ =>
    simp only [read] at found
    by_cases here : a = x.1
    · subst here
      rw [Function.update_self] at found
      split at found
      · cases found
      · cases found
        exact ⟨e₀, read, rfl⟩
    · rw [Function.update_of_ne here] at found
      exact ⟨e, found, rfl⟩

/-- An address is given up when no read of it is left. -/
theorem mem_release (s : ReadSet A × List (A × Nat)) (x : A × Nat) (a : A) :
    a ∈ (release s x).2.map (·.1) ↔ a ∈ s.2.map (·.1) ∨ x.1 = a ∧ s.1.reads a ≤ 1 := by
  have gone : (s.1.removeReadEntry x.1).1 = 0 ↔ s.1.reads x.1 ≤ 1 := by
    unfold removeReadEntry reads
    cases found : s.1 x.1 with
    | none => simp
    | some e =>
      simp only [Option.elim_some, reads_one]
      unfold ReadSetEntry.reads
      omega
  unfold release
  by_cases last : (s.1.removeReadEntry x.1).1 = 0
  · simp only [last, if_true, List.map_append, List.mem_append, List.map_cons, List.map_nil,
      List.mem_singleton]
    constructor
    · rintro (before | rfl)
      · exact Or.inl before
      · exact Or.inr ⟨rfl, gone.mp last⟩
    · rintro (before | ⟨rfl, -⟩)
      · exact Or.inl before
      · exact Or.inr rfl
  · simp only [last, if_false]
    constructor
    · exact Or.inl
    · rintro (before | ⟨rfl, few⟩)
      · exact before
      · exact absurd (gone.mpr few) last

theorem foldl_release_reads (xs : List (A × Nat)) (s : ReadSet A × List (A × Nat)) (a : A) :
    (xs.foldl release s).1.reads a = s.1.reads a - xs.countP (·.1 = a) := by
  induction xs generalizing s with
  | nil => rfl
  | cons x xs ih =>
    rw [List.foldl_cons, ih, release_reads, List.countP_cons]
    by_cases here : x.1 = a
    · simp only [here, if_true, decide_true]
      omega
    · simp [here]

theorem foldl_release_version {xs : List (A × Nat)} {s : ReadSet A × List (A × Nat)}
    (found : (xs.foldl release s).1 a = some e) :
    ∃ e₀, s.1 a = some e₀ ∧ e₀.versionTs = e.versionTs := by
  induction xs generalizing s with
  | nil => exact ⟨e, found, rfl⟩
  | cons x xs ih =>
    obtain ⟨e₁, between, same⟩ := ih found
    obtain ⟨e₀, before, same'⟩ := release_version between
    exact ⟨e₀, before, same'.trans same⟩

theorem mem_foldl_release (xs : List (A × Nat)) (s : ReadSet A × List (A × Nat)) (a : A) :
    a ∈ (xs.foldl release s).2.map (·.1) ↔
      a ∈ s.2.map (·.1) ∨ 0 < xs.countP (·.1 = a) ∧ s.1.reads a ≤ xs.countP (·.1 = a) := by
  induction xs generalizing s with
  | nil => simp
  | cons x xs ih =>
    rw [List.foldl_cons, ih, mem_release, release_reads, List.countP_cons, or_assoc]
    refine or_congr_right ?_
    by_cases here : x.1 = a
    · simp only [here, if_true, decide_true, true_and]
      omega
    · simp [here]

end ReadSet

end TxService
