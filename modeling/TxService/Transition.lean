import Mathlib.Order.Monotone.Basic
import Mathlib.Order.WellFounded

/-!
# Runs of a labelled transition system

The two inductions every safety argument of this development uses: an
invariant of each step holds in every reachable state, and a fact that only
certain actions can end survives a run without such an action.
-/

namespace TxService.Transition

section
universe u v
variable {σ : Type u} {α : Type v}

/-- A finite run, labelled by the actions it took in order. -/
inductive Run (step : σ → α → σ → Prop) : σ → List α → σ → Prop
  | nil (s : σ) : Run step s [] s
  | cons {s t u : σ} {a : α} {as : List α} : step s a t → Run step t as u → Run step s (a :: as) u

inductive Reachable (init : σ → Prop) (step : σ → α → σ → Prop) : σ → Prop
  | start {s : σ} : init s → Reachable init step s
  | next {s t : σ} {a : α} : Reachable init step s → step s a t → Reachable init step t

variable {step : σ → α → σ → Prop} {init : σ → Prop}

theorem Reachable.invariant {P : σ → Prop} {s : σ} (h : Reachable init step s)
    (start : ∀ s, init s → P s) (next : ∀ s a t, step s a t → P s → P t) : P s := by
  induction h with
  | start hi => exact start _ hi
  | next _ hs ih => exact next _ _ _ hs ih

variable {as : List α} {s t : σ}

theorem Reachable.run (h : Reachable init step s) (r : Run step s as t) :
    Reachable init step t := by
  induction r with
  | nil => exact h
  | cons hs _ ih => exact ih (h.next hs)

/-- A fact about a state and the actions that led to it. -/
theorem Run.history {P : List α → σ → Prop} (r : Run step s as t) (start : P [] s)
    (next : ∀ as s a t, step s a t → P as s → P (as ++ [a]) t) : P as t := by
  suffices onward : ∀ past, P past s → P (past ++ as) t by simpa using onward [] start
  clear start
  induction r with
  | nil => simp
  | @cons s _ _ a as hs _ ih =>
    intro past here
    simpa using ih (past ++ [a]) (next past s a _ hs here)

theorem Run.of_foldlM (next : σ → α → Option σ) (steps : ∀ s a t, next s a = some t → step s a t)
    (h : as.foldlM next s = some t) : Run step s as t := by
  induction as generalizing s with
  | nil =>
    cases h
    exact .nil _
  | cons a as ih =>
    obtain ⟨u, first, rest⟩ := Option.bind_eq_some_iff.mp h
    exact .cons (steps s a u first) (ih rest)

/-- A fact that every step keeps, unless the step is an ending one, holds at the
end of a run, or the run took an ending step from a state where it still held. -/
theorem Run.keeps_until {P : σ → Prop} {ends : σ → α → Prop} {s t : σ} {as : List α}
    (r : Run step s as t) (keep : ∀ s a t, step s a t → P s → P t ∨ ends s a) (hs : P s) :
    P t ∨ ∃ before a after u, as = before ++ a :: after ∧ Run step s before u ∧ P u ∧ ends u a := by
  induction r with
  | nil => exact Or.inl hs
  | @cons s _ _ a as hstep _ ih =>
    rcases keep _ _ _ hstep hs with ht | he
    · rcases ih ht with hu | ⟨before, b, after, u, rfl, run, hu, he⟩
      · exact Or.inl hu
      · exact Or.inr ⟨a :: before, b, after, u, rfl, .cons hstep run, hu, he⟩
    · exact Or.inr ⟨[], a, as, s, rfl, .nil s, hs, he⟩

end

end TxService.Transition
