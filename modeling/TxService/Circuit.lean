import Mathlib.Data.List.Chain
import Mathlib.Logic.Relation

/-!
# Circuits of a directed graph

A circuit is a list of edges that lead from one to the next and back to the first; an order in
which every edge stands before its successors rules circuits out.
-/

namespace TxService.Circuit

open Relation

universe u v
variable {E : Type u} {V : Type v} (src dst : E → V)

/-- Each edge starts where the one before it ends, and the first where the last ends. -/
def IsCircuit (edges : List E) : Prop :=
  ∃ e rest, edges = e :: rest ∧ (e :: rest ++ [e]).IsChain fun a b => dst a = src b

/-- Some edge of the graph leads from one vertex to the other. -/
def Leads (G : E → Prop) (a b : V) : Prop := ∃ e, G e ∧ src e = a ∧ dst e = b

variable {src dst} {G : E → Prop}

theorem leads_reverse {a b : V} (h : TransGen (Leads dst src G) a b) :
    TransGen (Leads src dst G) b a := by
  induction h with
  | single step =>
    obtain ⟨e, he, rfl, rfl⟩ := step
    exact .single ⟨e, he, rfl, rfl⟩
  | tail _ step ih =>
    obtain ⟨e, he, rfl, rfl⟩ := step
    exact .head ⟨e, he, rfl, rfl⟩ ih

theorem walk_leads {e z : E} {xs : List E} (inside : ∀ x ∈ xs, G x)
    (walk : (e :: xs ++ [z]).IsChain fun a b => dst a = src b) :
    ReflTransGen (Leads src dst G) (dst e) (src z) := by
  induction xs generalizing e with
  | nil =>
    rw [(List.isChain_cons_cons.mp walk).1]
  | cons x xs ih =>
    obtain ⟨link, walk⟩ := List.isChain_cons_cons.mp walk
    have rest := ih (fun y hy => inside y (List.mem_cons_of_mem _ hy)) walk
    exact .head ⟨x, inside x List.mem_cons_self, link.symm, rfl⟩ rest

variable {edges : List E} {e : E}

section
variable (h : IsCircuit src dst edges) (inside : ∀ x ∈ edges, G x) (he : e ∈ edges)
include h inside he

/-- From the end of any edge of a circuit the circuit leads back to its start. -/
theorem IsCircuit.returns :
    ReflTransGen (Leads src dst G) (dst e) (src e) := by
  obtain ⟨first, rest, rfl, walk⟩ := h
  obtain ⟨before, after, split⟩ := List.append_of_mem he
  rw [split, List.append_assoc] at walk
  have onward : ReflTransGen (Leads src dst G) (dst e) (src first) := by
    apply walk_leads _ walk.right_of_append
    intro x hx
    exact inside x (by simp [split, hx])
  cases before with
  | nil =>
    obtain ⟨rfl, _⟩ := List.cons.inj split
    exact onward
  | cons b before =>
    obtain ⟨rfl, _⟩ := List.cons.inj split
    have around : ((first :: before ++ [e]) ++ (after ++ [first])).IsChain
        fun a b => dst a = src b := by simpa using walk
    have back := walk_leads (G := G) (fun x hx => inside x (by simp [split, hx]))
      around.left_of_append
    exact onward.trans (.head ⟨first, inside first (by simp), rfl, rfl⟩ back)

theorem IsCircuit.src_cyclic :
    TransGen (Leads src dst G) (src e) (src e) :=
  .head' ⟨e, inside e he, rfl, rfl⟩ (h.returns inside he)

theorem IsCircuit.dst_cyclic :
    TransGen (Leads src dst G) (dst e) (dst e) :=
  .tail' (h.returns inside he) ⟨e, inside e he, rfl, rfl⟩

end

theorem IsCircuit.successor (h : IsCircuit src dst edges) (he : e ∈ edges) :
    ∃ f ∈ edges, dst e = src f := by
  obtain ⟨first, rest, rfl, walk⟩ := h
  obtain ⟨before, after, split⟩ := List.append_of_mem he
  rw [split, List.append_assoc] at walk
  have onward := walk.right_of_append
  cases after with
  | nil => exact ⟨first, List.mem_cons_self, (List.isChain_cons_cons.mp onward).1⟩
  | cons f after => exact ⟨f, by simp [split], (List.isChain_cons_cons.mp onward).1⟩

/-- Edges listed so that all successors of one come after it. -/
inductive Finished (src dst : E → V) (G : E → Prop) : List E → Prop
  | nil : Finished src dst G []
  | cons {e : E} {rest : List E} : (∀ f, G f → src f = dst e → f ∈ rest) →
      Finished src dst G rest → Finished src dst G (e :: rest)

end TxService.Circuit
