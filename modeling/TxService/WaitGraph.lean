import Mathlib.Data.Finset.Basic
import TxService.Circuit

/-!
# The wait-for graph

`GenerateTxWaitGraph` of `dead_lock_check.cpp`. A `std::map` is the list of its keys in the order of
`EdgeLess`.
-/

namespace TxService

open Relation

structure TxEdge where
  txWait : Nat
  txLock : Nat
  deriving DecidableEq, Repr

def EdgeLess (lhs rhs : TxEdge) : Prop :=
  if lhs.txWait = rhs.txWait then lhs.txLock < rhs.txLock else lhs.txWait < rhs.txWait

instance (lhs rhs : TxEdge) : Decidable (EdgeLess lhs rhs) := by
  unfold EdgeLess
  infer_instance

namespace EdgeLess

variable {e f g : TxEdge}

theorem trans (ef : EdgeLess e f) (fg : EdgeLess f g) : EdgeLess e g := by
  unfold EdgeLess at *
  split at ef <;> split at fg <;> split <;> omega

theorem of_not (h : ¬ EdgeLess e f) (ne : e ≠ f) : EdgeLess f e := by
  cases e; cases f
  simp only [EdgeLess, ne_eq, TxEdge.mk.injEq] at *
  split at h <;> split <;> omega

theorem wait_le (h : EdgeLess e f) : e.txWait ≤ f.txWait := by
  unfold EdgeLess at h
  split at h <;> omega

end EdgeLess

/-- The key of `map::emplace` goes in its place unless it is there. -/
def emplaceEdge (e : TxEdge) : List TxEdge → List TxEdge
  | [] => [e]
  | f :: rest =>
    if EdgeLess e f then e :: f :: rest
    else if e = f then f :: rest
    else f :: emplaceEdge e rest

theorem mem_emplaceEdge {e f : TxEdge} {edges : List TxEdge} :
    f ∈ emplaceEdge e edges ↔ f = e ∨ f ∈ edges := by
  induction edges with
  | nil => simp [emplaceEdge]
  | cons g edges ih =>
    simp only [emplaceEdge]
    split
    · simp
    · split
      · rename_i _ same
        simp [same]
      · simp only [List.mem_cons, ih]
        tauto

theorem emplaceEdge_sorted {e : TxEdge} {edges : List TxEdge} (h : edges.Pairwise EdgeLess) :
    (emplaceEdge e edges).Pairwise EdgeLess := by
  induction edges with
  | nil => exact List.pairwise_singleton _ _
  | cons g edges ih =>
    obtain ⟨least, rest⟩ := List.pairwise_cons.mp h
    simp only [emplaceEdge]
    split
    · rename_i less
      apply List.pairwise_cons.mpr ⟨_, h⟩
      intro f hf
      cases hf with
      | head => exact less
      | tail _ hf => exact less.trans (least f hf)
    · rename_i notLess
      split
      · exact h
      · rename_i ne
        apply List.pairwise_cons.mpr ⟨_, ih rest⟩
        intro f hf
        cases mem_emplaceEdge.mp hf with
        | inl same => exact same ▸ EdgeLess.of_not notLess ne
        | inr hf => exact least f hf

/-- The keys of the map; no transaction waits for itself. -/
structure WaitGraph where
  edges : List TxEdge
  sorted : edges.Pairwise EdgeLess
  noLoop : ∀ e ∈ edges, e.txWait ≠ e.txLock

namespace WaitGraph

def empty : WaitGraph := ⟨[], .nil, nofun⟩

def emplace (g : WaitGraph) (txWait txLock : Nat) (ne : txWait ≠ txLock) : WaitGraph where
  edges := emplaceEdge ⟨txWait, txLock⟩ g.edges
  sorted := emplaceEdge_sorted g.sorted
  noLoop := by
    intro e he
    cases mem_emplaceEdge.mp he with
    | inl same => exact same ▸ ne
    | inr he => exact g.noLoop e he

/-- The edge for a transaction that waits for an entry and one that locks it. -/
def emplaceHolder (txWait : Nat) (g : WaitGraph) (txLock : Nat) : WaitGraph :=
  if same : txWait = txLock then g else g.emplace txWait txLock same

variable (g : WaitGraph)

def Waits : Nat → Nat → Prop := Circuit.Leads TxEdge.txWait TxEdge.txLock (· ∈ g.edges)

/-- The transaction waits, through others, for itself. -/
def Deadlocked (tx : Nat) : Prop := TransGen g.Waits tx tx

/-- The edges are a directed cycle, listed along the waits or against them. -/
def IsCycle (edges : List TxEdge) : Prop :=
  (∀ e ∈ edges, e ∈ g.edges) ∧
    (Circuit.IsCircuit TxEdge.txWait TxEdge.txLock edges ∨
      Circuit.IsCircuit TxEdge.txLock TxEdge.txWait edges)

variable {g}

theorem IsCycle.deadlocked {edges : List TxEdge} (h : g.IsCycle edges) {e : TxEdge}
    (he : e ∈ edges) : g.Deadlocked e.txWait := by
  obtain ⟨inside, along | against⟩ := h
  · exact along.src_cyclic inside he
  · exact Circuit.leads_reverse (against.dst_cyclic inside he)

end WaitGraph

/-- What `GatherLockDependancy` collects: the entries each transaction waits for, and
the transactions that hold a lock on an entry. -/
structure LockDependancy (Ety : Type) where
  txidWaitedEntryMap : List (Nat × List Ety)
  entryLockedTxidMap : Ety → Option (List Nat)

namespace LockDependancy

variable {Ety : Type} (d : LockDependancy Ety)

def emplaceEntry (txWait : Nat) (g : WaitGraph) (ety : Ety) : WaitGraph :=
  match d.entryLockedTxidMap ety with
  | none => g
  | some txHoldingLocks => txHoldingLocks.foldl (WaitGraph.emplaceHolder txWait) g

def generateTxWaitGraph : WaitGraph :=
  d.txidWaitedEntryMap.foldl (fun g waiting => waiting.2.foldl (d.emplaceEntry waiting.1) g) .empty

end LockDependancy

end TxService
