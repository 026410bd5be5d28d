import TxService.Transition
import TxService.WaitGraph

/-!
# The deadlock search

`DetectDeadLock` of `dead_lock_check.cpp`. The two nested loops are one machine: between the rounds
it is at an edge of the outer loop, in a round it also has the state of the inner one.
-/

namespace TxService

open Transition (Reachable)

/-- The variables of the inner loop; the stack has its top first. -/
structure Traverse where
  vctIter : List (TxEdge × List TxEdge)
  setDup : Finset TxEdge
  txId : Nat
  iter : List TxEdge

namespace Traverse

/-- The edges of the stack's iterators. -/
def stack (t : Traverse) : List TxEdge := t.vctIter.map Prod.fst

/-- The iterator, while it is at an edge of the layer. -/
def here (t : Traverse) : Option (TxEdge × List TxEdge) :=
  match t.iter with
  | [] => none
  | e :: next => if e.txWait = t.txId then some (e, next) else none

end Traverse

structure Detection where
  /-- The values of the map: the round that visited the edge. -/
  second : TxEdge → Int
  iround : Int
  vctVEdge : List (List TxEdge)
  itEdge : List TxEdge
  traverse : Option Traverse

/-- `map_edge.lower_bound(TxEdge(tx_id, 0))`. -/
def WaitGraph.lowerBound (g : WaitGraph) (txId : Nat) : List TxEdge :=
  g.edges.dropWhile fun e => decide (EdgeLess e ⟨txId, 0⟩)

namespace Detection

def initial (g : WaitGraph) : Detection := ⟨fun _ => -1, 1, [], g.edges, none⟩

def startRound (g : WaitGraph) (s : Detection) (e : TxEdge) (next : List TxEdge) : Detection :=
  { s with
    second := Function.update s.second e s.iround
    traverse := some ⟨[(e, next)], {e}, e.txLock, g.lowerBound e.txLock⟩ }

def endRound (s : Detection) : Detection :=
  { s with iround := s.iround + 1, itEdge := s.itEdge.tail, traverse := none }

/-- The layer is done: pop its edge and go on after the edge below it. -/
def goUp (s : Detection) (t : Traverse) : Detection :=
  match t.vctIter.tail with
  | (u, next) :: b :: below =>
    { s with traverse := some ⟨(u, next) :: b :: below, t.setDup.erase u, u.txWait, next⟩ }
  | _ => s.endRound

def moveNext (s : Detection) (t : Traverse) (next : List TxEdge) : Detection :=
  { s with traverse := some { t with iter := next } }

/-- The edges of the stack from its top down to the edge met. -/
def report (s : Detection) (t : Traverse) (e : TxEdge) (next : List TxEdge) : Detection :=
  { s with
    vctVEdge := s.vctVEdge ++ [e :: t.stack.takeWhile fun f => decide (f ≠ e)]
    traverse := some { t with iter := next } }

def goDeep (g : WaitGraph) (s : Detection) (t : Traverse) (e : TxEdge) (next : List TxEdge) :
    Detection :=
  { s with
    second := Function.update s.second e s.iround
    traverse := some
      ⟨(e, next) :: t.vctIter, insert e t.setDup, e.txLock, g.lowerBound e.txLock⟩ }

def stepTraverse (g : WaitGraph) (s : Detection) (t : Traverse) : Detection :=
  match t.here with
  | none => s.goUp t
  | some (e, next) =>
    if s.second e = s.iround then
      if e ∈ t.setDup then s.report t e next else s.moveNext t next
    else if 0 < s.second e then s.moveNext t next
    else s.goDeep g t e next

/-- One turn of a loop; none when the outer loop is at its end. -/
def step (g : WaitGraph) (s : Detection) : Option Detection :=
  match s.traverse with
  | some t => some (s.stepTraverse g t)
  | none =>
    match s.itEdge with
    | [] => none
    | e :: next =>
      some (if 0 < s.second e then { s with itEdge := next } else s.startRound g e next)

def run (g : WaitGraph) : Nat → Detection → Detection
  | 0, s => s
  | n + 1, s =>
    match s.step g with
    | none => s
    | some s' => run g n s'

end Detection

/-- How many turns a graph can take, see `detect_returns`. -/
def WaitGraph.turns (g : WaitGraph) : Nat := (g.edges.length + 1) * (2 * (g.edges.length + 1))

def detectDeadLock (g : WaitGraph) : List (List TxEdge) :=
  (Detection.run g g.turns (.initial g)).vctVEdge

section
variable (txidEtyCountMap : Nat → Option Nat)

end

end TxService
