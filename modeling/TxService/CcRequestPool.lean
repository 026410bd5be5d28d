import Mathlib.Data.List.Nodup
import TxService.Transition

/-!
# The pool of cc requests

`CcRequestPool` of `cc_req_pool.h`. One thread takes requests from it while others free theirs.
-/

namespace TxService

open Transition

/-- Which requests are in use, the turns of the running `NextRequest`, and the requests that it has
returned and that are not freed. -/
structure CcRequestPool where
  pool : List Bool
  head : Nat
  maxSize : Nat
  count : Nat
  out : List Nat

namespace CcRequestPool

/-- A turn of the loop of `NextRequest`, or what follows it when the loop has gone round. -/
def turn (p : CcRequestPool) : CcRequestPool :=
  let next := if p.head + 1 = p.pool.length then 0 else p.head + 1
  if p.count < p.pool.length then
    if p.pool[p.head]? = some false then
      { p with pool := p.pool.set p.head true, head := next, count := 0, out := p.head :: p.out }
    else { p with head := next, count := p.count + 1 }
  else if p.count = p.maxSize then { p with count := 0 }
  else
    { p with
      pool := p.pool ++ true :: List.replicate (p.pool.length * 3 / 2 - p.pool.length - 1) false
      head := p.pool.length + 1
      count := 0
      out := p.pool.length :: p.out }

inductive Action
  | turn
  | free (i : Nat)

def exec (p : CcRequestPool) : Action → CcRequestPool
  | .turn => p.turn
  | .free i => { p with pool := p.pool.set i false, out := p.out.erase i }

def Reached : CcRequestPool → Prop :=
  Reachable (fun p => p.pool = List.replicate 8 false ∧ p.head = 0 ∧ p.count = 0 ∧ p.out = [])
    fun p a p' => (∀ i, a = .free i → i ∈ p.out) ∧ p' = p.exec a

structure Sound (p : CcRequestPool) : Prop where
  head : p.head < p.pool.length
  large : 8 ≤ p.pool.length
  distinct : p.out.Nodup
  inUse : ∀ i, p.pool[i]? = some true ↔ i ∈ p.out

variable {p : CcRequestPool}

theorem Sound.turn (h : Sound p) : Sound p.turn := by
  obtain ⟨head, large, distinct, inUse⟩ := h
  have next : (if p.head + 1 = p.pool.length then 0 else p.head + 1) < p.pool.length := by
    split <;> omega
  unfold CcRequestPool.turn
  dsimp only
  split
  · split
    · rename_i free
      have new : p.head ∉ p.out := by simp [← inUse, free]
      refine ⟨by simpa using next, by simpa using large, distinct.cons new, ?_⟩
      intro i
      rw [List.getElem?_set, List.mem_cons, ← inUse]
      grind
    · exact ⟨next, large, distinct, inUse⟩
  split
  · exact ⟨head, large, distinct, inUse⟩
  · have new : p.pool.length ∉ p.out := by simp [← inUse]
    refine ⟨?_, ?_, distinct.cons new, ?_⟩
    · simp only [List.length_append, List.length_cons, List.length_replicate]
      omega
    · simp only [List.length_append]
      omega
    · intro i
      rw [List.mem_cons, ← inUse]
      grind

theorem Sound.free (h : Sound p) (i : Nat) : Sound (p.exec (.free i)) := by
  refine ⟨by simpa [exec] using h.head, by simpa [exec] using h.large, h.distinct.erase i, ?_⟩
  intro j
  have inUse := h.inUse j
  simp only [exec, List.getElem?_set, h.distinct.mem_erase_iff]
  grind

/-- No request is handed out while it is in use: the requests that were returned and are not free are
distinct and are those in use, and `head_` stays within the pool. -/
theorem handed_out_distinct (h : Reached p) :
    p.out.Nodup ∧ (∀ i, p.pool[i]? = some true ↔ i ∈ p.out) ∧ p.head < p.pool.length := by
  have sound : Sound p := by
    refine Reachable.invariant h ?_ ?_
    · rintro p ⟨pool, head, -, out⟩
      refine ⟨by simp [pool, head], by simp [pool], by simp [out], ?_⟩
      intro i
      rw [pool, out, List.getElem?_replicate]
      grind
    · rintro p a _ ⟨-, rfl⟩ sound
      cases a with
      | turn => exact sound.turn
      | free i => exact sound.free i
  exact ⟨sound.distinct, sound.inUse, sound.head⟩

def fresh : CcRequestPool := ⟨List.replicate 8 false, 0, 100, 0, []⟩

theorem handed_out_distinct_two :
    fresh.turn.turn.out = [1, 0] ∧ fresh.turn.turn.out.Nodup := by
  have start : Reached fresh := .start ⟨rfl, rfl, rfl, rfl⟩
  have next {p : CcRequestPool} (h : Reached p) : Reached p.turn := by
    refine Reachable.next h (a := .turn) ⟨?_, rfl⟩
    rintro _ ⟨⟩
  exact ⟨rfl, (handed_out_distinct (next (next start))).1⟩

end CcRequestPool

end TxService
