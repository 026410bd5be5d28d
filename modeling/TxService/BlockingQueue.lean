import TxService.CircularQueue
import TxService.NonBlockingLock

/-!
# The lock over its circular queue

`blocking_queue_` is a `CircularQueue`. What the loops of the lock do to it by heads and indices is
what the lock does to the list of its waiters.
-/

namespace TxService.NonBlockingLock

open CircularQueue

instance : Inhabited LockQueueEntry := ⟨⟨⟨0, 0⟩, .noLock⟩⟩

/-- The loop of `TryPopBlockingQueue`, with the number of its turns. -/
def popCircular : Nat → NonBlockingLock → CircularQueue LockQueueEntry →
    NonBlockingLock × CircularQueue LockQueueEntry × List CcRequest
  | 0, l, q => (l, q, [])
  | turns + 1, l, q =>
    if 0 < q.cnt ∧ l.grantable q.peek then
      let r := popCircular turns (l.grant q.peek) q.dequeue
      (r.1, r.2.1, q.peek.req :: r.2.2)
    else (l, q, [])

/-- The loop of `AbortQueueRequest` from an index on, which stays where an entry was erased. -/
def abortCircular (txid : TxNumber) : Nat → Nat → CircularQueue LockQueueEntry →
    CircularQueue LockQueueEntry × List CcRequest
  | 0, _, q => (q, [])
  | turns + 1, i, q =>
    if i < q.cnt then
      if (q.get i).req.txn = txid then
        let r := abortCircular txid turns i (q.erase i)
        (r.1, (q.get i).req :: r.2)
      else abortCircular txid turns (i + 1) q
    else (q, [])

variable {q : CircularQueue LockQueueEntry}

theorem popCircular_refines {waiters : List LockQueueEntry} (h : Represents q waiters) {turns : Nat}
    (enough : waiters.length ≤ turns) (l : NonBlockingLock) :
    Represents (popCircular turns l q).2.1 (l.popLoop waiters).1.blockingQueue ∧
      l.popLoop waiters = ({ (popCircular turns l q).1 with
        blockingQueue := (l.popLoop waiters).1.blockingQueue }, (popCircular turns l q).2.2) := by
  induction waiters generalizing q turns l with
  | nil =>
    have empty : q.cnt = 0 := h.length.symm
    cases turns <;> simp [popCircular, popLoop, empty, h]
  | cons e rest ih =>
    cases turns with
    | zero => cases enough
    | succ turns =>
      have size : 0 < q.cnt := h.length ▸ Nat.succ_pos _
      simp only [popCircular, popLoop, size, true_and, h.peek]
      by_cases granted : l.grantable e = true
      · obtain ⟨represents, same⟩ := ih h.dequeue (Nat.le_of_succ_le_succ enough) (l.grant e)
        simp only [if_pos granted]
        refine ⟨represents, ?_⟩
        rw [same]
      · simpa only [if_neg granted, and_true] using h

theorem abortCircular_refines (txid : TxNumber) (passed : List LockQueueEntry)
    {rest : List LockQueueEntry} {turns : Nat} (h : Represents q (passed ++ rest)) (enough : rest.length ≤ turns) :
    Represents (abortCircular txid turns passed.length q).1
        (passed ++ rest.filter fun e => decide (e.req.txn ≠ txid)) ∧
      (abortCircular txid turns passed.length q).2 =
        (rest.filter fun e => decide (e.req.txn = txid)).map (·.req) := by
  induction rest generalizing q passed turns with
  | nil =>
    have done : ¬passed.length < q.cnt := by
      rw [← h.length]
      simp
    cases turns <;> simpa [abortCircular, done] using h
  | cons e rest ih =>
    cases turns with
    | zero => cases enough
    | succ turns =>
      have enough := Nat.le_of_succ_le_succ enough
      have inside : passed.length < (passed ++ e :: rest).length := by simp
      have here : q.get passed.length = e := by
        have := h.get inside
        simpa using this
      simp only [abortCircular, ← h.length, if_pos inside, here]
      by_cases aborted : e.req.txn = txid
      · have erased := h.erase inside
        rw [List.eraseIdx_append_of_length_le (Nat.le_refl _), Nat.sub_self, List.eraseIdx_cons_zero]
          at erased
        obtain ⟨represents, same⟩ := ih passed erased enough
        exact ⟨by simpa [aborted] using represents, by simp [aborted, same]⟩
      · obtain ⟨represents, same⟩ := ih (passed ++ [e]) (by simpa using h) enough
        rw [List.length_append, List.length_singleton] at represents same
        simpa [aborted, same] using represents

/-- Whatever was done to the circular queue before, waking and aborting waiters through it gives the
lock, the waiters that are left and the requests of the lock over the list. -/
theorem circular_lock_refines {capacity : Nat} (large : 2 ≤ capacity) {ops : List (Op LockQueueEntry)}
    {outs : List (Option LockQueueEntry)} (l : NonBlockingLock)
    (valid : listRun [] ops = some (l.blockingQueue, outs)) (txid : TxNumber) :
    let q := ((new capacity).run ops).1
    let popped := popCircular q.cnt l q
    let aborted := abortCircular txid q.cnt 0 q
    l.tryPopBlockingQueue = ({ popped.1 with blockingQueue := popped.2.1.items }, popped.2.2) ∧
      l.abortQueueRequest txid = ({ l with blockingQueue := aborted.1.items }, aborted.2) := by
  intro q popped aborted
  have h : Represents q l.blockingQueue := ((represents_new large).run valid).1
  obtain ⟨left, same⟩ := popCircular_refines h h.length.le l
  obtain ⟨kept, out⟩ : Represents aborted.1 (l.abortQueueRequest txid).1.blockingQueue ∧
      aborted.2 = (l.abortQueueRequest txid).2 :=
    abortCircular_refines txid [] h h.length.le
  rw [left.items, kept.items, out]
  exact ⟨same, rfl⟩

/-- Two of three waiters, in an array that wraps around, are of the aborted transaction. -/
theorem circular_lock_refines_wrapped :
    let l : NonBlockingLock := { reset with
      blockingQueue := [⟨⟨2, 0⟩, .readLock⟩, ⟨⟨1, 0⟩, .readLock⟩, ⟨⟨2, 1⟩, .writeLock⟩] }
    let ops := [.enqueue ⟨⟨9, 0⟩, .readLock⟩, .enqueue ⟨⟨2, 0⟩, .readLock⟩, .dequeue,
      .enqueue ⟨⟨1, 0⟩, .readLock⟩, .enqueue ⟨⟨2, 1⟩, .writeLock⟩]
    let q := ((new 3).run ops).1
    (abortCircular 2 q.cnt 0 q).2 = [⟨2, 0⟩, ⟨2, 1⟩] ∧
      (l.abortQueueRequest 2).1.blockingQueue = (abortCircular 2 q.cnt 0 q).1.items := by
  intro l ops q
  have valid : listRun [] ops = some (l.blockingQueue, List.replicate 5 none) := rfl
  have refined := circular_lock_refines (show 2 ≤ 3 by decide) l valid 2
  exact ⟨by decide, congrArg (·.1.blockingQueue) refined.2⟩

end TxService.NonBlockingLock
