import Mathlib.Data.List.Rotate
import Mathlib.Data.Nat.ModEq

/-!
# The circular queue

`CircularQueue` of `circular_queue.h`: an array with a head and a count, which stands for the list
of its elements.
-/

namespace TxService

universe u

structure CircularQueue (T : Type u) where
  vec : List T
  head : Nat
  cnt : Nat
  capacity : Nat

namespace CircularQueue

variable {T : Type u} [Inhabited T]

/-- An array of default values. -/
def makeUnique (capacity : Nat) : List T := List.replicate capacity default

def new (capacity : Nat) : CircularQueue T := ⟨makeUnique capacity, 0, 0, capacity⟩

def reset (q : CircularQueue T) : CircularQueue T :=
  if 8 < q.capacity then ⟨makeUnique 8, 0, 0, 8⟩ else { q with head := 0, cnt := 0 }

/-- The elements from the head to the end of the array, then those before the head, in an array of
this capacity. -/
def copyTo (newCapacity : Nat) (q : CircularQueue T) : List T :=
  q.vec.drop q.head ++ q.vec.take q.head ++ makeUnique (newCapacity - q.capacity)

/-- The two overloads of `Enqueue`, which grow the array by different factors. -/
def enqueueWith (grow : Nat → Nat) (item : T) (q : CircularQueue T) : CircularQueue T :=
  if q.cnt = 0 then { q with vec := q.vec.set 0 item, head := 0, cnt := 1 }
  else if q.cnt = q.capacity then
    { vec := (q.copyTo (grow q.capacity)).set q.capacity item
      head := 0
      cnt := q.capacity + 1
      capacity := grow q.capacity }
  else { q with vec := q.vec.set ((q.head + q.cnt) % q.capacity) item, cnt := q.cnt + 1 }

def enqueue (item : T) : CircularQueue T → CircularQueue T := enqueueWith (· <<< 1) item

/-- `capacity_ * 1.5` is exact in a `double` for every capacity that an array can have. -/
def enqueueMove (item : T) : CircularQueue T → CircularQueue T := enqueueWith (· * 3 / 2) item

def enqueueAsFirst (item : T) (q : CircularQueue T) : CircularQueue T :=
  if q.cnt = 0 then { q with vec := q.vec.set 0 item, head := 0, cnt := 1 }
  else if q.cnt = q.capacity then
    let newCapacity := q.capacity * 3 / 2
    { vec := (q.copyTo newCapacity).set (newCapacity - 1) item
      head := newCapacity - 1
      cnt := q.capacity + 1
      capacity := newCapacity }
  else if q.head ≠ 0 then
    { q with vec := q.vec.set (q.head - 1) item, head := q.head - 1, cnt := q.cnt + 1 }
  else
    { q with vec := q.vec.set (q.capacity - 1) item, head := q.capacity - 1, cnt := q.cnt + 1 }

def dequeue (q : CircularQueue T) : CircularQueue T :=
  if 0 < q.cnt then
    { q with head := if q.head + 1 = q.capacity then 0 else q.head + 1, cnt := q.cnt - 1 }
  else q

def at_ (vec : List T) (i : Nat) : T := vec[i]?.getD default

def peek (q : CircularQueue T) : T := at_ q.vec q.head

def get (index : Nat) (q : CircularQueue T) : T := at_ q.vec ((q.head + index) % q.capacity)

/-- The loop of `Erase`, with the number of its turns. -/
def shift (head capacity : Nat) : Nat → Nat → List T → List T
  | 0, _, vec => vec
  | turns + 1, index, vec =>
    shift head capacity turns (index + 1)
      (vec.set ((head + index) % capacity) (at_ vec ((head + index + 1) % capacity)))

def erase (index : Nat) (q : CircularQueue T) : CircularQueue T :=
  { q with
    vec := shift q.head q.capacity (q.cnt - 1 - index) index q.vec
    cnt := q.cnt - 1
    head := if q.cnt - 1 = 0 then 0 else q.head }

/-- The queue holds the elements of the list, from the head on. -/
structure Represents (q : CircularQueue T) (l : List T) : Prop where
  length : l.length = q.cnt
  array : q.vec.length = q.capacity
  large : 2 ≤ q.capacity
  head : q.head < q.capacity
  fits : q.cnt ≤ q.capacity
  cells : ∀ i < l.length, q.vec[(q.head + i) % q.capacity]? = l[i]?

theorem slot_ne (head : Nat) {capacity i j : Nat} (less : i < j) (bound : j < capacity) :
    (head + i) % capacity ≠ (head + j) % capacity := by
  intro same
  have := Nat.ModEq.add_left_cancel' head same
  rw [Nat.ModEq, Nat.mod_eq_of_lt (less.trans bound), Nat.mod_eq_of_lt bound] at this
  omega

theorem slot_succ {head capacity : Nat} (i : Nat) :
    ((head + 1) % capacity + i) % capacity = (head + (i + 1)) % capacity := by
  rw [Nat.mod_add_mod]
  congr 1
  omega

variable {q : CircularQueue T} {l : List T}

theorem copyTo_cells (h : Represents q l) (full : q.cnt = q.capacity) (newCapacity : Nat) {i : Nat}
    (bound : i < q.capacity) : (q.copyTo newCapacity)[i]? = l[i]? := by
  have rotated : q.vec.drop q.head ++ q.vec.take q.head = q.vec.rotate q.head :=
    (List.rotate_eq_drop_append_take (h.array ▸ h.head.le)).symm
  rw [copyTo, rotated, List.getElem?_append_left (by rw [List.length_rotate, h.array]; exact bound),
    List.getElem?_rotate (by rw [h.array]; exact bound), h.array, Nat.add_comm]
  exact h.cells i (by rw [h.length]; omega)

theorem length_copyTo (h : Represents q l) {newCapacity : Nat} (more : q.capacity ≤ newCapacity) :
    (q.copyTo newCapacity).length = newCapacity := by
  have := h.array
  have := h.head
  simp only [copyTo, makeUnique, List.length_append, List.length_drop, List.length_take,
    List.length_replicate]
  omega

section
variable {q : CircularQueue T} {l : List T} {item : T}

theorem represents_new {capacity : Nat} (large : 2 ≤ capacity) :
    Represents (new capacity : CircularQueue T) [] where
  length := rfl
  array := List.length_replicate
  large := large
  head := Nat.lt_of_lt_of_le Nat.zero_lt_two large
  fits := Nat.zero_le _
  cells := nofun

theorem Represents.reset (h : Represents q l) : Represents q.reset [] := by
  have large := h.large
  rw [CircularQueue.reset]
  split
  · exact represents_new (by decide)
  · exact ⟨rfl, h.array, large, by dsimp only; omega, Nat.zero_le _, nofun⟩

omit [Inhabited T] in
/-- The first element of an empty queue is put at the start of the array. -/
theorem Represents.first (h : Represents q l) (empty : q.cnt = 0) (item : T) :
    l = [] ∧ Represents { q with vec := q.vec.set 0 item, head := 0, cnt := 1 } [item] := by
  have large := h.large
  have array := h.array
  refine ⟨List.eq_nil_of_length_eq_zero (h.length.trans empty), rfl, ?_, large, ?_, ?_, ?_⟩
  · rw [List.length_set]
    exact array
  · dsimp only
    omega
  · dsimp only
    omega
  · intro i one
    obtain rfl : i = 0 := by simpa using one
    simp [List.getElem?_set, array]
    omega

theorem Represents.enqueueWith (h : Represents q l) {grow : Nat → Nat}
    (grows : q.capacity < grow q.capacity) (item : T) :
    Represents (q.enqueueWith grow item) (l ++ [item]) := by
  have length := h.length
  have array := h.array
  have head := h.head
  have large := h.large
  rw [CircularQueue.enqueueWith]
  split
  · rename_i empty
    obtain ⟨rfl, first⟩ := h.first empty item
    exact first
  · split
    · rename_i full
      have copied := length_copyTo h grows.le
      refine ⟨by simp [length, full], by simpa using copied, by dsimp only; omega, by dsimp only; omega,
        by dsimp only; omega, ?_⟩
      intro i bound
      simp only [List.length_append, List.length_singleton] at bound
      dsimp only
      rw [Nat.zero_add, Nat.mod_eq_of_lt (by omega), List.getElem?_set]
      split
      · rename_i last
        rw [if_pos (by omega), ← last, List.getElem?_append_right (by omega)]
        simp [length, full]
      · rw [List.getElem?_append_left (by omega)]
        exact copyTo_cells h full _ (by omega)
    · rename_i notEmpty notFull
      have fits := h.fits
      refine ⟨by simp [length], by simpa using array, large, head, by dsimp only; omega, ?_⟩
      intro i bound
      simp only [List.length_append, List.length_singleton] at bound
      dsimp only
      by_cases last : i = q.cnt
      · subst last
        rw [List.getElem?_set_self (by rw [array]; exact Nat.mod_lt _ (by omega)), ← length,
          List.getElem?_concat_length]
      · rw [List.getElem?_set_ne (slot_ne _ (by omega) (by omega)).symm, h.cells i (by omega),
          List.getElem?_append_left (by omega)]

theorem Represents.enqueue (h : Represents q l) (item : T) :
    Represents (q.enqueue item) (l ++ [item]) := by
  have large := h.large
  apply h.enqueueWith
  rw [Nat.shiftLeft_eq]
  omega

theorem Represents.enqueueMove (h : Represents q l) (item : T) :
    Represents (q.enqueueMove item) (l ++ [item]) := by
  have large := h.large
  apply h.enqueueWith
  omega

omit [Inhabited T] in
theorem Represents.prepend (h : Represents q l) (free : q.cnt < q.capacity) {before : Nat}
    (bound : before < q.capacity) (next : (before + 1) % q.capacity = q.head) (item : T) :
    Represents { q with vec := q.vec.set before item, head := before, cnt := q.cnt + 1 }
      (item :: l) := by
  have length := h.length
  have array := h.array
  refine ⟨by simp [length], by simpa using array, h.large, bound, free, fun i less => ?_⟩
  rw [List.length_cons] at less
  dsimp only
  cases i with
  | zero => rw [Nat.add_zero, Nat.mod_eq_of_lt bound, List.getElem?_set_self (array ▸ bound)]; rfl
  | succ i =>
    have apart : before ≠ (before + (i + 1)) % q.capacity := by
      have := slot_ne before (Nat.succ_pos i) (by omega : i + 1 < q.capacity)
      rwa [Nat.add_zero, Nat.mod_eq_of_lt bound] at this
    rw [List.getElem?_set_ne apart, ← slot_succ, next, h.cells i (by omega), List.getElem?_cons_succ]

theorem Represents.enqueueAsFirst (h : Represents q l) (item : T) :
    Represents (q.enqueueAsFirst item) (item :: l) := by
  have length := h.length
  have head := h.head
  have large := h.large
  have fits := h.fits
  rw [CircularQueue.enqueueAsFirst]
  split
  · rename_i empty
    obtain ⟨rfl, first⟩ := h.first empty item
    exact first
  · split
    · rename_i full
      generalize grown : q.capacity * 3 / 2 = newCapacity
      have copied : (q.copyTo newCapacity).length = newCapacity := length_copyTo h (by omega)
      refine ⟨by simp [length, full], by simpa using copied, by dsimp only; omega, by dsimp only; omega,
        by dsimp only; omega, fun i less => ?_⟩
      rw [List.length_cons] at less
      dsimp only
      cases i with
      | zero =>
        rw [Nat.add_zero, Nat.mod_eq_of_lt (by omega), List.getElem?_set_self (by omega)]
        rfl
      | succ i =>
        have wraps : newCapacity - 1 + (i + 1) = newCapacity + i := by omega
        rw [wraps, Nat.add_mod_left, Nat.mod_eq_of_lt (by omega), List.getElem?_set_ne (by omega),
          List.getElem?_cons_succ]
        exact copyTo_cells h full _ (by omega)
    · split
      · refine h.prepend (by omega) (by omega) ?_ item
        rw [Nat.sub_add_cancel (by omega), Nat.mod_eq_of_lt head]
      · refine h.prepend (by omega) (by omega) ?_ item
        rw [Nat.sub_add_cancel (by omega), Nat.mod_self]
        omega

omit [Inhabited T] in
theorem Represents.dequeue {x : T} (h : Represents q (x :: l)) : Represents q.dequeue l := by
  have length := h.length
  have head := h.head
  have large := h.large
  have fits := h.fits
  rw [List.length_cons] at length
  rw [CircularQueue.dequeue, if_pos (by omega)]
  have moved : (if q.head + 1 = q.capacity then 0 else q.head + 1) = (q.head + 1) % q.capacity := by
    split
    · rename_i wraps
      rw [wraps, Nat.mod_self]
    · rw [Nat.mod_eq_of_lt (by omega)]
  rw [moved]
  refine ⟨by dsimp only; omega, h.array, large, Nat.mod_lt _ (by omega), by dsimp only; omega, ?_⟩
  intro i bound
  dsimp only
  rw [slot_succ, h.cells (i + 1) (by rw [List.length_cons]; omega), List.getElem?_cons_succ]

theorem Represents.get (h : Represents q l) {i : Nat} (bound : i < l.length) :
    some (q.get i) = l[i]? := by
  rw [CircularQueue.get, at_, h.cells i bound, List.getElem?_eq_getElem bound]
  rfl

theorem Represents.peek {x : T} (h : Represents q (x :: l)) : q.peek = x := by
  have first := h.get (i := 0) (by simp)
  rw [CircularQueue.get, Nat.add_zero, Nat.mod_eq_of_lt h.head] at first
  exact Option.some.inj first

theorem shift_length (head capacity turns index : Nat) (vec : List T) :
    (shift head capacity turns index vec).length = vec.length := by
  induction turns generalizing index vec with
  | zero => rfl
  | succ turns ih => rw [shift, ih, List.length_set]

/-- Each slot that the loop passes takes the element of the next one. -/
theorem shift_cells (head : Nat) {capacity turns index : Nat} {vec : List T}
    (array : vec.length = capacity) (room : index + turns < capacity) {j : Nat}
    (bound : j < capacity) :
    (shift head capacity turns index vec)[(head + j) % capacity]? =
      if index ≤ j ∧ j < index + turns then vec[(head + (j + 1)) % capacity]?
      else vec[(head + j) % capacity]? := by
  have inside : ∀ i, (head + i) % capacity < vec.length := fun i => array ▸ Nat.mod_lt _ (by omega)
  induction turns generalizing index vec with
  | zero => rw [shift, if_neg (by omega)]
  | succ turns ih =>
    rw [shift, ih (by rw [List.length_set, array]) (by omega) (by simpa using inside)]
    by_cases here : j = index
    · subst here
      rw [if_neg (by omega), if_pos (by omega), List.getElem?_set_self (inside j), at_, Nat.add_assoc,
        List.getElem?_eq_getElem (inside (j + 1))]
      rfl
    · have others : ∀ i ≠ index, i < capacity →
          (vec.set ((head + index) % capacity) (at_ vec ((head + index + 1) % capacity)))[
            (head + i) % capacity]? = vec[(head + i) % capacity]? := by
        intro i apart bound
        apply List.getElem?_set_ne
        rcases Nat.lt_or_gt_of_ne apart with less | more
        · exact (slot_ne head less (by omega)).symm
        · exact slot_ne head more bound
      by_cases passed : index ≤ j ∧ j < index + (turns + 1)
      · rw [if_pos (by omega), if_pos passed, others (j + 1) (by omega) (by omega)]
      · rw [if_neg (by omega), if_neg passed, others j here bound]

theorem Represents.erase (h : Represents q l) {index : Nat} (bound : index < l.length) :
    Represents (q.erase index) (l.eraseIdx index) := by
  have length := h.length
  have fits := h.fits
  have head := h.head
  have shorter : (l.eraseIdx index).length = l.length - 1 := List.length_eraseIdx_of_lt bound
  refine ⟨by rw [shorter, length]; rfl, (shift_length _ _ _ _ _).trans h.array, h.large, ?_, ?_, ?_⟩
  · rw [CircularQueue.erase]
    dsimp only
    split <;> omega
  · rw [CircularQueue.erase]
    dsimp only
    omega
  · intro j less
    rw [shorter] at less
    simp only [CircularQueue.erase]
    rw [if_neg (by omega), shift_cells q.head h.array (by omega) (by omega), List.getElem?_eraseIdx]
    split
    · rw [if_neg (by omega), h.cells (j + 1) (by omega)]
    · rw [if_pos (by omega), h.cells j (by omega)]

end

inductive Op (T : Type u)
  | enqueue (item : T)
  | enqueueMove (item : T)
  | enqueueAsFirst (item : T)
  | dequeue
  | erase (index : Nat)
  | get (index : Nat)
  | peek
  | reset

/-- The queue after a call, and what the call returns. -/
def call (q : CircularQueue T) : Op T → CircularQueue T × Option T
  | .enqueue item => (q.enqueue item, none)
  | .enqueueMove item => (q.enqueueMove item, none)
  | .enqueueAsFirst item => (q.enqueueAsFirst item, none)
  | .dequeue => (q.dequeue, none)
  | .erase index => (q.erase index, none)
  | .get index => (q, some (q.get index))
  | .peek => (q, some q.peek)
  | .reset => (q.reset, none)

/-- The same call on a list. An index has to be valid, and there has to be a first element. -/
def listCall (l : List T) : Op T → Option (List T × Option T)
  | .enqueue item => some (l ++ [item], none)
  | .enqueueMove item => some (l ++ [item], none)
  | .enqueueAsFirst item => some (item :: l, none)
  | .dequeue => match l with
    | [] => none
    | _ :: l => some (l, none)
  | .erase index => if index < l.length then some (l.eraseIdx index, none) else none
  | .get index => l[index]?.map fun x => (l, some x)
  | .peek => l.head?.map fun x => (l, some x)
  | .reset => some ([], none)

/-- The queue and what was returned, call by call. -/
def run (q : CircularQueue T) : List (Op T) → CircularQueue T × List (Option T)
  | [] => (q, [])
  | op :: ops =>
    let (q, out) := q.call op
    let (q, outs) := q.run ops
    (q, out :: outs)

def listRun (l : List T) : List (Op T) → Option (List T × List (Option T))
  | [] => some (l, [])
  | op :: ops => do
    let (l, out) ← listCall l op
    let (l, outs) ← listRun l ops
    some (l, out :: outs)

/-- The elements of the queue by their indices. -/
def items (q : CircularQueue T) : List T := (List.range q.cnt).map q.get

theorem Represents.items (h : Represents q l) : q.items = l := by
  apply List.ext_getElem?
  intro i
  by_cases bound : i < l.length
  · rw [CircularQueue.items, List.getElem?_map, List.getElem?_range (h.length ▸ bound), Option.map_some,
      h.get bound]
  · have length := h.length
    rw [List.getElem?_eq_none (by simp [CircularQueue.items]; omega), List.getElem?_eq_none (by omega)]

theorem Represents.call {l l' : List T} {op : Op T} {out : Option T} (h : Represents q l)
    (valid : listCall l op = some (l', out)) :
    Represents (q.call op).1 l' ∧ (q.call op).2 = out := by
  cases op with
  | enqueue item =>
    cases valid
    exact ⟨h.enqueue item, rfl⟩
  | enqueueMove item =>
    cases valid
    exact ⟨h.enqueueMove item, rfl⟩
  | enqueueAsFirst item =>
    cases valid
    exact ⟨h.enqueueAsFirst item, rfl⟩
  | dequeue =>
    cases l with
    | nil => cases valid
    | cons x l =>
      cases valid
      exact ⟨h.dequeue, rfl⟩
  | erase index =>
    obtain ⟨bound, valid⟩ := Option.ite_none_right_eq_some.mp valid
    cases valid
    exact ⟨h.erase bound, rfl⟩
  | get index =>
    obtain ⟨x, here, valid⟩ := Option.map_eq_some_iff.mp valid
    cases valid
    have bound := (List.getElem?_eq_some_iff.mp here).1
    exact ⟨h, (h.get bound).trans here⟩
  | peek =>
    obtain ⟨x, here, valid⟩ := Option.map_eq_some_iff.mp valid
    cases valid
    obtain ⟨l, rfl⟩ := List.head?_eq_some_iff.mp here
    exact ⟨h, congrArg some h.peek⟩
  | reset =>
    cases valid
    exact ⟨h.reset, rfl⟩

theorem Represents.run {l l' : List T} {ops : List (Op T)} {outs : List (Option T)}
    (h : Represents q l) (valid : listRun l ops = some (l', outs)) :
    Represents (q.run ops).1 l' ∧ (q.run ops).2 = outs := by
  induction ops generalizing q l outs with
  | nil =>
    cases valid
    exact ⟨h, rfl⟩
  | cons op ops ih =>
    obtain ⟨⟨next, out⟩, first, valid⟩ := Option.bind_eq_some_iff.mp valid
    obtain ⟨⟨last, rest⟩, later, valid⟩ := Option.bind_eq_some_iff.mp valid
    cases valid
    obtain ⟨called, returned⟩ := h.call first
    obtain ⟨ran, outs⟩ := ih called later
    exact ⟨ran, by simp only [CircularQueue.run, returned, outs]⟩

/-- The queue does what a list does. -/
theorem circular_queue_refines_list {capacity : Nat} (large : 2 ≤ capacity) {ops : List (Op T)}
    {l : List T} {outs : List (Option T)} (valid : listRun [] ops = some (l, outs)) :
    ((new capacity).run ops).1.items = l ∧ ((new capacity).run ops).2 = outs := by
  obtain ⟨represents, returned⟩ := (represents_new large).run valid
  exact ⟨represents.items, returned⟩

/-- Growth with a head in the middle, a wrapped insertion in front and an erased element. -/
def grownCalls : List (Op Nat) :=
  [.enqueue 1, .enqueue 2, .dequeue, .enqueue 3, .enqueueMove 4, .enqueueAsFirst 5, .erase 1, .peek,
    .get 2]

theorem circular_queue_refines_list_grown :
    ((new 2).run grownCalls).1.items = [5, 3, 4] ∧
      ((new 2).run grownCalls).2 = List.replicate 7 none ++ [some 5, some 4] := by
  have valid : listRun [] grownCalls = some ([5, 3, 4], List.replicate 7 none ++ [some 5, some 4]) := by
    decide
  exact circular_queue_refines_list (by decide) valid

end CircularQueue

end TxService
