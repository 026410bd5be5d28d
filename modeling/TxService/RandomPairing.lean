import Mathlib.Algebra.Ring.Nat
import Mathlib.Data.List.Induction
import Mathlib.Order.Lattice

/-!
# The sample of a table's keys

A deletion is made up for by a later insertion: `c1` counts deleted keys that were sampled, `c2`
those that were not. A failed assertion of the source gives no pool.
-/

namespace TxService

universe u

variable {K : Type u}

structure RandomPairing (K : Type u) where
  c1 : UInt32
  c2 : UInt32
  samplePool : List K
  capacity : UInt32

/-- `uniform_int_distribution(0, last)`; every number up to the last one is drawn for some `random`. -/
def uniformInt (random last : Nat) : Nat := random % (last + 1)

inductive PoolCall (K : Type u)
  | insert (key : K) (dataset : UInt64) (random : Nat)
  | delete (key : K) (dataset : UInt64) (random : Nat)

def PoolCall.isDelete : PoolCall K → Bool
  | .insert _ _ _ => false
  | .delete _ _ _ => true

namespace RandomPairing

def new (capacity : UInt32) : RandomPairing K := ⟨0, 0, [], capacity⟩

section
variable [LinearOrder K]

/-- `std::lower_bound`, the first place whose key is not before the key. -/
def lowerBound (pool : List K) (key : K) : Nat := pool.findIdx fun k => ¬k < key

/-- An assertion that the pool is sorted. -/
def checkSorted (p : RandomPairing K) : Option (RandomPairing K) :=
  if p.samplePool.Pairwise (· ≤ ·) then some p else none

/-- The private `Insert`. -/
def insertKey (key : K) (p : RandomPairing K) : Option (RandomPairing K) :=
  if p.samplePool.length < p.capacity.toNat then
    let iter := lowerBound p.samplePool key
    let pool :=
      match p.samplePool[iter]? with
      | some k =>
        if key < k then p.samplePool.take iter ++ key :: p.samplePool.drop iter else p.samplePool
      | none => p.samplePool ++ [key]
    if pool.length ≤ p.capacity.toNat then some { p with samplePool := pool } else none
  else none

/-- The first loop of `Replace`, in so many steps at most. -/
def moveBack : Nat → Nat → List K → List K
  | 0, _, pool => pool
  | steps + 1, i, pool =>
    match pool[i]?, pool[i + 1]? with
    | some k, some next =>
      if next < k then moveBack steps (i + 1) ((pool.set i next).set (i + 1) k) else pool
    | _, _ => pool

/-- The second loop of `Replace`. -/
def moveFront : Nat → List K → List K
  | 0, pool => pool
  | i + 1, pool =>
    match pool[i]?, pool[i + 1]? with
    | some before, some k =>
      if k < before then moveFront i ((pool.set (i + 1) before).set i k) else pool
    | _, _ => pool

def replace (random : Nat) (key : K) (p : RandomPairing K) : Option (RandomPairing K) :=
  if p.samplePool[lowerBound p.samplePool key]? = some key then some p
  else if random < p.samplePool.length then
    some { p with
      samplePool :=
        moveFront random (moveBack p.samplePool.length random (p.samplePool.set random key)) }
  else none

def insert (key : K) (dataset : UInt64) (random : Nat) (p : RandomPairing K) :
    Option (RandomPairing K) :=
  if p.c1 + p.c2 ≤ 0 then
    if UInt32.ofNat p.samplePool.length < p.capacity then (p.insertKey key).bind checkSorted
    else
      let random := uniformInt random (dataset - 1).toNat
      if random < p.capacity.toNat then (p.replace random key).bind checkSorted else some p
  else
    let random := uniformInt random (p.c1 + p.c2 - 1).toNat
    if random < p.c1.toNat then
      if p.samplePool.length < p.capacity.toNat ∧ 0 < p.c1 then
        ({ p with c1 := p.c1 - 1 }.insertKey key).bind checkSorted
      else none
    else if 0 < p.c2 then some { p with c2 := p.c2 - 1 } else none

def delete (key : K) (dataset : UInt64) (random : Nat) (p : RandomPairing K) :
    Option (RandomPairing K) :=
  let iter := lowerBound p.samplePool key
  if p.samplePool[iter]? = some key then
    let p := { p with c1 := p.c1 + 1, samplePool := p.samplePool.eraseIdx iter }
    (checkSorted p).bind fun p =>
      if p.samplePool.length < p.capacity.toNat then some p else none
  else if p.samplePool.length = 0 then some p
  else if p.samplePool.length ≤ dataset.toNat then some { p with c2 := p.c2 + 1 }
  else
    let random := uniformInt random dataset.toNat
    if random < p.samplePool.length then
      some { p with samplePool := p.samplePool.eraseIdx random }
    else none

def call (p : RandomPairing K) : PoolCall K → Option (RandomPairing K)
  | .insert key dataset random => p.insert key dataset random
  | .delete key dataset random => p.delete key dataset random

/-- The keys that were inserted and not deleted since. -/
def liveKeys (keys : List K) : PoolCall K → List K
  | .insert key _ _ => key :: keys
  | .delete key _ _ => keys.filter fun k => k ≠ key

end

section
variable [LinearOrder K] {l left right : List K} {key : K}

theorem lowerBound_split (sorted : l.Pairwise (· < ·)) (key : K) :
    ∃ left right, l = left ++ right ∧ lowerBound l key = left.length ∧ (∀ k ∈ left, k < key) ∧
      ∀ k ∈ right, key ≤ k := by
  induction l with
  | nil => exact ⟨[], [], rfl, rfl, nofun, nofun⟩
  | cons k l ih =>
    obtain ⟨first, rest⟩ := List.pairwise_cons.mp sorted
    by_cases before : k < key
    · obtain ⟨left, right, split, found, below, above⟩ := ih rest
      refine ⟨k :: left, right, by rw [split, List.cons_append], ?_, ?_, above⟩
      · rw [lowerBound] at found
        rw [lowerBound, List.findIdx_cons, decide_eq_false (not_not.mpr before), cond_false, found]
        rfl
      · intro k' mem
        rcases List.mem_cons.mp mem with rfl | mem
        · exact before
        · exact below k' mem
    · refine ⟨[], k :: l, rfl, ?_, nofun, ?_⟩
      · rw [lowerBound, List.findIdx_cons, decide_eq_true before]
        rfl
      · intro k' mem
        rcases List.mem_cons.mp mem with rfl | mem
        · exact not_lt.mp before
        · exact (not_lt.mp before).trans (first k' mem).le

theorem lowerBound_mem (sorted : l.Pairwise (· < ·)) :
    l[lowerBound l key]? = some key ↔ key ∈ l := by
  obtain ⟨left, right, rfl, found, below, above⟩ := lowerBound_split sorted key
  rw [found, List.getElem?_append_right (Nat.le_refl _), Nat.sub_self]
  refine ⟨fun here => List.mem_append_right _ (List.mem_of_getElem? here), fun mem => ?_⟩
  rcases List.mem_append.mp mem with before | after
  · exact absurd (below key before) (lt_irrefl key)
  · cases right with
    | nil => cases after
    | cons k right =>
      obtain ⟨-, later, -⟩ := List.pairwise_append.mp sorted
      rcases List.mem_cons.mp after with rfl | after
      · rfl
      · exact absurd (above k List.mem_cons_self)
          (not_le.mpr (List.rel_of_pairwise_cons later after))

theorem sorted_between (sorted : (left ++ right).Pairwise (· < ·)) (below : ∀ k ∈ left, k < key)
    (above : ∀ k ∈ right, key < k) : (left ++ key :: right).Pairwise (· < ·) := by
  obtain ⟨before, after, apart⟩ := List.pairwise_append.mp sorted
  refine List.pairwise_append.mpr ⟨before, List.pairwise_cons.mpr ⟨above, after⟩, ?_⟩
  intro a mem b mem'
  rcases List.mem_cons.mp mem' with rfl | mem'
  · exact below a mem
  · exact apart a mem b mem'

/-- The first loop moves the key behind the smaller keys. -/
theorem moveBack_split (key : K) (left right : List K) {steps : Nat} (enough : right.length ≤ steps) :
    ∃ smaller larger, right = smaller ++ larger ∧
      moveBack steps left.length (left ++ key :: right) = left ++ smaller ++ key :: larger ∧
      (∀ k ∈ smaller, k < key) ∧ ∀ k ∈ larger.head?, key ≤ k := by
  induction right generalizing left steps with
  | nil =>
    refine ⟨[], [], rfl, ?_, nofun, nofun⟩
    rw [List.append_nil]
    cases steps with
    | zero => rfl
    | succ steps => simp [moveBack]
  | cons k right ih =>
    obtain ⟨steps, rfl⟩ : ∃ n, steps = n + 1 := ⟨steps - 1, by rw [List.length_cons] at enough; omega⟩
    have here : (left ++ key :: k :: right)[left.length]? = some key := by simp
    have next : (left ++ key :: k :: right)[left.length + 1]? = some k := by simp
    simp only [moveBack, here, next]
    split
    · rename_i smaller
      have swapped : ((left ++ key :: k :: right).set left.length k).set (left.length + 1) key =
          (left ++ [k]) ++ key :: right := by
        simp
      have place : left.length + 1 = (left ++ [k]).length := by simp
      obtain ⟨first, rest, split, eq, below, above⟩ :=
        ih (left ++ [k]) (Nat.le_of_succ_le_succ enough)
      refine ⟨k :: first, rest, by rw [split, List.cons_append], ?_, ?_, above⟩
      · rw [swapped, place, eq]
        simp
      · intro k' mem
        rcases List.mem_cons.mp mem with rfl | mem
        · exact smaller
        · exact below k' mem
    · rename_i larger
      refine ⟨[], k :: right, rfl, by rw [List.append_nil], nofun, ?_⟩
      intro k' mem
      cases mem
      exact not_lt.mp larger

/-- The second loop moves the key before the larger keys. -/
theorem moveFront_split (key : K) (left right : List K) :
    ∃ smaller larger, left = smaller ++ larger ∧
      moveFront left.length (left ++ key :: right) = smaller ++ key :: (larger ++ right) ∧
      (∀ k ∈ larger, key < k) ∧ ∀ k ∈ smaller.getLast?, k ≤ key := by
  induction left using List.reverseRecOn generalizing right with
  | nil => exact ⟨[], [], rfl, rfl, nofun, nofun⟩
  | append_singleton left before ih =>
    have there : (left ++ [before] ++ key :: right)[left.length]? = some before := by simp
    have here : (left ++ [before] ++ key :: right)[left.length + 1]? = some key := by simp
    rw [List.length_append, List.length_singleton]
    simp only [moveFront, there, here]
    split
    · rename_i larger
      have swapped : ((left ++ [before] ++ key :: right).set (left.length + 1) before).set
          left.length key = left ++ key :: before :: right := by
        simp
      obtain ⟨first, rest, split, eq, above, below⟩ := ih (before :: right)
      refine ⟨first, rest ++ [before], by rw [split, List.append_assoc], ?_, ?_, below⟩
      · rw [swapped, eq]
        simp
      · intro k mem
        rcases List.mem_append.mp mem with mem | mem
        · exact above k mem
        · rw [List.mem_singleton.mp mem]
          exact larger
    · rename_i smaller
      refine ⟨left ++ [before], [], by rw [List.append_nil], rfl, nofun, ?_⟩
      intro k mem
      rw [List.getLast?_concat] at mem
      cases mem
      exact not_lt.mp smaller

theorem lt_of_head (sorted : right.Pairwise (· < ·)) (head : ∀ k ∈ right.head?, key ≤ k)
    (absent : key ∉ right) : ∀ k ∈ right, key < k := by
  cases right with
  | nil => exact fun _ mem => absurd mem List.not_mem_nil
  | cons first rest =>
    have lt : key < first :=
      lt_of_le_of_ne (head first rfl) fun same => absent (same ▸ List.mem_cons_self)
    intro k mem
    rcases List.mem_cons.mp mem with rfl | mem
    · exact lt
    · exact lt.trans (List.rel_of_pairwise_cons sorted mem)

theorem lt_of_getLast (sorted : left.Pairwise (· < ·)) (last : ∀ k ∈ left.getLast?, k ≤ key)
    (absent : key ∉ left) : ∀ k ∈ left, k < key := by
  rcases List.eq_nil_or_concat left with rfl | ⟨front, final, rfl⟩
  · exact fun _ mem => absurd mem List.not_mem_nil
  · rw [List.concat_eq_append] at sorted last absent ⊢
    have lt : final < key :=
      lt_of_le_of_ne (last final (List.getLast?_concat ..))
        fun same => absent (same ▸ List.mem_append_right _ (List.mem_singleton_self _))
    intro k mem
    rcases List.mem_append.mp mem with mem | mem
    · exact ((List.pairwise_append.mp sorted).2.2 k mem final (List.mem_singleton_self _)).trans lt
    · rw [List.mem_singleton.mp mem]
      exact lt

/-- `Replace` puts the new key in its place, for the key that was at the random one. -/
theorem moved_sorted (sorted : (left ++ right).Pairwise (· < ·)) (absent : key ∉ left ++ right)
    {steps : Nat} (enough : right.length ≤ steps) :
    ∃ smaller larger, left ++ right = smaller ++ larger ∧
      moveFront left.length (moveBack steps left.length (left ++ key :: right)) =
        smaller ++ key :: larger ∧
      (smaller ++ key :: larger).Pairwise (· < ·) := by
  obtain ⟨before, after, apart⟩ := List.pairwise_append.mp sorted
  obtain ⟨smaller, larger, rfl, eq, below, above⟩ := moveBack_split key left right enough
  rw [eq]
  have behind : ∀ k ∈ larger, key < k := by
    refine lt_of_head (List.pairwise_append.mp after).2.1 above fun mem => absent ?_
    exact List.mem_append_right _ (List.mem_append_right _ mem)
  cases smaller with
  | nil =>
    obtain ⟨first, rest, rfl, moved, later, last⟩ := moveFront_split key left larger
    have earlier : ∀ k ∈ first, k < key := by
      refine lt_of_getLast (List.pairwise_append.mp before).1 last fun mem => absent ?_
      exact List.mem_append_left _ (List.mem_append_left _ mem)
    rw [List.append_nil, moved]
    refine ⟨first, rest ++ larger, by simp, rfl, ?_⟩
    refine sorted_between (by simpa using sorted) earlier ?_
    intro k mem
    rcases List.mem_append.mp mem with mem | mem
    · exact later k mem
    · exact behind k mem
  | cons next smaller =>
    -- the key went back, so what is at its old place is not before its neighbour
    obtain ⟨first, rest, split, moved, later, -⟩ :=
      moveFront_split next left (smaller ++ key :: larger)
    have nothing : rest = [] := by
      rw [List.eq_nil_iff_forall_not_mem]
      intro k mem
      have lt := apart k (split ▸ List.mem_append_right _ mem) next
        (List.mem_append_left _ List.mem_cons_self)
      exact lt_asymm lt (later k mem)
    subst nothing
    rw [List.append_nil] at split
    subst split
    have same : left ++ next :: smaller ++ key :: larger = left ++ next :: (smaller ++ key :: larger) := by
      simp
    rw [same, moved, List.nil_append, ← same]
    refine ⟨left ++ next :: smaller, larger, by simp, rfl, ?_⟩
    refine sorted_between (by simpa using sorted) ?_ behind
    intro k mem
    rcases List.mem_append.mp mem with mem | mem
    · exact (apart k mem next (List.mem_append_left _ List.mem_cons_self)).trans
        (below next List.mem_cons_self)
    · exact below k mem

variable {p : RandomPairing K} {keys : List K} {deleted : Nat}

/-- What holds of a pool after calls with so many deletions, `keys` being what is left of the
table. -/
structure Valid (p : RandomPairing K) (keys : List K) (deleted : Nat) : Prop where
  sorted : p.samplePool.Pairwise (· < ·)
  room : p.samplePool.length + p.c1.toNat ≤ p.capacity.toNat
  counted : p.c1.toNat + p.c2.toNat ≤ deleted
  live : ∀ k ∈ p.samplePool, k ∈ keys

theorem checkSorted_eq (sorted : p.samplePool.Pairwise (· < ·)) : checkSorted p = some p := by
  rw [checkSorted, if_pos (sorted.imp le_of_lt)]

theorem insertKey_eq (sorted : p.samplePool.Pairwise (· < ·))
    (space : p.samplePool.length < p.capacity.toNat) (key : K) :
    ∃ pool, p.insertKey key = some { p with samplePool := pool } ∧ pool.Pairwise (· < ·) ∧
      pool.length ≤ p.samplePool.length + 1 ∧ ∀ k ∈ pool, k = key ∨ k ∈ p.samplePool := by
  obtain ⟨left, right, split, found, below, above⟩ := lowerBound_split sorted key
  -- whatever the pool becomes, it has room for one key more
  have done : ∀ pool : List K, pool.length ≤ p.samplePool.length + 1 →
      (if pool.length ≤ p.capacity.toNat then some { p with samplePool := pool } else none) =
        some { p with samplePool := pool } := fun pool most => if_pos (by omega)
  simp only [insertKey, if_pos space, found]
  cases right with
  | nil =>
    rw [List.append_nil] at split
    have past : p.samplePool[left.length]? = none := by
      rw [split]
      exact List.getElem?_eq_none (Nat.le_refl _)
    simp only [past]
    refine ⟨_, done _ (by simp), ?_, by simp, ?_⟩
    · rw [split]
      exact sorted_between (by simpa [split] using sorted) below nofun
    · intro k mem
      rcases List.mem_append.mp mem with mem | mem
      · exact .inr mem
      · exact .inl (List.mem_singleton.mp mem)
  | cons next right =>
    have here : p.samplePool[left.length]? = some next := by
      rw [split]
      simp
    simp only [here]
    split
    · rename_i before
      rw [split, List.take_left, List.drop_left]
      rw [split] at done sorted
      refine ⟨_, done _ (by simp; omega), ?_, by simp; omega, ?_⟩
      · refine sorted_between sorted below (lt_of_head (List.pairwise_append.mp sorted).2.1 ?_ ?_)
        · intro k mem
          cases mem
          exact before.le
        · intro mem
          rcases List.mem_cons.mp mem with rfl | mem
          · exact lt_irrefl key before
          · exact lt_asymm before
              (List.rel_of_pairwise_cons (List.pairwise_append.mp sorted).2.1 mem)
      · intro k mem
        rcases List.mem_append.mp mem with mem | mem
        · exact .inr (List.mem_append_left _ mem)
        · rcases List.mem_cons.mp mem with rfl | mem
          · exact .inl rfl
          · exact .inr (List.mem_append_right _ mem)
    · exact ⟨_, done _ (Nat.le_succ _), sorted, Nat.le_succ _, fun k mem => .inr mem⟩

section
variable (h : Valid p keys deleted)
include h

theorem Valid.insertKey (space : p.samplePool.length < p.capacity.toNat) (key : K)
    (room : p.samplePool.length + 1 + p.c1.toNat ≤ p.capacity.toNat) :
    ∃ p', (p.insertKey key).bind checkSorted = some p' ∧ p'.capacity = p.capacity ∧
      Valid p' (key :: keys) deleted := by
  obtain ⟨pool, eq, sorted, most, mem⟩ := insertKey_eq h.sorted space key
  refine ⟨{ p with samplePool := pool }, ?_, rfl, sorted, ?_, h.counted, ?_⟩
  · rw [eq]
    exact checkSorted_eq sorted
  · exact Nat.le_trans (Nat.add_le_add_right most _) room
  · intro k inside
    rcases mem k inside with rfl | old
    · exact List.mem_cons_self
    · exact List.mem_cons_of_mem _ (h.live k old)

theorem Valid.replace (key : K) {random : Nat} (bound : random < p.samplePool.length) :
    ∃ p', (p.replace random key).bind checkSorted = some p' ∧ p'.capacity = p.capacity ∧
      Valid p' (key :: keys) deleted := by
  rw [RandomPairing.replace]
  split
  · exact ⟨p, checkSorted_eq h.sorted, rfl, h.sorted, h.room, h.counted,
      fun k mem => List.mem_cons_of_mem _ (h.live k mem)⟩
  · rename_i other
    have absent : key ∉ p.samplePool := fun mem => other ((lowerBound_mem h.sorted).mpr mem)
    obtain ⟨left, old, right, split, place⟩ : ∃ left old right,
        p.samplePool = left ++ old :: right ∧ random = left.length := by
      refine ⟨p.samplePool.take random, p.samplePool[random], p.samplePool.drop (random + 1), ?_, ?_⟩
      · rw [List.getElem_cons_drop, List.take_append_drop]
      · rw [List.length_take]
        omega
    have fewer : (left ++ right).Sublist p.samplePool := by
      rw [split]
      exact (List.Sublist.refl left).append (List.sublist_cons_self old right)
    have set : p.samplePool.set random key = left ++ key :: right := by
      rw [split, place]
      simp
    have enough : right.length ≤ p.samplePool.length := by
      rw [split]
      simp
      omega
    obtain ⟨smaller, larger, same, moved, sorted⟩ :=
      moved_sorted (h.sorted.sublist fewer) (fun mem => absent (fewer.subset mem)) enough
    rw [set, place, moved]
    refine ⟨_, checkSorted_eq sorted, rfl, sorted, ?_, h.counted, ?_⟩
    · have length : (smaller ++ key :: larger).length = p.samplePool.length := by
        have count := congrArg List.length same
        rw [split]
        simp only [List.length_append, List.length_cons] at count ⊢
        omega
      rw [length]
      exact h.room
    · intro k mem
      rcases List.mem_append.mp mem with mem | mem
      · exact List.mem_cons_of_mem _
          (h.live k (fewer.subset (same ▸ List.mem_append_left _ mem)))
      · rcases List.mem_cons.mp mem with rfl | mem
        · exact List.mem_cons_self
        · exact List.mem_cons_of_mem _
            (h.live k (fewer.subset (same ▸ List.mem_append_right _ mem)))

/-- The sum of the counters does not wrap around. -/
theorem Valid.toNat_sum (few : deleted < 2 ^ 32) :
    (p.c1 + p.c2).toNat = p.c1.toNat + p.c2.toNat := by
  have counted := h.counted
  rw [UInt32.toNat_add, Nat.mod_eq_of_lt (by omega)]

theorem Valid.insert (few : deleted < 2 ^ 32) (key : K) (dataset : UInt64) (random : Nat) :
    ∃ p', p.insert key dataset random = some p' ∧ p'.capacity = p.capacity ∧
      Valid p' (key :: keys) deleted := by
  have sum := h.toNat_sum few
  have room := h.room
  have bound := p.capacity.toNat_lt
  have unchanged : Valid p (key :: keys) deleted :=
    ⟨h.sorted, h.room, h.counted, fun k mem => List.mem_cons_of_mem _ (h.live k mem)⟩
  rw [RandomPairing.insert]
  split
  · rename_i zero
    rw [UInt32.le_iff_toNat_le, sum, UInt32.toNat_zero] at zero
    have size : UInt32.ofNat p.samplePool.length < p.capacity ↔
        p.samplePool.length < p.capacity.toNat := by
      rw [UInt32.lt_iff_toNat_lt,
        UInt32.toNat_ofNat_of_lt' (show p.samplePool.length < 2 ^ 32 by omega)]
    split
    · rename_i space
      exact h.insertKey (size.mp space) key (by have := size.mp space; omega)
    · rename_i full
      rw [size] at full
      dsimp only
      split
      · exact h.replace key (by omega)
      · exact ⟨p, rfl, rfl, unchanged⟩
  · rename_i found
    rw [UInt32.le_iff_toNat_le, sum, UInt32.toNat_zero] at found
    have last : (p.c1 + p.c2 - 1).toNat = p.c1.toNat + p.c2.toNat - 1 := by
      rw [UInt32.toNat_sub_of_le _ _ (by rw [UInt32.le_iff_toNat_le, sum]; simp; omega), sum]
      rfl
    have drawn : uniformInt random (p.c1 + p.c2 - 1).toNat < p.c1.toNat + p.c2.toNat := by
      rw [uniformInt, last]
      have small : random % (p.c1.toNat + p.c2.toNat - 1 + 1) < p.c1.toNat + p.c2.toNat - 1 + 1 :=
        Nat.mod_lt random (Nat.succ_pos _)
      omega
    dsimp only
    generalize uniformInt random (p.c1 + p.c2 - 1).toNat = drawnNumber at drawn ⊢
    split
    · have pos : 0 < p.c1 := by
        rw [UInt32.lt_iff_toNat_lt, UInt32.toNat_zero]
        omega
      have less : (p.c1 - 1).toNat = p.c1.toNat - 1 := by
        rw [UInt32.toNat_sub_of_le _ _ (by rw [UInt32.le_iff_toNat_le]; simp; omega)]
        rfl
      rw [if_pos ⟨by omega, pos⟩]
      have counted := h.counted
      have taken : Valid { p with c1 := p.c1 - 1 } keys deleted :=
        ⟨h.sorted, by simp only [less]; omega, by simp only [less]; omega, h.live⟩
      exact taken.insertKey (by dsimp only; omega) key (by simp only [less]; omega)
    · have pos : 0 < p.c2 := by
        rw [UInt32.lt_iff_toNat_lt, UInt32.toNat_zero]
        omega
      have less : (p.c2 - 1).toNat = p.c2.toNat - 1 := by
        rw [UInt32.toNat_sub_of_le _ _ (by rw [UInt32.le_iff_toNat_le]; simp; omega)]
        rfl
      have counted := h.counted
      rw [if_pos pos]
      exact ⟨_, rfl, rfl, unchanged.sorted, unchanged.room, by simp only [less]; omega,
        unchanged.live⟩

theorem Valid.without {key : K} (absent : key ∉ p.samplePool) {pool : List K}
    (fewer : pool.Sublist p.samplePool) :
    ∀ k ∈ pool, k ∈ keys.filter fun k => k ≠ key := by
  intro k mem
  have inside := fewer.subset mem
  refine List.mem_filter.mpr ⟨h.live k inside, decide_eq_true fun same => ?_⟩
  exact absent (same ▸ inside)

theorem Valid.delete (few : deleted + 1 < 2 ^ 32) (key : K) (dataset : UInt64) (random : Nat) :
    ∃ p', p.delete key dataset random = some p' ∧ p'.capacity = p.capacity ∧
      Valid p' (keys.filter fun k => k ≠ key) (deleted + 1) := by
  have room := h.room
  have counted := h.counted
  have bound := p.capacity.toNat_lt
  rw [RandomPairing.delete]
  by_cases sampled : key ∈ p.samplePool
  · obtain ⟨left, right, split, found, below, above⟩ := lowerBound_split h.sorted key
    have here := (lowerBound_mem h.sorted).mpr sampled
    rw [if_pos here]
    obtain ⟨rest, rfl⟩ : ∃ rest, right = key :: rest := by
      rw [found, split, List.getElem?_append_right (Nat.le_refl _), Nat.sub_self] at here
      cases right with
      | nil => cases here
      | cons k rest =>
        cases here
        exact ⟨rest, rfl⟩
    have pool : p.samplePool.eraseIdx (lowerBound p.samplePool key) = left ++ rest := by
      rw [found, split, List.eraseIdx_append_of_length_le (Nat.le_refl _), Nat.sub_self]
      rfl
    have sorted := h.sorted
    rw [split] at sorted
    obtain ⟨before, after, apart⟩ := List.pairwise_append.mp sorted
    have remains : (left ++ rest).Pairwise (· < ·) :=
      sorted.sublist ((List.Sublist.refl left).append (List.sublist_cons_self key rest))
    have length : p.samplePool.length = (left ++ rest).length + 1 := by
      rw [split]
      simp only [List.length_append, List.length_cons]
      omega
    have more : (p.c1 + 1).toNat = p.c1.toNat + 1 := by
      rw [UInt32.toNat_add, UInt32.toNat_one, Nat.mod_eq_of_lt (by omega)]
    dsimp only
    rw [pool, checkSorted_eq remains, Option.bind_some, if_pos (by dsimp only; omega)]
    refine ⟨_, rfl, rfl, remains, by simp only [more]; omega, by simp only [more]; omega, ?_⟩
    intro k mem
    refine List.mem_filter.mpr ⟨h.live k ?_, decide_eq_true ?_⟩
    · rw [split]
      rcases List.mem_append.mp mem with mem | mem
      · exact List.mem_append_left _ mem
      · exact List.mem_append_right _ (List.mem_cons_of_mem _ mem)
    · rintro rfl
      rcases List.mem_append.mp mem with mem | mem
      · exact lt_irrefl k (below k mem)
      · exact lt_irrefl k (List.rel_of_pairwise_cons after mem)
  · rw [if_neg fun here => sampled ((lowerBound_mem h.sorted).mp here)]
    have live := h.without sampled (List.Sublist.refl _)
    split
    · exact ⟨p, rfl, rfl, h.sorted, h.room, Nat.le_succ_of_le h.counted, live⟩
    split
    · have more : (p.c2 + 1).toNat = p.c2.toNat + 1 := by
        rw [UInt32.toNat_add, UInt32.toNat_one, Nat.mod_eq_of_lt (by omega)]
      exact ⟨_, rfl, rfl, h.sorted, h.room, by simp only [more]; omega, live⟩
    · rename_i large
      have drawn : uniformInt random dataset.toNat < p.samplePool.length := by
        have small : random % (dataset.toNat + 1) < dataset.toNat + 1 :=
          Nat.mod_lt random (Nat.succ_pos _)
        rw [uniformInt]
        omega
      dsimp only
      rw [if_pos drawn]
      have fewer := List.eraseIdx_sublist p.samplePool (uniformInt random dataset.toNat)
      refine ⟨_, rfl, rfl, h.sorted.sublist fewer, ?_, Nat.le_succ_of_le h.counted,
        h.without sampled fewer⟩
      exact Nat.le_trans (Nat.add_le_add_right fewer.length_le _) h.room

theorem Valid.calls (calls : List (PoolCall K))
    (few : deleted + calls.countP PoolCall.isDelete < 2 ^ 32) :
    ∃ p', calls.foldlM call p = some p' ∧ p'.capacity = p.capacity ∧
      Valid p' (calls.foldl liveKeys keys) (deleted + calls.countP PoolCall.isDelete) := by
  induction calls generalizing p keys deleted with
  | nil => exact ⟨p, rfl, rfl, h⟩
  | cons c calls ih =>
    cases c with
    | insert key dataset random =>
      obtain ⟨p₁, first, same, valid⟩ := h.insert (by omega) key dataset random
      have count : (PoolCall.insert key dataset random :: calls).countP PoolCall.isDelete =
          calls.countP PoolCall.isDelete := List.countP_cons_of_neg Bool.false_ne_true
      rw [count] at few ⊢
      obtain ⟨p₂, rest, same', valid'⟩ := ih valid few
      refine ⟨p₂, ?_, same'.trans same, valid'⟩
      rw [List.foldlM_cons]
      simp only [call, first]
      exact rest
    | delete key dataset random =>
      have count : (PoolCall.delete key dataset random :: calls).countP PoolCall.isDelete =
          calls.countP PoolCall.isDelete + 1 := List.countP_cons_of_pos rfl
      rw [count] at few ⊢
      obtain ⟨p₁, first, same, valid⟩ := h.delete (by omega) key dataset random
      obtain ⟨p₂, rest, same', valid'⟩ := ih valid (by omega)
      refine ⟨p₂, ?_, same'.trans same, ?_⟩
      · rw [List.foldlM_cons]
        simp only [call, first]
        exact rest
      · rw [Nat.add_comm (calls.countP _) 1, ← Nat.add_assoc]
        exact valid'

end

/-- Whatever is drawn, no assertion fails, and the sample is sorted, has no key twice, leaves room for
the deletions to make up for, and has only keys of the table. -/
theorem sample_pool_valid (capacity : UInt32) (calls : List (PoolCall K))
    (few : calls.countP PoolCall.isDelete < 2 ^ 32) :
    ∃ p, calls.foldlM call (new capacity) = some p ∧ p.samplePool.Pairwise (· < ·) ∧
      p.samplePool.length + p.c1.toNat ≤ capacity.toNat ∧
      ∀ key ∈ p.samplePool, key ∈ calls.foldl liveKeys [] := by
  have empty : Valid (new capacity : RandomPairing K) [] 0 :=
    ⟨List.Pairwise.nil, Nat.zero_le _, Nat.le_refl _, fun _ mem => absurd mem List.not_mem_nil⟩
  obtain ⟨p, run, same, valid⟩ := empty.calls calls (by omega)
  refine ⟨p, run, valid.sorted, ?_, valid.live⟩
  have room := valid.room
  rwa [same] at room

theorem sample_pool_valid_three :
    ∃ p : RandomPairing Nat, [PoolCall.insert 5 1 0, .insert 3 2 1, .insert 4 3 0, .delete 4 2 0].foldlM
        call (new 2) = some p ∧ p.samplePool.Pairwise (· < ·) ∧
      p.samplePool.length + p.c1.toNat ≤ 2 ∧
      ∀ key ∈ p.samplePool,
        key ∈ [PoolCall.insert 5 1 0, .insert 3 2 1, .insert 4 3 0, .delete 4 2 0].foldl liveKeys [] :=
  sample_pool_valid 2 _ (by decide)

end

end RandomPairing

end TxService
