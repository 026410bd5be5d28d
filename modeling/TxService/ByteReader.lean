import Mathlib.Algebra.GroupWithZero.Nat
import Mathlib.Data.List.Flatten
import Mathlib.Data.List.Forall2

/-!
# Readers of byte strings

A reader takes a value off the front of some bytes and fails when it would read past their end.
Numbers are little-endian of a fixed width.
-/

namespace TxService.ByteReader

abbrev Bytes := List UInt8

abbrev Reader := StateT Bytes Option

/-- The low bytes of a number, the lowest first. -/
def natLE : Nat → Nat → Bytes
  | 0, _ => []
  | width + 1, n => UInt8.ofNat (n % 256) :: natLE width (n / 256)

/-- How many numbers so many bytes can hold. -/
def capacity : Nat → Nat
  | 0 => 1
  | width + 1 => 256 * capacity width

def readByte : Reader UInt8 := fun
  | [] => none
  | b :: rest => some (b, rest)

theorem readByte_cons (b : UInt8) (rest : Bytes) : readByte.run (b :: rest) = some (b, rest) := rfl

def readLE : Nat → Reader Nat
  | 0 => pure 0
  | width + 1 => do
    let low ← readByte
    let high ← readLE width
    pure (low.toNat + 256 * high)

def readBytes (n : Nat) : Reader Bytes := fun bytes =>
  if bytes.length < n then none else some (bytes.take n, bytes.drop n)

/-- Moves on without looking, also past the end. -/
def skipBytes (n : Nat) : Reader Unit := fun bytes => some ((), bytes.drop n)

variable {α β : Type}

def readMany (r : Reader α) : Nat → Reader (List α)
  | 0 => pure []
  | n + 1 => do
    let a ← r
    let as ← readMany r n
    pure (a :: as)

/-- Reads until no bytes are left, at most so many times. -/
def readUpTo (r : Reader α) : Nat → Bytes → Option (List α)
  | _, [] => some []
  | 0, _ :: _ => none
  | n + 1, b :: bytes =>
    match r.run (b :: bytes) with
    | none => none
    | some (a, rest) => (readUpTo r n rest).map (a :: ·)

/-- A reader that takes something each time is done after as many reads as there are bytes. -/
def readAll (r : Reader α) (bytes : Bytes) : Option (List α) :=
  readUpTo r bytes.length bytes

/-- Reserves a length field, appends what it counts and then writes the length over it. -/
def withLength (width : Nat) (blob : Bytes) (append : Bytes → Bytes) : Bytes :=
  let filled := append (blob ++ natLE width 0)
  let length := filled.length - blob.length - width
  filled.take blob.length ++ natLE width length ++ filled.drop (blob.length + width)

def Reads (r : Reader α) (bytes : Bytes) (a : α) : Prop :=
  ∀ tail, r.run (bytes ++ tail) = some (a, tail)

def Local (r : Reader α) : Prop :=
  ∀ bytes a rest more, r.run bytes = some (a, rest) →
    r.run (bytes ++ more) = some (a, rest ++ more)

/-- Values that are read back whatever follows them. -/
structure Codec (α : Type) where
  encode : α → Bytes
  read : Reader α
  reads : ∀ a, Reads read (encode a) a
  readsLocally : Local read

theorem run_bind (r : Reader α) (f : α → Reader β) (bytes : Bytes) :
    (r >>= f).run bytes = (r.run bytes).bind fun p => (f p.1).run p.2 := rfl

section
variable {r : Reader α} {f : α → Reader β} {bytes more : Bytes} {a : α} {b : β}

theorem Reads.pure (a : α) : Reads (Pure.pure a) [] a := fun _ => rfl

theorem Reads.bind (h : Reads r bytes a) (next : Reads (f a) more b) :
    Reads (r >>= f) (bytes ++ more) b := by
  intro tail
  rw [run_bind, List.append_assoc, h]
  exact next tail

theorem Reads.map {g : α → β} (h : Reads r bytes a) :
    Reads (r >>= fun x => Pure.pure (g x)) bytes (g a) := by
  intro tail
  rw [run_bind, h]
  rfl

theorem run_bind_some {rest : Bytes} (h : (r >>= f).run bytes = some (b, rest)) :
    ∃ a mid, r.run bytes = some (a, mid) ∧ (f a).run mid = some (b, rest) := by
  rw [run_bind] at h
  obtain ⟨⟨a, mid⟩, first, second⟩ := Option.bind_eq_some_iff.mp h
  exact ⟨a, mid, first, second⟩

theorem Reads.run_bind (h : Reads r bytes a) (tail : Bytes) :
    (r >>= f).run (bytes ++ tail) = (f a).run tail := by
  rw [ByteReader.run_bind, h]
  rfl

theorem Local.pure (a : α) : Local (Pure.pure a : Reader α) := by
  intro bytes b rest more h
  cases h
  rfl

theorem Local.bind (h : Local r) (next : ∀ a, Local (f a)) : Local (r >>= f) := by
  intro bytes b rest more found
  obtain ⟨a, mid, first, second⟩ := run_bind_some found
  rw [ByteReader.run_bind, h bytes a mid more first]
  exact next a mid b rest more second

theorem lift_local (value : Option α) : Local (StateT.lift value : Reader α) := by
  intro bytes a rest more h
  cases value with
  | none => cases h
  | some b =>
    cases h
    rfl

theorem readByte_local : Local readByte := by
  intro bytes a rest more h
  cases bytes with
  | nil => cases h
  | cons b bytes =>
    cases h
    rfl

theorem readLE_local (width : Nat) : Local (readLE width) := by
  induction width with
  | zero => exact Local.pure 0
  | succ width ih => exact readByte_local.bind fun _ => ih.bind fun _ => Local.pure _

theorem readBytes_local (n : Nat) : Local (readBytes n) := by
  intro bytes a rest more h
  simp only [readBytes, StateT.run] at h ⊢
  by_cases short : bytes.length < n
  · simp [short] at h
  · simp only [if_neg short, Option.some.injEq, Prod.mk.injEq] at h
    obtain ⟨rfl, rfl⟩ := h
    have enough : ¬ (bytes ++ more).length < n := by
      rw [List.length_append]
      omega
    rw [if_neg enough, List.take_append_of_le_length (by omega),
      List.drop_append_of_le_length (by omega)]

theorem readMany_local (h : Local r) (n : Nat) : Local (readMany r n) := by
  induction n with
  | zero => exact Local.pure []
  | succ n ih => exact h.bind fun _ => ih.bind fun _ => Local.pure _

end

@[simp] theorem length_natLE (width n : Nat) : (natLE width n).length = width := by
  induction width generalizing n with
  | zero => rfl
  | succ width ih => rw [natLE, List.length_cons, ih]

theorem withLength_append {width : Nat} {blob body : Bytes} {append : Bytes → Bytes}
    (appends : ∀ start, append start = start ++ body) :
    withLength width blob append = blob ++ natLE width body.length ++ body := by
  have length : (blob ++ natLE width 0 ++ body).length - blob.length - width = body.length := by
    simp only [List.length_append, length_natLE]
    omega
  simp only [withLength, appends, length]
  have front : (blob ++ natLE width 0 ++ body).take blob.length = blob := by
    rw [List.append_assoc, List.take_left]
  have back : (blob ++ natLE width 0 ++ body).drop (blob.length + width) = body := by
    apply List.drop_left'
    rw [List.length_append, length_natLE]
  rw [front, back]

theorem reads_byte (b : UInt8) : Reads readByte [b] b := readByte_cons b

/-- A number that is too large for its width comes back reduced. -/
theorem reads_natLE (width n : Nat) : Reads (readLE width) (natLE width n) (n % capacity width) := by
  induction width generalizing n with
  | zero =>
    rw [capacity, Nat.mod_one]
    exact Reads.pure 0
  | succ width ih =>
    have value : (UInt8.ofNat (n % 256)).toNat + 256 * (n / 256 % capacity width) =
        n % capacity (width + 1) := by
      rw [capacity, Nat.mod_mul, UInt8.toNat_ofNat']
      simp
    rw [← value]
    exact (reads_byte _).bind (ih (n / 256)).map

/-- One byte. -/
def Codec.byte : Codec UInt8 where
  encode b := [b]
  read := readByte
  reads := reads_byte
  readsLocally := readByte_local

theorem reads_bytes (bytes : Bytes) : Reads (readBytes bytes.length) bytes bytes := by
  intro tail
  simp [readBytes, StateT.run]

theorem reads_skip (bytes : Bytes) : Reads (skipBytes bytes.length) bytes () := by
  intro tail
  simp [skipBytes, StateT.run]

/-- Whoever reads bytes back by a length that may have been cut has read all of them. -/
theorem readBytes_exact {n : Nat} {bytes tail rest : Bytes} (le : n ≤ bytes.length)
    (h : (readBytes n).run (bytes ++ tail) = some (bytes, rest)) : rest = tail := by
  have enough : ¬ (bytes ++ tail).length < n := by
    rw [List.length_append]
    omega
  simp only [readBytes, StateT.run, if_neg enough, Option.some.injEq, Prod.mk.injEq] at h
  have all : n = bytes.length := by
    have length := congrArg List.length h.1
    rwa [List.length_take_of_le (by omega)] at length
  rw [← h.2, all, List.drop_left]

variable {r : Reader α} {as : List α}

theorem length_encode_le (encode : α → Bytes) {a : α} (mem : a ∈ as) :
    (encode a).length ≤ (as.flatMap encode).length := by
  have sub := (List.Sublist.flatMap (List.singleton_sublist.mpr mem) encode).length_le
  rwa [List.flatMap_singleton] at sub

theorem reads_many {encode : β → Bytes} {value : β → α} {xs : List β}
    (h : ∀ x ∈ xs, Reads r (encode x) (value x)) :
    Reads (readMany r xs.length) (xs.flatMap encode) (xs.map value) := by
  induction xs with
  | nil => exact Reads.pure []
  | cons x xs ih =>
    exact (h x List.mem_cons_self).bind (ih fun y hy => h y (List.mem_cons_of_mem _ hy)).map

theorem readMany_length {n : Nat} {bytes rest : Bytes}
    (h : (readMany r n).run bytes = some (as, rest)) : as.length = n := by
  induction n generalizing bytes as with
  | zero =>
    cases h
    rfl
  | succ n ih =>
    obtain ⟨a, mid, _, h⟩ := run_bind_some h
    obtain ⟨as', mid', found, h⟩ := run_bind_some h
    cases h
    rw [List.length_cons, ih found]

/-- If each element read back leaves what follows it, so do all of them. -/
theorem readMany_exact {encode : α → Bytes} {tail rest : Bytes}
    (exactly : ∀ a tail rest, r.run (encode a ++ tail) = some (a, rest) → rest = tail)
    (h : (readMany r as.length).run (as.flatMap encode ++ tail) = some (as, rest)) :
    rest = tail := by
  induction as with
  | nil =>
    cases h
    rfl
  | cons a as ih =>
    rw [List.flatMap_cons, List.append_assoc] at h
    obtain ⟨b, mid, first, h⟩ := run_bind_some h
    obtain ⟨bs, after, others, h⟩ := run_bind_some h
    cases h
    rw [exactly a _ _ first] at others
    exact ih others

section
variable {r : Reader α} {encode : β → Bytes} {value : β → α} {xs : List β} {n : Nat} {as : List α}

theorem readUpTo_flatMap (reads : ∀ x ∈ xs, Reads r (encode x) (value x))
    (nonempty : ∀ x, encode x ≠ []) (enough : (xs.flatMap encode).length ≤ n) :
    readUpTo r n (xs.flatMap encode) = some (xs.map value) := by
  induction xs generalizing n with
  | nil => cases n <;> rfl
  | cons x xs ih =>
    have first := reads x List.mem_cons_self (xs.flatMap encode)
    rw [List.flatMap_cons] at enough ⊢
    obtain ⟨b, bytes, cons⟩ := List.exists_cons_of_ne_nil (nonempty x)
    rw [List.length_append] at enough
    rw [cons, List.cons_append] at first ⊢
    rw [cons, List.length_cons] at enough
    obtain ⟨n, rfl⟩ : ∃ m, n = m + 1 := ⟨n - 1, by omega⟩
    rw [readUpTo, first]
    simp only
    rw [ih (fun y hy => reads y (List.mem_cons_of_mem _ hy)) (by omega)]
    rfl

theorem readAll_flatMap (reads : ∀ x ∈ xs, Reads r (encode x) (value x))
    (nonempty : ∀ x, encode x ≠ []) :
    readAll r (xs.flatMap encode) = some (xs.map value) :=
  readUpTo_flatMap reads nonempty (Nat.le_refl _)

theorem readUpTo_cons {bytes : Bytes} {a : α} (h : readUpTo r n bytes = some (a :: as)) :
    ∃ m rest, r.run bytes = some (a, rest) ∧ readUpTo r m rest = some as := by
  cases bytes with
  | nil => cases n <;> cases h
  | cons b bytes =>
    cases n with
    | zero => cases h
    | succ n =>
      rw [readUpTo] at h
      cases found : r.run (b :: bytes) with
      | none =>
        rw [found] at h
        cases h
      | some p =>
        rw [found] at h
        obtain ⟨as', rest, eq⟩ := Option.map_eq_some_iff.mp h
        cases eq
        exact ⟨n, p.2, rfl, rest⟩

theorem readUpTo_forall {P : α → Prop} {bytes : Bytes}
    (each : ∀ bytes a rest, r.run bytes = some (a, rest) → P a) (h : readUpTo r n bytes = some as) :
    ∀ a ∈ as, P a := by
  induction as generalizing n bytes with
  | nil => simp
  | cons a as ih =>
    obtain ⟨m, rest, first, others⟩ := readUpTo_cons h
    intro b mem
    cases mem with
    | head => exact each _ _ _ first
    | tail _ mem => exact ih others b mem

/-- Whoever reads all values back from the first bytes of an encoding has read it whole. -/
theorem readUpTo_take {good : β → α → Prop} {fits : β → Prop} {n m : Nat} (loc : Local r)
    (exactly : ∀ x a tail rest, good x a → r.run (encode x ++ tail) = some (a, rest) →
      fits x ∧ rest = tail) (h : readUpTo r n ((xs.flatMap encode).take m) = some as)
    (all : List.Forall₂ good xs as) :
    (xs.flatMap encode).length ≤ m ∧ ∀ x ∈ xs, fits x := by
  induction all generalizing n m with
  | nil => simp
  | @cons x a xs as matched _ ih =>
    obtain ⟨n, rest, first, others⟩ := readUpTo_cons h
    have whole := loc _ _ _ (((x :: xs).flatMap encode).drop m) first
    rw [List.take_append_drop, List.flatMap_cons] at whole
    obtain ⟨fits, eq⟩ := exactly x a _ _ matched whole
    -- what is left of the window is the window of what is left
    have left : rest = (xs.flatMap encode).take rest.length := by
      rw [← eq, List.take_left]
    rw [left] at others
    obtain ⟨covered, all⟩ := ih others
    constructor
    · have dropped : (((x :: xs).flatMap encode).drop m).length = 0 := by
        have := congrArg List.length eq
        rw [List.length_append] at this
        rw [List.flatMap_cons]
        omega
      rw [List.length_drop] at dropped
      omega
    · intro y hy
      cases hy with
      | head => exact fits
      | tail _ hy => exact all y hy

theorem readAll_exact {good : β → α → Prop} {fits : β → Prop} (loc : Local r)
    (exactly : ∀ x a tail rest, good x a → r.run (encode x ++ tail) = some (a, rest) →
      fits x ∧ rest = tail) (h : readAll r (xs.flatMap encode) = some as)
    (all : List.Forall₂ good xs as) :
    ∀ x ∈ xs, fits x := by
  rw [readAll, ← (List.take_length : (xs.flatMap encode).take _ = _)] at h
  exact (readUpTo_take loc exactly h all).2

end

theorem filterMap_select (p : β → Bool) (f : β → α) (xs : List β) :
    (xs.map fun x => if p x then some (f x) else none).filterMap id = (xs.filter p).map f := by
  induction xs with
  | nil => rfl
  | cons x xs ih =>
    rw [List.map_cons, List.filterMap_cons, ih]
    cases taken : p x <;> simp [taken]

theorem eq_map_some_of_filterMap {found : List (Option α)} (all : ∀ a ∈ found, a.isSome)
    (h : found.filterMap id = as) : found = as.map some := by
  subst h
  induction found with
  | nil => rfl
  | cons a found ih =>
    obtain ⟨b, rfl⟩ := Option.isSome_iff_exists.mp (all a List.mem_cons_self)
    have others := ih fun c mem => all c (List.mem_cons_of_mem _ mem)
    rw [List.filterMap_cons]
    simpa using others

end TxService.ByteReader
