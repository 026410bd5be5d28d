import Mathlib.Data.BitVec

/-!
# A number above flag bits

Setting or clearing flags in the low bits does not change the number or the other flags.
-/

namespace TxService.PackedWord

variable {w k : Nat} {x m n : BitVec w}

theorem low_bit (low : m.toNat < 2 ^ k) {i : Nat} (above : k ≤ i) : m.getLsbD i = false :=
  Nat.testBit_lt_two_pow (low.trans_le (Nat.pow_le_pow_right Nat.two_pos above))

theorem low_shift (low : m.toNat < 2 ^ k) : m >>> k = 0#w := by
  ext i hi
  simp [low_bit low (Nat.le_add_right k i)]

theorem or_shift (low : m.toNat < 2 ^ k) : (x ||| m) >>> k = x >>> k := by
  rw [BitVec.ushiftRight_or_distrib, low_shift low, BitVec.or_zero]

theorem and_not_shift (low : m.toNat < 2 ^ k) : (x &&& ~~~m) >>> k = x >>> k := by
  ext i hi
  have above : m.getLsbD (k + i) = false := low_bit low (Nat.le_add_right k i)
  simp only [BitVec.getElem_ushiftRight, BitVec.getLsbD_and, BitVec.getLsbD_not, above]
  by_cases inside : k + i < w
  · simp [inside]
  · simp [BitVec.getLsbD_of_ge x (k + i) (Nat.not_lt.mp inside)]

theorem pack_shift (fits : x.toNat * 2 ^ k < 2 ^ w) (low : m.toNat < 2 ^ k) :
    (x <<< k ||| m) >>> k = x := by
  rw [or_shift low]
  apply BitVec.eq_of_toNat_eq
  rw [BitVec.toNat_ushiftRight, BitVec.toNat_shiftLeft, Nat.shiftLeft_eq, Nat.mod_eq_of_lt fits,
    Nat.shiftRight_eq_div_pow, Nat.mul_div_cancel _ (Nat.two_pow_pos k)]

theorem pack_and (low : n.toNat < 2 ^ k) : (x <<< k ||| m) &&& n = m &&& n := by
  have apart : x <<< k &&& n = 0#w := by
    ext i hi
    rw [BitVec.getElem_and, BitVec.getElem_shiftLeft]
    by_cases below : i < k
    · simp [below]
    · have absent : n.getLsbD i = false := low_bit low (Nat.not_lt.mp below)
      rw [BitVec.getLsbD_eq_getElem hi] at absent
      simp [absent]
  rw [BitVec.and_or_distrib_right, apart, BitVec.zero_or]

theorem or_and_apart (apart : m &&& n = 0#w) : (x ||| m) &&& n = x &&& n := by
  rw [BitVec.and_or_distrib_right, apart, BitVec.or_zero]

theorem and_not_and_apart (apart : m &&& n = 0#w) : (x &&& ~~~m) &&& n = x &&& n := by
  have outside : ~~~m &&& n = n := by
    ext i hi
    have absent : (m &&& n)[i] = false := by simp [apart]
    rw [BitVec.getElem_and] at absent
    rw [BitVec.getElem_and, BitVec.getElem_not]
    cases hn : n[i] <;> simp_all
  rw [BitVec.and_assoc, outside]

theorem or_and_self : (x ||| m) &&& m = m := by
  ext i hi
  cases hm : m[i] <;> simp [hm]

end TxService.PackedWord
