import Mathlib.Data.List.Infix
import TxService.ForwardStream

/-!
# What the ring of a primary shard holds

An entry is handed out again only when it has no number or its message is older than the buffer.
-/

namespace TxService

universe u
variable {C : Type u}

namespace PrimaryShard

/-- A numbered entry is free and holds the message of its number, and the last `lag - 1`
messages are in the buffer. -/
structure Kept (lag : Nat) (s : PrimaryShard C) : Prop where
  positive : 0 < s.nextForwardSequenceId
  cursor : s.fwdVecSize = 0 ∨ s.nextForwardIdx < s.fwdVecSize
  beyond : ∀ idx, s.fwdVecSize ≤ idx → s.fwdVec idx = .fresh
  inSync : ∀ idx, (s.fwdVec idx).msg.outOfSync = false
  numbered : ∀ idx k, (s.fwdVec idx).sequenceId = some k → k < s.nextForwardSequenceId ∧
    (s.fwdVec idx).inUse = false ∧ (s.fwdVec idx).msg = s.message k
  window : ∀ k, 0 < k → k < s.nextForwardSequenceId → s.nextForwardSequenceId - k < lag →
    ∃ idx, s.fwdedMsgBuffer (k % lag) = some idx ∧ (s.fwdVec idx).sequenceId = some k

section
variable {lag : Nat} {s : PrimaryShard C}

theorem Kept.initial : Kept lag (PrimaryShard.initial lag : PrimaryShard C) where
  positive := Nat.one_pos
  cursor := Nat.eq_zero_or_pos lag
  beyond _ _ := rfl
  inSync _ := rfl
  numbered := by
    intro idx k h
    cases h
  window := by
    intro k pos lt
    have : k < 1 := lt
    omega

variable {k : Nat} {idx : Nat}

theorem Kept.buffered (h : Kept lag s) {msg : StandbyForwardRequest C}
    (hk : s.buffered lag k = some msg) : msg = s.message k := by
  obtain ⟨idx, -, hmsg⟩ := Option.bind_eq_some_iff.mp hk
  split at hmsg
  · next here =>
    cases hmsg
    exact (h.numbered idx k here.2).2.2
  · cases hmsg

theorem Kept.lt_size_of_inUse (h : Kept lag s) (used : (s.fwdVec idx).inUse = true) :
    idx < s.fwdVecSize := by
  by_contra beyond
  rw [h.beyond idx (Nat.not_lt.mp beyond)] at used
  cases used

theorem Kept.unnumbered_of_inUse (h : Kept lag s) (used : (s.fwdVec idx).inUse = true) :
    (s.fwdVec idx).sequenceId = none := by
  cases e : (s.fwdVec idx).sequenceId with
  | none => rfl
  | some k => exact absurd used (by rw [(h.numbered idx k e).2.1]; decide)

/-- An entry that is not in the window may be replaced by one without a number. -/
theorem Kept.setEntry (h : Kept lag s) {e : StandbyForwardEntry C} (inside : idx < s.fwdVecSize)
    (old : ∀ k, (s.fwdVec idx).sequenceId = some k → lag ≤ s.nextForwardSequenceId - k)
    (unnumbered : e.sequenceId = none) (inSync : e.msg.outOfSync = false) :
    Kept lag { s with fwdVec := Function.update s.fwdVec idx e } where
  positive := h.positive
  cursor := h.cursor
  beyond := by
    intro i hi
    have : s.fwdVecSize ≤ i := hi
    show Function.update s.fwdVec idx e i = .fresh
    rw [Function.update_of_ne (by omega)]
    exact h.beyond i hi
  inSync := by
    intro i
    show (Function.update s.fwdVec idx e i).msg.outOfSync = false
    by_cases here : i = idx
    · rw [here, Function.update_self]
      exact inSync
    · rw [Function.update_of_ne here]
      exact h.inSync i
  numbered := by
    intro i k hk
    have hk : (Function.update s.fwdVec idx e i).sequenceId = some k := hk
    by_cases here : i = idx
    · rw [here, Function.update_self, unnumbered] at hk
      cases hk
    · rw [Function.update_of_ne here] at hk
      show k < s.nextForwardSequenceId ∧ (Function.update s.fwdVec idx e i).inUse = false ∧
        (Function.update s.fwdVec idx e i).msg = s.message k
      rw [Function.update_of_ne here]
      exact h.numbered i k hk
  window := by
    intro k pos lt close
    obtain ⟨i, hi, hk⟩ := h.window k pos lt close
    have other : i ≠ idx := by
      rintro rfl
      exact absurd close (Nat.not_lt.mpr (old k hk))
    refine ⟨i, hi, ?_⟩
    show (Function.update s.fwdVec idx e i).sequenceId = some k
    rw [Function.update_of_ne other]
    exact hk

theorem available_old (h : s.available lag idx = true) :
    ∀ k, (s.fwdVec idx).sequenceId = some k → lag ≤ s.nextForwardSequenceId - k := by
  intro k hk
  rw [available, hk, Bool.and_eq_true] at h
  exact of_decide_eq_true h.2

theorem findAvailable_spec {cnt idx found : Nat} (inside : idx < s.fwdVecSize)
    (h : s.findAvailable lag cnt idx = some found) :
    found < s.fwdVecSize ∧ s.available lag found = true := by
  induction cnt generalizing idx with
  | zero => cases h
  | succ cnt ih =>
    simp only [findAvailable] at h
    split at h
    · next here =>
      cases h
      exact ⟨inside, here⟩
    · refine ih ?_ h
      split
      · omega
      · omega

theorem Kept.take (h : Kept lag s) (inside : idx < s.fwdVecSize)
    (old : ∀ k, (s.fwdVec idx).sequenceId = some k → lag ≤ s.nextForwardSequenceId - k) :
    Kept lag (s.take idx) := by
  have set := h.setEntry (e := (s.fwdVec idx).reset) inside old rfl rfl
  refine ⟨set.positive, Or.inr ?_, set.beyond, set.inSync, set.numbered, set.window⟩
  show (if idx + 1 = s.fwdVecSize then 0 else idx + 1) < s.fwdVecSize
  split
  · omega
  · omega

theorem Kept.grow (h : Kept lag s) : Kept lag s.grow := by
  have same : s.grow.fwdVec = s.fwdVec := by
    funext idx
    show (if s.fwdVecSize ≤ idx then .fresh else s.fwdVec idx) = s.fwdVec idx
    split
    · next beyond => exact (h.beyond idx beyond).symm
    · rfl
  have larger : s.fwdVecSize ≤ s.grow.fwdVecSize := by
    show s.fwdVecSize ≤ s.fwdVecSize * 3 / 2
    omega
  have cursor : s.grow.fwdVecSize = 0 ∨ s.nextForwardIdx < s.grow.fwdVecSize := by
    have := h.cursor
    have : s.grow.fwdVecSize = s.fwdVecSize * 3 / 2 := rfl
    omega
  have numbered : ∀ idx k, (s.grow.fwdVec idx).sequenceId = some k → k < s.nextForwardSequenceId ∧
      (s.grow.fwdVec idx).inUse = false ∧ (s.grow.fwdVec idx).msg = s.message k :=
    same ▸ h.numbered
  refine ⟨h.positive, cursor, fun idx hidx => ?_, same ▸ h.inSync, numbered, same ▸ h.window⟩
  rw [same]
  exact h.beyond idx (Nat.le_trans larger hidx)

theorem Kept.getNext (h : Kept lag s) {t : PrimaryShard C}
    (ht : s.getNextStandbyForwardEntry lag = some t) : Kept lag t := by
  unfold getNextStandbyForwardEntry at ht
  split at ht
  · next idx found =>
    cases ht
    have inside : s.nextForwardIdx < s.fwdVecSize := by
      refine h.cursor.resolve_left fun empty => ?_
      rw [empty] at found
      cases found
    obtain ⟨lt, ready⟩ := findAvailable_spec inside found
    exact h.take lt (available_old ready)
  · split at ht
    · next larger =>
      cases ht
      refine h.grow.take larger fun k hk => ?_
      have fresh : s.grow.fwdVec s.fwdVecSize = .fresh := if_pos (Nat.le_refl _)
      rw [fresh] at hk
      cases hk
    · cases ht

theorem Kept.write (h : Kept lag s) {payload : C} (used : (s.fwdVec idx).inUse = true) :
    Kept lag (s.write idx payload) := by
  have unnumbered := h.unnumbered_of_inUse used
  refine h.setEntry (h.lt_size_of_inUse used) (fun k hk => ?_) unnumbered (h.inSync idx)
  rw [unnumbered] at hk
  cases hk

theorem Kept.free (h : Kept lag s) (used : (s.fwdVec idx).inUse = true) :
    Kept lag (s.free idx) := by
  have unnumbered := h.unnumbered_of_inUse used
  refine h.setEntry (h.lt_size_of_inUse used) (fun k hk => ?_) unnumbered (h.inSync idx)
  rw [unnumbered] at hk
  cases hk

theorem message_forward (s : PrimaryShard C) (idx : Nat) (succ : Nat → Bool)
    (lt : k < s.nextForwardSequenceId) :
    (s.forwardStandbyMessage lag idx succ).message k = s.message k := by
  show (⟨some k, false, Function.update s.forwarded s.nextForwardSequenceId
    (s.fwdVec idx).msg.payload k⟩ : StandbyForwardRequest C) = s.message k
  rw [Function.update_of_ne (Nat.ne_of_lt lt)]
  rfl

/-- The message that is sent is the one that counts as forwarded. -/
theorem Kept.message_sent (h : Kept lag s) (idx : Nat) (succ : Nat → Bool) :
    { (s.fwdVec idx).msg with forwardSeqId := some s.nextForwardSequenceId } =
      (s.forwardStandbyMessage lag idx succ).message s.nextForwardSequenceId := by
  show (⟨some _, (s.fwdVec idx).msg.outOfSync, (s.fwdVec idx).msg.payload⟩ :
    StandbyForwardRequest C) = ⟨some _, false, Function.update s.forwarded s.nextForwardSequenceId
      (s.fwdVec idx).msg.payload s.nextForwardSequenceId⟩
  rw [h.inSync idx, Function.update_self]

theorem mod_ne_of_close {k n : Nat} (lt : k < n) (close : n - k < lag) : k % lag ≠ n % lag := by
  intro same
  have zero := Nat.sub_mod_eq_zero_of_mod_eq same.symm
  rw [Nat.mod_eq_of_lt close] at zero
  omega

theorem Kept.forward (h : Kept lag s) {succ : Nat → Bool} (used : (s.fwdVec idx).inUse = true) :
    Kept lag (s.forwardStandbyMessage lag idx succ) := by
  have inside := h.lt_size_of_inUse used
  have unnumbered := h.unnumbered_of_inUse used
  have sent := h.message_sent idx succ
  have here : (s.forwardStandbyMessage lag idx succ).fwdVec idx = ⟨false,
      some s.nextForwardSequenceId,
      { (s.fwdVec idx).msg with forwardSeqId := some s.nextForwardSequenceId }⟩ :=
    Function.update_self ..
  have other : ∀ i, i ≠ idx → (s.forwardStandbyMessage lag idx succ).fwdVec i = s.fwdVec i :=
    fun i hi => Function.update_of_ne hi ..
  refine ⟨Nat.succ_pos _, h.cursor, fun i hi => ?_, fun i => ?_, fun i k hk => ?_,
    fun k pos lt close => ?_⟩
  · have : s.fwdVecSize ≤ i := hi
    rw [other i (by omega)]
    exact h.beyond i hi
  · by_cases hi : i = idx
    · rw [hi, here]
      exact h.inSync idx
    · rw [other i hi]
      exact h.inSync i
  · by_cases hi : i = idx
    · rw [hi, here] at hk ⊢
      cases hk
      exact ⟨Nat.lt_succ_self _, rfl, sent⟩
    · rw [other i hi] at hk ⊢
      obtain ⟨lt, free, msg⟩ := h.numbered i k hk
      exact ⟨Nat.lt_succ_of_lt lt, free, msg.trans (message_forward s idx succ lt).symm⟩
  · have lt : k < s.nextForwardSequenceId + 1 := lt
    have close : s.nextForwardSequenceId + 1 - k < lag := close
    by_cases last : k = s.nextForwardSequenceId
    · subst last
      exact ⟨idx, Function.update_self .., by rw [here]⟩
    · obtain ⟨i, hi, hk⟩ := h.window k pos (by omega) (by omega)
      have free : i ≠ idx := by
        rintro rfl
        rw [unnumbered] at hk
        cases hk
      have place : k % lag ≠ s.nextForwardSequenceId % lag :=
        mod_ne_of_close (by omega) (by omega)
      exact ⟨i, (Function.update_of_ne place ..).trans hi, by rw [other i free]; exact hk⟩

theorem messages_congr {t : PrimaryShard C} {start n : Nat}
    (bound : n = 0 ∨ start + n ≤ s.nextForwardSequenceId)
    (same : ∀ k, k < s.nextForwardSequenceId → t.message k = s.message k) :
    t.messages start n = s.messages start n := by
  refine List.map_congr_left fun k hk => same k ?_
  rw [List.mem_range'_1] at hk
  omega

theorem messages_succ (s : PrimaryShard C) (start n : Nat) :
    s.messages start (n + 1) = s.messages start n ++ [s.message (start + n)] := by
  rw [messages, List.range'_1_concat, List.map_append]
  rfl

end

end PrimaryShard

end TxService
