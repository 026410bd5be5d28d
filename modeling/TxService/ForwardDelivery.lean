import TxService.ForwardRing

/-!
# What a standby is sent

A standby gets the forwarded messages one after the other from its subscription on, until it
has all of them or is told that it is out of sync.
-/

namespace TxService

open Transition

universe u
variable {C : Type u}

namespace Subscriber
variable {lag : Nat} {s t : PrimaryShard C} {sub : Subscriber C}

theorem InStep.frame (h : sub.InStep s)
    (later : s.nextForwardSequenceId ≤ t.nextForwardSequenceId)
    (same : ∀ k, k < s.nextForwardSequenceId → t.message k = s.message k) : sub.InStep t := by
  obtain ⟨n, bound, h⟩ := h
  refine ⟨n, by omega, ?_⟩
  rw [PrimaryShard.messages_congr bound same]
  exact h

theorem InStep.send (h : sub.InStep s) {last : Nat} (hlast : sub.lastSentSeqId = some last)
    (lt : last + 1 < s.nextForwardSequenceId) :
    { sub with lastSentSeqId := some (last + 1),
               stream := sub.stream ++ [s.message (last + 1)] }.InStep s := by
  obtain ⟨n, bound, h⟩ := h
  rw [hlast] at h
  refine ⟨n + 1, Or.inr ?_, ?_, ?_⟩
  · show sub.startSeqId + (n + 1) ≤ s.nextForwardSequenceId
    omega
  · show last + 1 + 1 = sub.startSeqId + (n + 1)
    omega
  · show sub.stream ++ [s.message (last + 1)] = s.messages sub.startSeqId (n + 1)
    rw [s.messages_succ, h.2, h.1]

theorem InStep.outOfSync (h : sub.InStep s) {last : Nat} (hlast : sub.lastSentSeqId = some last)
    (id : Nat) :
    { sub with lastSentSeqId := none,
               stream := sub.stream ++ [PrimaryShard.outOfSyncMessage id] }.InStep s := by
  obtain ⟨n, bound, h⟩ := h
  rw [hlast] at h
  refine ⟨n, bound, Or.inr ⟨id, ?_⟩⟩
  show sub.stream ++ [PrimaryShard.outOfSyncMessage id] = _
  rw [h.2]

theorem InStep.unsubscribe (h : sub.InStep s) :
    { sub with lastSentSeqId := none, unsubscribed := true }.InStep s := by
  obtain ⟨n, bound, h⟩ := h
  refine ⟨n, bound, ?_⟩
  cases e : sub.lastSentSeqId with
  | some last =>
    rw [e] at h
    exact Or.inl ⟨h.2, rfl⟩
  | none =>
    rw [e] at h
    rcases h with h | h
    · exact Or.inl ⟨h.1, rfl⟩
    · exact Or.inr h

theorem InStep.start (s : PrimaryShard C) {nodeId startSeqId : Nat} (positive : 0 < startSeqId)
    (term : Int) :
    (⟨nodeId, some (startSeqId - 1), term, startSeqId, [], false⟩ : Subscriber C).InStep s := by
  refine ⟨0, Or.inl rfl, ?_, rfl⟩
  show startSeqId - 1 + 1 = startSeqId + 0
  omega

theorem InStep.resendTo (kept : s.Kept lag) (succ : Nat → Bool) (left : Nat) (h : sub.InStep s) :
    (s.resendTo lag succ left sub).InStep s := by
  induction left generalizing sub with
  | zero => exact h
  | succ left ih =>
    simp only [PrimaryShard.resendTo]
    split
    · exact h
    · next last hlast =>
      split
      · next lt =>
        split
        · next msg hmsg =>
          split
          · rw [kept.buffered hmsg]
            exact ih (h.send hlast (by omega))
          · exact h
        · exact h.outOfSync hlast _
      · exact h

end Subscriber

namespace PrimaryShard

/-- The ring is in order and so is what every standby was sent. -/
structure Sound (lag : Nat) (s : PrimaryShard C) : Prop where
  kept : Kept lag s
  inStep : ∀ sub ∈ s.subscribed, sub.InStep s

section
variable {lag : Nat} {s t : PrimaryShard C}

theorem Sound.frame (h : Sound lag s) (kept : Kept lag t)
    (next : t.nextForwardSequenceId = s.nextForwardSequenceId)
    (forwarded : t.forwarded = s.forwarded) (subscribed : t.subscribed = s.subscribed) :
    Sound lag t := by
  refine ⟨kept, fun sub hsub => ?_⟩
  refine (h.inStep sub (subscribed ▸ hsub)).frame next.ge fun k _ => ?_
  rw [message, message, forwarded]

theorem getNext_frame (ht : s.getNextStandbyForwardEntry lag = some t) :
    t.nextForwardSequenceId = s.nextForwardSequenceId ∧ t.forwarded = s.forwarded ∧
      t.subscribed = s.subscribed := by
  unfold getNextStandbyForwardEntry at ht
  split at ht
  · cases ht
    exact ⟨rfl, rfl, rfl⟩
  · split at ht
    · cases ht
      exact ⟨rfl, rfl, rfl⟩
    · cases ht

theorem Sound.forward (h : Sound lag s) {idx : Nat} {succ : Nat → Bool}
    (used : (s.fwdVec idx).inUse = true) : Sound lag (s.forwardStandbyMessage lag idx succ) := by
  refine ⟨h.kept.forward used, fun sub hsub => ?_⟩
  obtain ⟨old, hold, rfl⟩ := List.mem_map.mp hsub
  have still : old.InStep (s.forwardStandbyMessage lag idx succ) :=
    (h.inStep old hold).frame (Nat.le_succ _) fun k lt => message_forward s idx succ lt
  unfold sendTo
  split
  · next reached =>
    have positive := h.kept.positive
    have number : s.nextForwardSequenceId - 1 + 1 = s.nextForwardSequenceId := by omega
    have sent := still.send reached.1 (by rw [number]; exact Nat.lt_succ_self _)
    rw [number, ← h.kept.message_sent idx succ] at sent
    exact sent
  · exact still

theorem Sound.resend (h : Sound lag s) (succ : Nat → Nat → Bool) :
    Sound lag (s.resendFailedForwardMessages lag succ) := by
  refine ⟨⟨h.kept.positive, h.kept.cursor, h.kept.beyond, h.kept.inSync, h.kept.numbered,
    h.kept.window⟩, fun sub hsub => ?_⟩
  obtain ⟨old, hold, rfl⟩ := List.mem_map.mp hsub
  exact (h.inStep old hold).resendTo h.kept (succ old.nodeId) 500

theorem Sound.addSubscribed (h : Sound lag s) {nodeId startSeqId : Nat} (positive : 0 < startSeqId)
    (term : Int) : Sound lag (s.addSubscribedStandby nodeId startSeqId term) := by
  unfold addSubscribedStandby
  split
  · refine ⟨⟨h.kept.positive, h.kept.cursor, h.kept.beyond, h.kept.inSync, h.kept.numbered,
      h.kept.window⟩, fun sub hsub => ?_⟩
    obtain ⟨old, hold, rfl⟩ := List.mem_map.mp hsub
    split
    · exact .start s positive term
    · exact h.inStep old hold
  · refine ⟨⟨h.kept.positive, h.kept.cursor, h.kept.beyond, h.kept.inSync, h.kept.numbered,
      h.kept.window⟩, fun sub hsub => ?_⟩
    rcases List.mem_cons.mp hsub with rfl | hsub
    · exact .start s positive term
    · exact h.inStep sub hsub

theorem Sound.unsubscribe (h : Sound lag s) (nodeId : Nat) (term : Int) :
    Sound lag (s.unsubscribe nodeId term) := by
  refine ⟨⟨h.kept.positive, h.kept.cursor, h.kept.beyond, h.kept.inSync, h.kept.numbered,
    h.kept.window⟩, fun sub hsub => ?_⟩
  obtain ⟨old, hold, rfl⟩ := List.mem_map.mp hsub
  split
  · exact (h.inStep old hold).unsubscribe
  · exact h.inStep old hold

theorem Sound.step {a : ForwardEvent C} (h : Sound lag s) (ht : s.step lag a = some t)
    (permitted : s.Permits a) : Sound lag t := by
  cases a with
  | getNext =>
    obtain ⟨next, forwarded, subscribed⟩ := getNext_frame ht
    exact h.frame (h.kept.getNext ht) next forwarded subscribed
  | write idx payload =>
    cases ht
    exact h.frame (h.kept.write permitted) rfl rfl rfl
  | free idx =>
    cases ht
    exact h.frame (h.kept.free permitted) rfl rfl rfl
  | forward idx succ =>
    cases ht
    exact h.forward permitted
  | resend succ =>
    simp only [PrimaryShard.step] at ht
    split at ht
    · cases ht
      exact h.resend succ
    · cases ht
  | addSubscribed nodeId start term =>
    cases ht
    exact h.addSubscribed permitted term
  | unsubscribe nodeId term =>
    cases ht
    exact h.unsubscribe nodeId term

end

end PrimaryShard

end TxService
