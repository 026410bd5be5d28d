import TxService.RemoteAcquire

/-!
# When a remote key is completed

What the result of a remote key and the messages of its request say about each other, and
that each message keeps it so: an acknowledgement, the final response, and the answer to a
check that says that the request is gone.
-/

namespace TxService

/-- What a key and its request say about each other as long as the flag is set only by what
completes the key. -/
structure RemoteKeyResult.Tracks (k : RemoteKeyResult) (n : AcquireOnNode) : Prop where
  open_ref : k.remoteHdResultSet = false → k.refDecs = 0
  open_ack : k.remoteHdResultSet = false → k.ackDecs = if k.term < 0 then 0 else 1
  closed : k.remoteHdResultSet = true → k.refDecs = 1 ∧ k.ackDecs = 1
  checked : 0 < n.checks ∨ n.answers ≠ [] → 0 ≤ k.term
  sent : n.final ≠ none → n.finalSent = true ∧ n.finalArrived = false
  unsent : n.finalSent = false → n.finalArrived = false
  arrived : n.finalArrived = true → k.remoteHdResultSet = true
  early : k.remoteHdResultSet = true → n.finalArrived = false → k.failed = true
  ignored : n.finalIgnored = true → n.finalArrived = true ∧ k.failed = true
  notAck : ∀ term, n.final ≠ some (.ack term)

namespace RemoteKeyResult
variable {k : RemoteKeyResult} {n : AcquireOnNode}

theorem Tracks.initial : RemoteKeyResult.initial.Tracks .initial := by
  constructor <;> simp [RemoteKeyResult.initial, AcquireOnNode.initial]

/-- Steps that leave the key and what is known of its final response alone. -/
theorem Tracks.frame {n' : AcquireOnNode} (h : k.Tracks n)
    (checked : 0 < n'.checks ∨ n'.answers ≠ [] → 0 ≤ k.term) (final : n'.final = n.final)
    (finalSent : n'.finalSent = n.finalSent) (finalArrived : n'.finalArrived = n.finalArrived)
    (finalIgnored : n'.finalIgnored = n.finalIgnored) : k.Tracks n' where
  open_ref := h.open_ref
  open_ack := h.open_ack
  closed := h.closed
  checked := checked
  sent := by rw [final, finalSent, finalArrived]; exact h.sent
  unsent := by rw [finalSent, finalArrived]; exact h.unsent
  arrived := by rw [finalArrived]; exact h.arrived
  early := by rw [finalArrived]; exact h.early
  ignored := by rw [finalIgnored, finalArrived]; exact h.ignored
  notAck := by rw [final]; exact h.notAck

theorem Tracks.resolve (h : k.Tracks n) (unsent : n.finalSent = false) {r : AcquireResponse}
    (notAck : ∀ term, r ≠ .ack term) :
    k.Tracks { n with inQueue := false, final := some r, finalSent := true } where
  open_ref := h.open_ref
  open_ack := h.open_ack
  closed := h.closed
  checked := h.checked
  sent _ := ⟨rfl, h.unsent unsent⟩
  unsent := by
    intro e
    cases e
  arrived := h.arrived
  early := h.early
  ignored := h.ignored
  notAck term e := notAck term (Option.some.inj e)

theorem acknowledge_term (k : RemoteKeyResult) (term : Nat) : 0 ≤ (k.acknowledge term).term := by
  unfold acknowledge
  split
  · exact Int.natCast_nonneg term
  · omega

theorem acknowledge_ackDecs (k : RemoteKeyResult) (term : Nat)
    (once : k.ackDecs = if k.term < 0 then 0 else 1) : (k.acknowledge term).ackDecs = 1 := by
  unfold acknowledge
  split
  · next unset =>
    rw [if_pos unset] at once
    show k.ackDecs + 1 = 1
    omega
  · next known => rw [once, if_neg known]

theorem acknowledge_frame (k : RemoteKeyResult) (term : Nat) :
    (k.acknowledge term).remoteHdResultSet = k.remoteHdResultSet ∧
      (k.acknowledge term).refDecs = k.refDecs ∧ (k.acknowledge term).failed = k.failed := by
  unfold acknowledge
  split
  · exact ⟨rfl, rfl, rfl⟩
  · exact ⟨rfl, rfl, rfl⟩

theorem Tracks.ack (h : k.Tracks n) (term : Nat) : (k.onAcquireResponse (.ack term)).Tracks n := by
  unfold onAcquireResponse
  split
  · exact h
  · next notSet =>
    have notSet : k.remoteHdResultSet = false := by simpa using notSet
    obtain ⟨set, ref, failed⟩ := k.acknowledge_frame term
    have acked := k.acknowledge_ackDecs term (h.open_ack notSet)
    have address := k.acknowledge_term term
    refine ⟨fun _ => ref.trans (h.open_ref notSet), fun _ => ?_, fun e => ?_, fun _ => address,
      h.sent, h.unsent, fun e => set.trans (h.arrived e), fun e => ?_, fun e => ?_, h.notAck⟩
    · exact acked.trans (if_neg (Int.not_lt.mpr address)).symm
    · exact absurd (set.symm.trans e) (by rw [notSet]; decide)
    · exact absurd (set.symm.trans e) (by rw [notSet]; decide)
    · exact ⟨(h.ignored e).1, failed.trans (h.ignored e).2⟩

/-- The final response completes the key, or has been overtaken by an error. -/
theorem Tracks.final (h : k.Tracks n) {r : AcquireResponse} (hr : n.final = some r) :
    (k.onAcquireResponse r).Tracks { n with final := none, finalArrived := true,
                                            finalIgnored := k.remoteHdResultSet } := by
  have onWay : n.final ≠ none := by rw [hr]; exact Option.some_ne_none r
  have sent := h.sent onWay
  unfold onAcquireResponse
  split
  · next set =>
    exact ⟨h.open_ref, h.open_ack, h.closed, h.checked, fun e => absurd rfl e,
      fun e => absurd (sent.1.symm.trans e) (by decide), fun _ => set, fun _ e => (by cases e),
      fun _ => ⟨rfl, h.early set sent.2⟩, fun _ e => (by cases e)⟩
  · next notSet =>
    have notSet : k.remoteHdResultSet = false := by simpa using notSet
    have once := h.open_ack notSet
    have first := h.open_ref notSet
    cases r with
    | ack term => exact absurd hr (h.notAck term)
    | granted term valiTs commitTs =>
      refine ⟨fun e => (by cases e), fun e => (by cases e), fun _ => ⟨?_, ?_⟩, fun _ => ?_,
        fun e => absurd rfl e, fun e => absurd (sent.1.symm.trans e) (by decide), fun _ => rfl,
        fun _ e => (by cases e), fun e => absurd (notSet.symm.trans e) (by decide),
        fun _ e => (by cases e)⟩
      · show k.refDecs + 1 = 1
        omega
      · exact k.acknowledge_ackDecs term once
      · exact k.acknowledge_term term
    | error =>
      refine ⟨fun e => (by cases e), fun e => (by cases e), fun _ => ⟨?_, ?_⟩, h.checked,
        fun e => absurd rfl e, fun e => absurd (sent.1.symm.trans e) (by decide), fun _ => rfl,
        fun _ e => (by cases e), fun e => absurd (notSet.symm.trans e) (by decide),
        fun _ e => (by cases e)⟩
      · show k.refDecs + 1 = 1
        omega
      · show (if k.term < 0 then k.ackDecs + 1 else k.ackDecs) = 1
        split
        · next unset =>
          rw [if_pos unset] at once
          omega
        · next known => rw [once, if_neg known]

/-- The answer to a check completes the key with an error. -/
theorem Tracks.answer (h : k.Tracks n) {status : AckStatus} {answers : List AckStatus}
    (hs : n.answers = status :: answers) (settled : status = .blockQueue → k.remoteHdResultSet = true) :
    (k.onCheckResponse status).Tracks { n with answers := answers } := by
  have address : 0 ≤ k.term := h.checked (Or.inr (by rw [hs]; exact List.cons_ne_nil _ _))
  unfold onCheckResponse
  split
  · exact h.frame (fun _ => address) rfl rfl rfl rfl
  · next notSet =>
    have notSet : k.remoteHdResultSet = false := by simpa using notSet
    have acked : k.ackDecs = 1 := (h.open_ack notSet).trans (if_neg (by omega))
    have first := h.open_ref notSet
    have completed : { k with remoteHdResultSet := true, refDecs := k.refDecs + 1,
                              failed := true }.Tracks { n with answers := answers } := by
      refine ⟨fun e => (by cases e), fun e => (by cases e), fun _ => ⟨?_, acked⟩, fun _ => address,
        h.sent, h.unsent, fun _ => rfl, fun _ _ => rfl, fun e => ⟨(h.ignored e).1, rfl⟩, h.notAck⟩
      show k.refDecs + 1 = 1
      omega
    cases status with
    | blockQueue => exact absurd (settled rfl) (by rw [notSet]; decide)
    | finished => exact completed
    | errorTerm => exact completed

end RemoteKeyResult

end TxService
