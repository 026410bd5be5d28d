import TxService.TxInvariant

/-!
# Write locks of the transactions

An acquisition that the shard executes grants a key of the abstract protocol that
it may have discovered, and is nothing there when it fails or waits.
-/

namespace TxService

open Transition NonBlockingLock TimestampOrder CcShard

variable {K V : Type}

namespace TxWorld

variable [DecidableEq K]

/-- What holds of an acquisition when the shard executes it. -/
structure AcquireDue (w : TxWorld K V) (r : AcquireCc K) : Prop where
  unset : (w.txs r.req.txn).commitTs = none
  free : r.req.txn ∉ (w.shard.keyLock r.cce).waiting
  fresh : ∀ res, (r.cce, res) ∉ (w.txs r.req.txn).acquired

theorem afterAcquire_tx (w : TxWorld K V) (r : AcquireCc K)
    (out : Outcome AcquireKeyResult × CcShard K V) (t : TxNumber) :
    ((w.afterAcquire r out).txs t).commitTs = (w.txs t).commitTs ∧
      ((w.afterAcquire r out).txs t).reads = (w.txs t).reads ∧
      ((w.afterAcquire r out).txs t).validated = (w.txs t).validated := by
  unfold afterAcquire
  by_cases ht : t = r.req.txn
  · subst ht
    simp only [Function.update_self]
    unfold TxState.noteAcquire
    split <;> exact ⟨rfl, rfl, rfl⟩
  · simp [ht]

variable {w : TxWorld K V} {r : AcquireCc K} {out : Outcome AcquireKeyResult × CcShard K V}

theorem afterAcquire_acquired {t : TxNumber} {c : Cce K} {res : AcquireKeyResult}
    (h : (c, res) ∈ ((w.afterAcquire r out).txs t).acquired) :
    (c, res) ∈ (w.txs t).acquired ∨ (t = r.req.txn ∧ c = r.cce ∧ out.1 = .finished res) := by
  unfold afterAcquire at h
  by_cases ht : t = r.req.txn
  · subst ht
    simp only [Function.update_self] at h
    unfold TxState.noteAcquire at h
    split at h
    · rename_i res' hres
      rcases List.mem_cons.mp h with heq | h
      · obtain ⟨rfl, rfl⟩ := Prod.mk.inj heq
        exact Or.inr ⟨rfl, rfl, hres⟩
      · exact Or.inl h
    · exact Or.inl h
  · exact Or.inl (by simpa [ht] using h)

omit [DecidableEq K] in
/-- The version timestamp handed out is that of the entry, also if it was found only now. -/
theorem acquired_version (h : Sound w) (spec : AcquireSpec w.shard r out) {res : AcquireKeyResult}
    (hres : out.1 = .finished res) :
    (out.2.entries r.cce).commitTs ≤ res.commitTs := by
  have value := (spec.finished res hres).2.1
  have clock := h.clock
  by_cases hu : (w.shard.entries r.cce).payloadStatus = .unknown
  · rcases (spec.entry.unknown hu).2 with ⟨-, same⟩ | ⟨zero, -, one⟩
    · rw [same, value]
      split <;> omega
    · rw [one, value, if_neg (by omega)]
      exact clock
  · have pos := h.positive r.cce hu
    rw [spec.entry.known hu, value, if_pos pos]

theorem Sound.afterAcquire (h : Sound w) (due : AcquireDue w r) (spec : AcquireSpec w.shard r out) :
    Sound (w.afterAcquire r out) := by
  have still {c : Cce K} (hk : Known w.shard c) :
      (w.afterAcquire r out).shard.entries c = w.shard.entries c := by
    by_cases hc : c = r.cce
    · subst hc
      exact spec.entry.known hk
    · exact spec.others c hc
  have known {c : Cce K} (hk : Known w.shard c) : Known (w.afterAcquire r out).shard c := by
    unfold Known
    rw [still hk]
    exact hk
  have parked (t : TxNumber) (c : Cce K) (ne : t ≠ r.req.txn ∨ c ≠ r.cce) :
      (w.afterAcquire r out).parked t c = w.parked t c := Linked.park_ne _ ne
  have own : (w.afterAcquire r out).parked r.req.txn r.cce = r.parks out.1 :=
    Linked.park_same _ _ _
  refine ⟨?_, ?_, ?_, ?_, ?_, ?_, ?_, ?_, ?_⟩
  · refine h.linked.step spec.effect due.free spec.quiet ?_ ?_
    · intro ty hty
      unfold Outcome.waitsFor at hty
      split at hty <;> rename_i hout <;> simp only [Option.some.injEq, reduceCtorEq] at hty
      · exact ⟨.acquire r, by rw [hout]; rfl, hty⟩
      · exact absurd hout spec.waits
    · intro q hq
      unfold AcquireCc.parks at hq
      split at hq <;> simp only [Option.some.injEq, reduceCtorEq] at hq
      exact hq ▸ ⟨rfl, rfl, trivial⟩
  · exact spec.now ▸ h.clock
  · intro c hc
    by_cases hk : Known w.shard c
    · rw [still hk]
      exact h.positive c hk
    · have hu : (w.shard.entries c).payloadStatus = .unknown := not_not.mp hk
      by_cases hcce : c = r.cce
      · subst hcce
        rcases (spec.entry.unknown hu).2 with ⟨hs, -⟩ | ⟨-, -, hts⟩
        · exact absurd hs hc
        · exact hts ▸ Nat.one_pos
      · exact absurd (spec.others c hcce ▸ hu) hc
  · intro t ht c
    rw [(afterAcquire_tx w r out t).1] at ht
    rw [parked t c (Or.inl fun heq => ht (heq ▸ due.unset))]
    exact h.done t ht c
  · intro t ts ht
    have ht' := (afterAcquire_tx w r out t).1 ▸ ht
    rw [(afterAcquire_tx w r out t).2.1]
    refine ⟨fun key hk => ?_, (h.bounds t ts ht').2⟩
    rcases afterAcquire_acquired hk with hk | ⟨rfl, -⟩
    · exact (h.bounds t ts ht').1 key hk
    · cases due.unset.symm.trans ht'
  · intro t c res hm r'
    rcases afterAcquire_acquired hm with hm | ⟨rfl, rfl, hres⟩
    · have ne : t ≠ r.req.txn ∨ c ≠ r.cce := by
        by_contra hn
        obtain ⟨rfl, rfl⟩ := (not_or.mp hn).imp not_not.mp not_not.mp
        exact due.fresh res hm
      rw [parked t c ne]
      exact h.once t c res hm r'
    · rw [own, hres]
      simp [AcquireCc.parks]
  · intro t c res hm hold
    rcases afterAcquire_acquired hm with hm | ⟨rfl, rfl, hres⟩
    · obtain ⟨before, ts⟩ := h.holder spec.effect due.free (fun _ => due.fresh) hm hold
      obtain ⟨hts, hver⟩ := h.held t c res hm before
      refine ⟨ts ▸ hts, ?_⟩
      by_cases hc : c = r.cce
      · -- the write lock that was granted has no other holder
        subst hc
        by_cases hf : ∃ res', out.1 = .finished res'
        · obtain ⟨res', hres'⟩ := hf
          obtain rfl := (spec.finished res' hres').2.2 t before
          exact absurd hm (due.fresh res)
        · rw [show (w.afterAcquire r out).shard.entries = w.shard.entries from
            spec.unfinished fun res' hres' => hf ⟨res', hres'⟩]
          exact hver
      · rw [show (w.afterAcquire r out).shard.entries c = w.shard.entries c from spec.others c hc]
        exact hver
    · refine ⟨?_, acquired_version h spec hres⟩
      rw [← (spec.finished res hres).1]
      exact Nat.le_max_right _ _
  · intro t c v hr
    rw [(afterAcquire_tx w r out t).2.1] at hr
    exact (h.reads t c v hr).imp_left known
  · intro t c r' blockedBy hp
    by_cases ne : t ≠ r.req.txn ∨ c ≠ r.cce
    · exact known (h.waiting t c r' blockedBy (parked t c ne ▸ hp))
    · obtain ⟨rfl, rfl⟩ := (not_or.mp ne).imp not_not.mp not_not.mp
      rw [own] at hp
      unfold AcquireCc.parks at hp
      split at hp <;> simp at hp

theorem afterAcquire_unfinished (spec : AcquireSpec w.shard r out)
    (hf : ∀ res, out.1 ≠ .finished res) : (w.afterAcquire r out).txs = w.txs ∧
      (w.afterAcquire r out).installed = w.installed := by
  constructor
  · have same : (w.txs r.req.txn).noteAcquire r.cce out.1 = w.txs r.req.txn := by
      unfold TxState.noteAcquire
      split
      · rename_i res hres
        exact absurd hres (hf res)
      · rfl
    simp [TxWorld.afterAcquire, same]
  · simp only [TxWorld.afterAcquire, spec.unfinished hf]
    exact if_neg fun hc => hc.2 hc.1

/-- An acquisition is a grant, of a key that may have been discovered on the way. -/
theorem Sound.afterAcquire_steps (h : Sound w) (cons : Consistent w.ledger) (due : AcquireDue w r)
    (spec : AcquireSpec w.shard r out) :
    Relation.ReflTransGen TimestampOrder.Step w.ledger (w.afterAcquire r out).ledger := by
  by_cases hf : ∀ res, out.1 ≠ .finished res
  · obtain ⟨txs, installed⟩ := afterAcquire_unfinished spec hf
    refine .single (.idle (h.quiet spec.effect due.free (fun _ => due.fresh) (spec.unfinished hf)
      installed (Nat.le_of_eq spec.lastReadTs.symm) ?_ ?_ fun _ hp => hp))
    · exact fun t => by rw [txs]; exact ⟨rfl, rfl⟩
    · exact fun c t v hv => by rwa [txs] at hv
  · obtain ⟨res, hres⟩ := not_forall.mp hf |>.imp fun _ => not_not.mp
    obtain ⟨vali, -, alone⟩ := spec.finished res hres
    have nobody (t : TxNumber) (b : Nat) : ¬ w.ledger.bound r.cce t b := by
      rintro ⟨hold, res', mem, -⟩
      obtain rfl := alone t hold
      exact due.fresh res' mem
    have commit : (w.afterAcquire r out).ledger.commit = w.ledger.commit :=
      funext fun t => (afterAcquire_tx w r out t).1
    have validated (c : Cce K) (t : TxNumber) (v : Nat)
        (hv : (c, v) ∈ ((w.afterAcquire r out).txs t).validated) : (c, v) ∈ (w.txs t).validated :=
      (afterAcquire_tx w r out t).2.2 ▸ hv
    have others (c : Cce K) (hc : c ≠ r.cce) :
        (w.afterAcquire r out).ledger.version c = w.ledger.version c := by
      simp only [ledger, show (w.afterAcquire r out).shard.entries c = w.shard.entries c from
        spec.others c hc]
    have found : TimestampOrder.Step w.ledger
        { (w.afterAcquire r out).ledger with bound := w.ledger.bound } := by
      by_cases hu : (w.shard.entries r.cce).payloadStatus = .unknown ∧
          (out.2.entries r.cce).payloadStatus ≠ .unknown
      · have unknown : w.ledger.version r.cce = none := by simp [ledger, hu.1]
        have empty : w.installed r.cce = [] := cons.empty_history unknown
        refine .discover r.cce (out.2.entries r.cce).commitTs
          ⟨rfl, rfl, Nat.le_of_eq spec.lastReadTs.symm, fun _ _ _ hb => hb, commit, validated,
            fun _ _ _ ha => ha⟩ ?_ ?_ unknown fun t b hb => absurd hb (nobody t b)
        · funext c
          by_cases hc : c = r.cce
          · subst hc
            simp [ledger, TxWorld.afterAcquire, hu.2]
          · simpa [hc] using others c hc
        · simp only [ledger, TxWorld.afterAcquire, if_pos hu, empty]
      · refine .idle ⟨?_, ?_, Nat.le_of_eq spec.lastReadTs.symm, fun _ _ _ hb => hb, commit,
          validated, fun _ _ _ ha => ha⟩
        · funext c
          by_cases hc : c = r.cce
          · subst hc
            by_cases hk : (w.shard.entries r.cce).payloadStatus = .unknown
            · have : (out.2.entries r.cce).payloadStatus = .unknown :=
                not_not.mp fun hn => hu ⟨hk, hn⟩
              simp [ledger, TxWorld.afterAcquire, hk, this]
            · simp [ledger, TxWorld.afterAcquire, spec.entry.known hk]
          · exact others c hc
        · simp only [ledger, TxWorld.afterAcquire, if_neg hu]
    refine (Relation.ReflTransGen.single found).tail
      (.grant r.cce r.req.txn (max res.lastValiTs res.commitTs) (.refl _) ?_ ?_ ?_)
    · rintro c t b ⟨hold, res', mem, rfl⟩
      rcases afterAcquire_acquired mem with mem | ⟨rfl, rfl, hres'⟩
      · exact Or.inl ⟨(h.holder spec.effect due.free (fun _ => due.fresh) mem hold).1, res', mem, rfl⟩
      · obtain rfl := Outcome.finished.inj (hres.symm.trans hres')
        exact Or.inr ⟨rfl, rfl, rfl⟩
    · have : out.2.lastReadTs ≤ res.lastValiTs := by
        rw [spec.lastReadTs, ← vali]
        exact Nat.le_max_left _ _
      exact this.trans (Nat.le_max_left _ _)
    · intro v hv
      obtain ⟨-, rfl⟩ := ledger_version.mp hv
      exact (acquired_version h spec hres).trans (Nat.le_max_right _ _)

end TxWorld

end TxService
