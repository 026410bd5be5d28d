import TxService.TxAcquire

/-!
# The transactions of a shard follow timestamp ordering

Every step of the system is one of the abstract protocol, or two: an acquisition grants a key that
it may have discovered. A transaction whose reads were all valid has therefore read, on every entry,
the newest version below its commit timestamp.
-/

namespace TxService

open Transition NonBlockingLock TimestampOrder CcShard

variable {K V : Type}

namespace TxWorld

variable [DecidableEq K]

/-- A transaction wrote the entry on what it was told when it took the lock. -/
def Overwritten (cfg : ShardConfig) (w w' : TxWorld K V) (c : Cce K) : Prop :=
  ∃ recycleTs r res, WriteDue w r res ∧ r.cce = c ∧ (w.shard.keyLock c).HoldsWriteLock r.txn ∧
    w'.shard.entries c = overwrite cfg recycleTs (w.shard.entries c) r

/-- A snapshot read was answered, with the version `MvccGet` found. -/
structure Answered (w w' : TxWorld K V) (c : Cce K) (r v : Nat) : Prop where
  same : w'.shard.entries = w.shard.entries
  known : Known w.shard c
  version : ∃ lastReadTs, ((w.shard.entries c).mvccGet r lastReadTs).1.commitTs = v

/-- What a step of the system can do. It is a run of the protocol. -/
structure Follows (cfg : ShardConfig) (w w' : TxWorld K V) : Prop where
  sound : Sound w'
  steps : Relation.ReflTransGen TimestampOrder.Step w.ledger w'.ledger
  entries : ∀ c, EntryFound (w.shard.entries c) (w'.shard.entries c) ∨ Overwritten cfg w w' c
  kept : ∀ p ∈ w.answered, p ∈ w'.answered
  answers : ∀ c r v, (c, r, v) ∈ w'.answered → (c, r, v) ∈ w.answered ∨ Answered w w' c r v

variable {cfg : ShardConfig} {w : TxWorld K V}

theorem Follows.of_same {w w' : TxWorld K V} (sound : Sound w')
    (steps : Relation.ReflTransGen TimestampOrder.Step w.ledger w'.ledger)
    (entries : w'.shard.entries = w.shard.entries) (answered : w'.answered = w.answered) :
    Follows cfg w w' :=
  ⟨sound, steps, fun _ => Or.inl (entries ▸ .refl _), fun _ hp => answered ▸ hp,
    fun _ _ _ ha => Or.inl (answered ▸ ha)⟩

theorem read_follows (h : Sound w) {r : ReadCc K} {blockedBy : BlockedBy}
    (due : ReadDue w r blockedBy) (ready : ReadReady w.shard r blockedBy)
    (promise : Promised w.shard r blockedBy) :
    Follows cfg w (w.afterRead r (w.shard.executeReadCc r blockedBy)) := by
  have spec := executeReadCc_spec h.linked.orderly ready promise
  refine ⟨h.afterRead due spec, .single (h.afterRead_step due spec),
    fun c => Or.inl (by rw [show (w.afterRead r _).shard.entries = _ from spec.entries]; exact .refl _),
    fun _ hp => List.mem_append_right _ hp, fun c ts v ha => ?_⟩
  rcases List.mem_append.mp ha with ha | ha
  · rcases answers_cases r (w.shard.executeReadCc r blockedBy).1 with
      silent | ⟨res, hres, snap, status, one⟩
    · simp [silent] at ha
    · obtain ⟨hts, hstatus, -⟩ := spec.snapshot res hres snap
      obtain ⟨rfl, rfl, rfl⟩ : c = r.cce ∧ ts = r.readTimestamp ∧ v = res.ts := by
        simpa [one] using ha
      exact Or.inr ⟨spec.entries, answered_known hstatus status, _, hts.symm⟩
  · exact Or.inl ha

theorem acquire_follows (h : Sound w) (cons : Consistent w.ledger) (cfg : ShardConfig)
    {r : AcquireCc K} (due : AcquireDue w r) (blockByLock : Bool)
    (ready : AcquireReady w.shard r blockByLock) :
    Follows cfg w (w.afterAcquire r (w.shard.executeAcquireCc cfg r blockByLock)) := by
  have spec := executeAcquireCc_spec cfg h.linked.orderly ready
  refine ⟨h.afterAcquire due spec, h.afterAcquire_steps cons due spec, fun c => Or.inl ?_,
    fun _ hp => hp, fun _ _ _ ha => Or.inl ha⟩
  by_cases hc : c = r.cce
  · exact hc ▸ spec.entry
  · rw [show (w.afterAcquire r _).shard.entries c = _ from spec.others c hc]
    exact .refl _

/-- A parked request that resumes is due, and has the lock it waited for. -/
theorem resume_follows (h : Sound w) (cons : Consistent w.ledger) (cfg : ShardConfig)
    {txn : TxNumber} {cce : Cce K} (enabled : w.Enabled (.resume txn cce)) :
    Follows cfg w (w.exec cfg (.resume txn cce)) := by
  have unset {p : Parked K} (hp : w.parked txn cce = some p) : (w.txs txn).commitTs = none := by
    by_contra hn
    cases (h.done txn hn cce).symm.trans hp
  simp only [Enabled, exec] at enabled ⊢
  split at enabled
  · exact enabled.elim
  · rename_i r hp
    obtain ⟨rfl, rfl, -⟩ := h.linked.fits txn cce _ hp
    obtain ⟨p, hp', has⟩ := h.linked.resuming _ _ enabled
    obtain rfl := Option.some.inj (hp.symm.trans hp')
    exact acquire_follows h cons cfg
      ⟨unset hp, h.linked.orderly.left _ _ enabled, fun res hm => h.once _ _ res hm r hp⟩
      true ⟨enabled, has⟩
  · rename_i r blockedBy hp
    obtain ⟨queued, promise⟩ := enabled
    obtain ⟨rfl, rfl, sensible⟩ := h.linked.fits txn cce _ hp
    obtain ⟨p, hp', has⟩ := h.linked.resuming _ _ queued
    obtain rfl := Option.some.inj (hp.symm.trans hp')
    have left := h.linked.orderly.left _ _ queued
    have known := h.waiting _ _ r blockedBy hp
    refine read_follows h ⟨unset hp, left, fun _ => known, ?_, ?_⟩ ?_ promise
    · rintro rfl
      exact sensible.elim (by simp) (·.2)
    · rintro rfl
      exact has
    · rcases sensible with rfl | ⟨rfl, snap⟩
      · exact queued
      · exact ⟨queued, snap⟩

theorem setCommitTs_follows (h : Sound w) {txn : TxNumber} {bound ts : Nat}
    (enabled : w.Enabled (.setCommitTs txn bound ts)) (cfg : ShardConfig) :
    Follows cfg w (w.exec cfg (.setCommitTs txn bound ts)) := by
  obtain ⟨unset, idle, above⟩ := enabled
  have tx (t : TxNumber) : ((w.exec cfg (.setCommitTs txn bound ts)).txs t).acquired =
      (w.txs t).acquired ∧ ((w.exec cfg (.setCommitTs txn bound ts)).txs t).reads =
      (w.txs t).reads ∧ ((w.exec cfg (.setCommitTs txn bound ts)).txs t).validated =
      (w.txs t).validated := by
    by_cases ht : t = txn
    · subst ht; simp [exec]
    · simp [exec, ht]
  have commit : (w.exec cfg (.setCommitTs txn bound ts)).ledger.commit =
      Function.update w.ledger.commit txn (some ts) := by
    funext t
    by_cases ht : t = txn
    · subst ht; simp [exec, ledger]
    · simp [exec, ledger, ht]
  have other {t : TxNumber} (ht : t ≠ txn) :
      ((w.exec cfg (.setCommitTs txn bound ts)).txs t) = w.txs t := by simp [exec, ht]
  refine .of_same ⟨h.linked, h.clock, h.positive, ?_, ?_, ?_, ?_, ?_, h.waiting⟩ (.single
    (.choose txn ts ⟨rfl, rfl, Nat.le_refl _, ?_, rfl, ?_, fun _ _ _ ha => ha⟩ commit unset)) rfl rfl
  · intro t ht c
    by_cases htx : t = txn
    · exact htx ▸ idle c
    · exact h.done t (other htx ▸ ht) c
  · intro t ts' ht
    rw [(tx t).1, (tx t).2.1]
    by_cases htx : t = txn
    · subst htx
      obtain rfl : ts = ts' := by simpa [exec] using ht
      exact TxState.candidate_bounds above
    · exact h.bounds t ts' (other htx ▸ ht)
  · exact fun t c res hm => h.once t c res ((tx t).1 ▸ hm)
  · exact fun t c res hm => h.held t c res ((tx t).1 ▸ hm)
  · exact fun t c v hr => h.reads t c v ((tx t).2.1 ▸ hr)
  · rintro c t b ⟨hold, res, hm, hb⟩
    exact ⟨hold, res, (tx t).1 ▸ hm, hb⟩
  · intro c t v hv
    have : (c, v) ∈ (w.txs t).validated := (tx t).2.2 ▸ hv
    exact this

theorem release_follows (h : Sound w) {u : TxNumber} {cce : Cce K} {s' : CcShard K V}
    (effect : Effect u cce false none w.shard s') (free : w.parked u cce = none)
    (entries : s'.entries = w.shard.entries) (last : w.shard.lastReadTs ≤ s'.lastReadTs)
    (now : s'.now = w.shard.now) :
    Follows cfg w { w with shard := s' } :=
  .of_same (h.served effect free now (.refl _) (fun c => Or.inl (congrFun entries c)) w.installed)
    (.single (.idle (h.quiet effect (h.linked.idle free).1 (by simp) entries rfl last
      (fun _ => ⟨rfl, rfl⟩) (fun _ _ _ hv => hv) fun _ hp => hp))) entries rfl

theorem overwritten_or_same {recycleTs : Nat} {r : PostWriteCc K V} {res : AcquireKeyResult}
    {s' : CcShard K V} (due : WriteDue w r res) (spec : PostWriteSpec cfg recycleTs w.shard r s')
    (c : Cce K) :
    Overwritten cfg w (w.afterPostWrite r s') c ∨ s'.entries c = w.shard.entries c := by
  by_cases hw : (w.shard.keyLock r.cce).HoldsWriteLock r.txn ∧ 0 < r.commitTs
  · have entries := spec.entries.trans (if_pos hw)
    by_cases hc : c = r.cce
    · subst hc
      exact Or.inl ⟨recycleTs, r, res, due, rfl, hw.1, by simp [TxWorld.afterPostWrite, entries]⟩
    · exact Or.inr (by simp [entries, hc])
  · exact Or.inr (congrFun (spec.entries.trans (if_neg hw)) c)

theorem step_follows {w w' : TxWorld K V} {e : TxEvent K V} (h : Sound w)
    (cons : Consistent w.ledger) (step : Step cfg w e w') : Follows cfg w w' := by
  obtain ⟨enabled, rfl⟩ := step
  have orderly := h.linked.orderly
  cases e with
  | read r =>
    obtain ⟨unset, free, promise⟩ := enabled
    have idle := h.linked.idle free
    exact read_follows h ⟨unset, idle.1, by simp, by simp, by simp⟩ idle promise
  | acquire r =>
    obtain ⟨unset, free, fresh⟩ := enabled
    have idle := h.linked.idle free
    exact acquire_follows h cons cfg ⟨unset, idle.1, fun res hm => fresh _ hm rfl⟩ false idle
  | resume txn cce => exact resume_follows h cons cfg enabled
  | setCommitTs txn bound ts => exact setCommitTs_follows h enabled cfg
  | postRead txn cce versionTs =>
    obtain ⟨set, mem⟩ := enabled
    obtain ⟨ts, hts⟩ := Option.ne_none_iff_exists'.mp set
    have spec := executePostReadCc_spec (s := w.shard)
      ⟨cce, txn, versionTs, (w.txs txn).commitTs.getD 0⟩ orderly
    refine .of_same ?_ (.single (h.afterPostRead_step spec (by simp [hts]) mem)) spec.entries rfl
    exact h.served spec.effect (h.done txn set cce) spec.now (afterPostRead_sameTxs w _ _)
      (fun c => Or.inl (congrFun spec.entries c)) w.installed
  | postWrite txn cce isDel payload recycleTs =>
    obtain ⟨set, -, res, mem⟩ := enabled
    obtain ⟨ts, hts⟩ := Option.ne_none_iff_exists'.mp set
    have due : WriteDue w ⟨cce, false, txn, (w.txs txn).commitTs.getD 0, isDel, payload, false⟩ res :=
      ⟨by simp [hts], mem⟩
    have spec := executePostWriteCc_spec cfg recycleTs orderly rfl
      fun hold _ => Nat.le_of_lt (due.newer h hold)
    refine ⟨h.afterPostWrite due spec, .single (h.afterPostWrite_step due spec),
      fun c => ?_, fun _ hp => hp, fun _ _ _ ha => Or.inl ha⟩
    rcases overwritten_or_same due spec c with written | same
    · exact Or.inr written
    · exact Or.inl (same.symm ▸ .refl _)
  | releaseRead txn cce =>
    have spec := executePostReadCc_spec (s := w.shard) ⟨cce, txn, 0, 0⟩ orderly
    exact release_follows h spec.effect enabled spec.entries spec.lastReadTs spec.now
  | releaseWrite txn cce =>
    have spec := executePostWriteCc_spec cfg 0
      (r := (⟨cce, false, txn, 0, false, none, false⟩ : PostWriteCc K V)) orderly rfl (by simp)
    exact release_follows h spec.effect enabled (spec.entries.trans (if_neg (by simp)))
      (Nat.le_of_eq spec.lastReadTs.symm) spec.now
  | advance ts =>
    have linked : Linked (w.shard.updateTsBase ts) w.parked :=
      ⟨orderly.congr rfl rfl, h.linked.queued, h.linked.resuming, h.linked.fits⟩
    exact .of_same ⟨linked, Nat.lt_of_lt_of_le h.clock (Nat.le_max_left _ _), h.positive, h.done,
      h.bounds, h.once, h.held, h.reads, h.waiting⟩ .refl rfl rfl

omit [DecidableEq K] in
theorem initial_sound (h : Initial cfg w) : Sound w := by
  have orderly := initial_orderly h.locks h.ccQueue
  have free (c : Cce K) : w.shard.keyLock c = reset := by simp [keyLock, h.locks c]
  refine ⟨⟨orderly, ?_, ?_, ?_⟩, h.now, h.positive, ?_, ?_, ?_, ?_, ?_, ?_⟩
  all_goals simp [free, reset, h.ccQueue, h.parked, h.txs, TxState.fresh]

omit [DecidableEq K] in
theorem initial_consistent (h : Initial cfg w) :
    Consistent w.ledger := by
  refine ⟨⟨fun c => ?_, fun c => ?_, ?_, ?_⟩, ?_⟩
  · simp only [ledger, h.installed c]
    by_cases hu : (w.shard.entries c).payloadStatus = .unknown <;> simp [hu]
  · simp only [ledger, h.installed c]
    split <;> simp
  · rintro c t b v ⟨-, res, mem, -⟩
    simp [h.txs, TxState.fresh] at mem
  · intro c t v hv
    simp [ledger, h.txs, TxState.fresh] at hv
  · intro c r v ha
    simp [ledger, h.answered] at ha

/-- Every reachable world keeps the protocol's promises. -/
theorem reached_consistent (h : Reached cfg w) :
    Sound w ∧ Consistent w.ledger :=
  h.invariant (P := fun w => Sound w ∧ Consistent w.ledger)
    (fun _ hi => ⟨initial_sound hi, initial_consistent hi⟩) fun _ _ _ step ih =>
    have follows := step_follows ih.1 ih.2 step
    ⟨follows.sound, ih.2.steps follows.steps⟩

/-- **Timestamp order serialisability.** In every reachable state, what a
transaction that chose the commit timestamp `ts` and passed validation has read is
the largest version below `ts` of all versions ever installed on the entry, and
the versions of every entry were installed in increasing order. -/
theorem committed_reads_newest {cfg : ShardConfig} {w : TxWorld K V} (h : Reached cfg w) :
    (∀ t ts, (w.txs t).commitTs = some ts → (w.txs t).Valid → ∀ c v, (c, v) ∈ (w.txs t).reads →
      v ∈ w.installed c ∧ v < ts ∧ ∀ u ∈ w.installed c, u < ts → u ≤ v) ∧
    ∀ c, (w.installed c).Pairwise (· > ·) := by
  obtain ⟨-, cons⟩ := reached_consistent h
  refine ⟨fun t ts chosen valid c v hr => ?_, cons.sorted⟩
  obtain ⟨ts', kept⟩ := cons.reads c t v (valid.2 (c, v) hr)
  obtain rfl := Option.some.inj (chosen.symm.trans kept.chosen)
  exact ⟨kept.mem, kept.below, kept.largest⟩

def occRead : ReadCc Nat := ⟨oneEntry, ⟨1, 0⟩, 1, .repeatableRead, .occ, false, false, 0⟩

def occWrite : AcquireCc Nat := ⟨oneEntry, ⟨2, 0⟩, 1, 0, .repeatableRead, .occ⟩

def plain : ShardConfig := ⟨false, false⟩

/-- Transaction 1 reads and is validated at 2, then transaction 2 locks and writes at 3. -/
def readThenWritten : TxWorld Nat Nat :=
  [.read occRead, .setCommitTs 1 0 2, .postRead 1 oneEntry 1, .acquire occWrite,
    .setCommitTs 2 0 3, .postWrite 2 oneEntry false (some 8) 0].foldl (exec plain) versionOne

theorem readThenWritten_reached : Reached plain readThenWritten := by
  have start : Reached plain versionOne := .start (versionOne_initial plain)
  have read := start.exec (.read occRead) ⟨rfl, rfl, fun _ hw => by cases hw.2.1⟩
  have chosen := read.exec (.setCommitTs 1 0 2)
    ⟨rfl, Linked.park_free (occRead.parks _) 1 oneEntry (fun _ => rfl) rfl, by decide⟩
  have valid := chosen.exec (.postRead 1 oneEntry 1) ⟨nofun, by decide⟩
  have locked := valid.exec (.acquire occWrite) ⟨rfl, by decide, nofun⟩
  have later := locked.exec (.setCommitTs 2 0 3)
    ⟨rfl, Linked.park_free (occWrite.parks _) 2 oneEntry (fun _ => rfl) rfl, by decide⟩
  exact later.exec (.postWrite 2 oneEntry false (some 8) 0)
    ⟨nofun, ⟨rfl, nofun⟩, ⟨2, 1⟩, by decide⟩

theorem committed_reads_newest_after_write :
    readThenWritten.installed oneEntry = [3, 1] ∧
    (readThenWritten.txs 1).commitTs = some 2 ∧ (oneEntry, 1) ∈ (readThenWritten.txs 1).reads ∧
    ∀ u ∈ readThenWritten.installed oneEntry, u < 2 → u ≤ 1 :=
  ⟨by decide, by decide, by decide,
    ((committed_reads_newest readThenWritten_reached).1 1 2 (by decide)
      ⟨by decide, by decide⟩ oneEntry 1 (by decide)).2.2⟩

end TxWorld

end TxService
