import TxService.TimestampOrder
import TxService.TxSystem

/-!
# What the transactions of a shard keep true

The abstract protocol sees of a shard its newest versions, `last_read_ts_`, and the write lock
holders with the larger one of the timestamps they were handed. A
validation of a read and a write of a new version are what they are in the abstract protocol.
-/

namespace TxService

open Transition NonBlockingLock TimestampOrder CcShard

variable {K V : Type}

/-- The fold over maxima that makes up the candidate exceeds all it has seen. -/
theorem lt_foldl_max {α : Type} {f : Nat → α → Nat} {g : α → Nat}
    (grows : ∀ c a, c ≤ f c a ∧ g a < f c a) (l : List α) (c : Nat) :
    c ≤ l.foldl f c ∧ ∀ a ∈ l, g a < l.foldl f c := by
  induction l generalizing c with
  | nil => simp
  | cons x l ih =>
    obtain ⟨start, rest⟩ := ih (f c x)
    obtain ⟨hc, hx⟩ := grows c x
    refine ⟨hc.trans start, fun a ha => ?_⟩
    rcases List.mem_cons.mp ha with rfl | ha
    · exact Nat.lt_of_lt_of_le hx start
    · exact rest a ha

theorem TxState.candidate_bounds {tx : TxState K} {bound ts : Nat} (h : tx.candidate bound ≤ ts) :
    (∀ key ∈ tx.acquired, max key.2.lastValiTs key.2.commitTs < ts) ∧
      ∀ read ∈ tx.reads, read.2 < ts := by
  unfold TxState.candidate at h
  simp only at h
  obtain ⟨start, reads⟩ := lt_foldl_max (f := fun c (read : Cce K × Nat) => max c (read.2 + 1))
    (g := fun read => read.2) (by intros; omega) tx.reads _ |>.imp_left (le_trans · h)
  obtain ⟨-, keys⟩ := lt_foldl_max
    (f := fun c (key : Cce K × AcquireKeyResult) =>
      max (max c (key.2.lastValiTs + 1)) (key.2.commitTs + 1))
    (g := fun key => max key.2.lastValiTs key.2.commitTs) (by intros; omega) tx.acquired bound
  exact ⟨fun key hk => Nat.lt_of_lt_of_le (keys key hk) start,
    fun read hr => Nat.lt_of_lt_of_le (reads read hr) h⟩

namespace TxWorld

/-- What the abstract protocol sees. -/
def ledger (w : TxWorld K V) : Ledger (Cce K) TxNumber where
  version c := if (w.shard.entries c).payloadStatus = .unknown then none
    else some (w.shard.entries c).commitTs
  history := w.installed
  readTs := w.shard.lastReadTs
  bound c t b := (w.shard.keyLock c).HoldsWriteLock t ∧
    ∃ res, (c, res) ∈ (w.txs t).acquired ∧ b = max res.lastValiTs res.commitTs
  commit t := (w.txs t).commitTs
  validated c t v := (c, v) ∈ (w.txs t).validated
  answered c r v := (c, r, v) ∈ w.answered

def Known (s : CcShard K V) (c : Cce K) : Prop := (s.entries c).payloadStatus ≠ .unknown

variable {w : TxWorld K V} {c : Cce K} {v : Nat} {t : TxNumber} {res : AcquireKeyResult}
  {u : TxNumber} {cce : Cce K} {s' : CcShard K V}

theorem ledger_version :
    w.ledger.version c = some v ↔ Known w.shard c ∧ (w.shard.entries c).commitTs = v := by
  by_cases hu : (w.shard.entries c).payloadStatus = .unknown <;> simp [ledger, Known, hu]

structure Sound (w : TxWorld K V) : Prop where
  linked : Linked w.shard w.parked
  clock : 0 < w.shard.now
  positive : ∀ c, Known w.shard c → 0 < (w.shard.entries c).commitTs
  /-- Who has chosen its commit timestamp has no request outstanding. -/
  done : ∀ t, (w.txs t).commitTs ≠ none → ∀ c, w.parked t c = none
  bounds : ∀ t ts, (w.txs t).commitTs = some ts →
    (∀ key ∈ (w.txs t).acquired, max key.2.lastValiTs key.2.commitTs < ts) ∧
    ∀ read ∈ (w.txs t).reads, read.2 < ts
  /-- A key that was acquired is not being acquired. -/
  once : ∀ t c res, (c, res) ∈ (w.txs t).acquired → ∀ r, w.parked t c ≠ some (.acquire r)
  held : ∀ t c res, (c, res) ∈ (w.txs t).acquired → (w.shard.keyLock c).HoldsWriteLock t →
    (w.shard.keyLock c).wlockTs ≤ res.lastValiTs ∧ (w.shard.entries c).commitTs ≤ res.commitTs
  reads : ∀ t c v, (c, v) ∈ (w.txs t).reads → Known w.shard c ∧ 0 < v
  waiting : ∀ t c r blockedBy, w.parked t c = some (.read r blockedBy) → Known w.shard c

/-- Who waits for a write lock has not acquired it yet. -/
theorem Sound.not_queued (h : Sound w) (mem : (c, res) ∈ (w.txs t).acquired) {e : LockQueueEntry}
    (he : e ∈ (w.shard.keyLock c).blockingQueue) (htx : e.req.txn = t)
    (hty : e.lkType = .writeLock) : False := by
  obtain ⟨p, hp, hpty⟩ := h.linked.queued c e he
  rw [htx] at hp
  rw [hty] at hpty
  cases p with
  | acquire r => exact h.once t c res mem r hp
  | read r blockedBy =>
    cases blockedBy with
    | blockByLock => exact r.lockType_ne_writeLock hpty
    | notBlocked => cases hpty
    | blockByPostWrite => cases hpty

/-- A holder that has its timestamps held the lock before the request, with the
same write lock time. -/
theorem Sound.holder (h : Sound w) {asks : Bool} {queued : Option LockType}
    (effect : Effect u cce asks queued w.shard s') (free : u ∉ (w.shard.keyLock cce).waiting)
    (fresh : asks = true → ∀ res, (cce, res) ∉ (w.txs u).acquired)
    (mem : (c, res) ∈ (w.txs t).acquired) (hold : (s'.keyLock c).HoldsWriteLock t) :
    (w.shard.keyLock c).HoldsWriteLock t ∧
      (s'.keyLock c).wlockTs = (w.shard.keyLock c).wlockTs := by
  have before : (w.shard.keyLock c).HoldsWriteLock t := by
    rcases effect.writer c t hold with hl | ⟨e, he, htx, hty⟩ | ⟨rfl, rfl, asked⟩
    · exact hl
    · exact (h.not_queued mem he htx hty).elim
    · exact absurd mem (fresh asked res)
  refine ⟨before, ?_⟩
  by_cases ne : t ≠ u ∨ c ≠ cce
  · exact effect.wlockTs c t before ne
  · obtain ⟨rfl, rfl⟩ := (not_or.mp ne).imp not_not.mp not_not.mp
    refine effect.own (Bool.eq_false_iff.mpr fun asked => ?_) free hold
    exact fresh asked res mem

/-- The coordinators' records agree but for validation. -/
def SameTxs (txs txs' : TxNumber → TxState K) : Prop :=
  ∀ t, (txs' t).acquired = (txs t).acquired ∧ (txs' t).commitTs = (txs t).commitTs ∧
    (txs' t).reads = (txs t).reads

theorem SameTxs.refl (txs : TxNumber → TxState K) : SameTxs txs txs := fun _ => ⟨rfl, rfl, rfl⟩

/-- Only the locks, and an entry nobody may write any more, have changed. -/
theorem Sound.served [DecidableEq K] (h : Sound w) {txs' : TxNumber → TxState K}
    (effect : Effect u cce false none w.shard s') (free : w.parked u cce = none)
    (now : s'.now = w.shard.now) (same : SameTxs w.txs txs')
    (entries : ∀ c, s'.entries c = w.shard.entries c ∨ (Known s' c ∧ 0 < (s'.entries c).commitTs ∧
      ∀ t res, (c, res) ∈ (w.txs t).acquired → ¬ (s'.keyLock c).HoldsWriteLock t))
    (installed : Cce K → List Nat) :
    Sound { w with shard := s', txs := txs', installed := installed } where
  linked := h.linked.release effect free
  clock := now ▸ h.clock
  positive c hc := by
    rcases entries c with he | he
    · rw [he]
      exact h.positive c (by unfold Known at *; rwa [← he])
    · exact he.2.1
  done t ht c := h.done t ((same t).2.1 ▸ ht) c
  bounds t ts ht := by
    obtain ⟨acquired, commit, reads⟩ := same t
    simp only [acquired, commit, reads] at ht ⊢
    exact h.bounds t ts ht
  once t c res hm := h.once t c res ((same t).1 ▸ hm)
  held t c res hm hold := by
    have mem := (same t).1 ▸ hm
    obtain ⟨before, ts⟩ := h.holder effect (h.linked.idle free).1 (by simp) mem hold
    rcases entries c with he | ⟨-, -, nothing⟩
    · simp only [ts, he]
      exact h.held t c res mem before
    · exact absurd hold (nothing t res mem)
  reads t c v hr := by
    obtain ⟨known, pos⟩ := h.reads t c v ((same t).2.2 ▸ hr)
    rcases entries c with he | he
    · exact ⟨by unfold Known at *; rwa [he], pos⟩
    · exact ⟨he.1, pos⟩
  waiting t c r blockedBy hp := by
    have known := h.waiting t c r blockedBy hp
    rcases entries c with he | he
    · unfold Known at *
      rwa [he]
    · exact he.1

theorem Sound.quiet {w w' : TxWorld K V} (h : Sound w) {asks : Bool} {queued : Option LockType}
    (effect : Effect u cce asks queued w.shard w'.shard) (free : u ∉ (w.shard.keyLock cce).waiting)
    (fresh : asks = true → ∀ res, (cce, res) ∉ (w.txs u).acquired)
    (entries : w'.shard.entries = w.shard.entries) (installed : w'.installed = w.installed)
    (last : w.shard.lastReadTs ≤ w'.shard.lastReadTs)
    (txs : ∀ t, (w'.txs t).acquired = (w.txs t).acquired ∧ (w'.txs t).commitTs = (w.txs t).commitTs)
    (validated : ∀ c t v, (c, v) ∈ (w'.txs t).validated → (c, v) ∈ (w.txs t).validated)
    (answered : ∀ p ∈ w'.answered, p ∈ w.answered) : Quiet w.ledger w'.ledger where
  version := by simp only [ledger, entries]
  history := installed
  readTs := last
  bound := by
    rintro c t b ⟨hold, res, mem, hb⟩
    rw [(txs t).1] at mem
    exact ⟨(h.holder effect free fresh mem hold).1, res, mem, hb⟩
  commit := funext fun t => (txs t).2
  validated := validated
  answered c r v := answered (c, r, v)

variable [DecidableEq K]

/-- What holds of a read when the shard executes it. -/
structure ReadDue (w : TxWorld K V) (r : ReadCc K) (blockedBy : BlockedBy) : Prop where
  unset : (w.txs r.req.txn).commitTs = none
  free : r.req.txn ∉ (w.shard.keyLock r.cce).waiting
  known : blockedBy ≠ .notBlocked → Known w.shard r.cce
  lock : blockedBy = .blockByLock → r.isReadSnapshot = false
  postWrite : blockedBy = .blockByPostWrite → r.req.txn ∈ (w.shard.keyLock r.cce).readLocks

theorem afterRead_tx (w : TxWorld K V) (r : ReadCc K)
    (out : Outcome (ReadResult V) × CcShard K V) (t : TxNumber) :
    ((w.afterRead r out).txs t).acquired = (w.txs t).acquired ∧
      ((w.afterRead r out).txs t).commitTs = (w.txs t).commitTs ∧
      ((w.afterRead r out).txs t).validated = (w.txs t).validated := by
  unfold afterRead
  by_cases ht : t = r.req.txn
  · subst ht
    simp only [Function.update_self]
    unfold TxState.noteRead
    split
    · split <;> exact ⟨rfl, rfl, rfl⟩
    · exact ⟨rfl, rfl, rfl⟩
  · simp [ht]

variable {out : Outcome (ReadResult V) × CcShard K V}

theorem afterRead_reads {r : ReadCc K} (h : (c, v) ∈ ((w.afterRead r out).txs t).reads) :
    (c, v) ∈ (w.txs t).reads ∨
      (t = r.req.txn ∧ c = r.cce ∧
        ∃ res, out.1 = .finished res ∧ r.isReadSnapshot = false ∧ v = res.ts) := by
  unfold afterRead at h
  by_cases ht : t = r.req.txn
  · subst ht
    simp only [Function.update_self] at h
    unfold TxState.noteRead at h
    split at h
    · rename_i res hres
      split at h
      · exact Or.inl h
      · rename_i snap
        rcases List.mem_cons.mp h with heq | h
        · obtain ⟨rfl, rfl⟩ := Prod.mk.inj heq
          exact Or.inr ⟨rfl, rfl, res, hres, by simpa using snap, rfl⟩
        · exact Or.inl h
    · exact Or.inl h
  · exact Or.inl (by simpa [ht] using h)

omit [DecidableEq K] in
theorem answers_cases (r : ReadCc K) (out : Outcome (ReadResult V)) : r.answers out = [] ∨
    ∃ res, out = .finished res ∧ r.isReadSnapshot = true ∧
      (res.recStatus = .normal ∨ res.recStatus = .deleted) ∧
      r.answers out = [(r.cce, r.readTimestamp, res.ts)] := by
  unfold ReadCc.answers
  split
  · split
    · rename_i res hc
      exact Or.inr ⟨res, rfl, hc.1, hc.2, rfl⟩
    · exact Or.inl rfl
  · exact Or.inl rfl

theorem Sound.afterRead (h : Sound w) {r : ReadCc K} {blockedBy : BlockedBy}
    (due : ReadDue w r blockedBy) (spec : ReadSpec w.shard r blockedBy out) :
    Sound (w.afterRead r out) := by
  have known (hout : out.1 ≠ .fetching) : Known w.shard r.cce := by
    by_cases hb : blockedBy = .notBlocked
    · exact spec.known hb hout
    · exact due.known hb
  have same (c : Cce K) : Known (w.afterRead r out).shard c ↔ Known w.shard c := by
    unfold Known
    rw [show (w.afterRead r out).shard.entries = w.shard.entries from spec.entries]
  have parked (t : TxNumber) (c : Cce K) (ne : t ≠ r.req.txn ∨ c ≠ r.cce) :
      (w.afterRead r out).parked t c = w.parked t c := Linked.park_ne _ ne
  have own : (w.afterRead r out).parked r.req.txn r.cce = r.parks out.1 := Linked.park_same _ _ _
  refine ⟨?_, ?_, ?_, ?_, ?_, ?_, ?_, ?_, ?_⟩
  · refine h.linked.step spec.effect due.free spec.quiet ?_ ?_
    · intro ty hty
      unfold Outcome.waitsFor at hty
      split at hty <;> rename_i hout <;> simp only [Option.some.injEq, reduceCtorEq] at hty
      · exact ⟨.read r .blockByLock, by rw [hout]; rfl, hty⟩
      · exact ⟨.read r .blockByPostWrite, by rw [hout]; rfl, hty⟩
    · intro q hq
      unfold ReadCc.parks at hq
      split at hq <;> rename_i hout <;> simp only [Option.some.injEq, reduceCtorEq] at hq
      · exact hq ▸ ⟨rfl, rfl, Or.inr ⟨rfl, spec.blocked hout⟩⟩
      · exact hq ▸ ⟨rfl, rfl, Or.inl rfl⟩
  · exact spec.now ▸ h.clock
  · intro c hc
    rw [show (w.afterRead r out).shard.entries = w.shard.entries from spec.entries]
    exact h.positive c ((same c).mp hc)
  · intro t ht c
    rw [(afterRead_tx w r out t).2.1] at ht
    rw [parked t c (Or.inl fun heq => ht (heq ▸ due.unset))]
    exact h.done t ht c
  · intro t ts ht
    have ht' := (afterRead_tx w r out t).2.1 ▸ ht
    rw [(afterRead_tx w r out t).1]
    refine ⟨(h.bounds t ts ht').1, fun read hr => ?_⟩
    rcases afterRead_reads hr with hr | ⟨rfl, -⟩
    · exact (h.bounds t ts ht').2 read hr
    · cases due.unset.symm.trans ht'
  · intro t c res hm r'
    rw [(afterRead_tx w r out t).1] at hm
    by_cases ne : t ≠ r.req.txn ∨ c ≠ r.cce
    · rw [parked t c ne]
      exact h.once t c res hm r'
    · obtain ⟨rfl, rfl⟩ := (not_or.mp ne).imp not_not.mp not_not.mp
      rw [own]
      unfold ReadCc.parks
      split <;> simp
  · intro t c res hm hold
    rw [(afterRead_tx w r out t).1] at hm
    obtain ⟨before, ts⟩ := h.holder spec.effect due.free (by simp) hm hold
    rw [show (w.afterRead r out).shard.entries = w.shard.entries from spec.entries]
    exact ts ▸ h.held t c res hm before
  · intro t c v hr
    rw [same]
    rcases afterRead_reads hr with hr | ⟨rfl, rfl, res, hres, snap, rfl⟩
    · exact h.reads t c v hr
    · have hk := known (by simp [hres])
      exact ⟨hk, spec.finished res hres snap ▸ h.positive _ hk⟩
  · intro t c r' blockedBy' hp
    rw [same]
    by_cases ne : t ≠ r.req.txn ∨ c ≠ r.cce
    · exact h.waiting t c r' blockedBy' (parked t c ne ▸ hp)
    · obtain ⟨rfl, rfl⟩ := (not_or.mp ne).imp not_not.mp not_not.mp
      rw [own] at hp
      exact known fun hf => by simp [hf, ReadCc.parks] at hp

omit [DecidableEq K] in
theorem answered_known {ts lastReadTs : Nat} {status : RecordStatus}
    (hstatus : status = ((w.shard.entries c).mvccGet ts lastReadTs).1.payloadStatus)
    (answered : status = .normal ∨ status = .deleted) : Known w.shard c := by
  intro hu
  simp only [CcEntry.mvccGet, hu, ↓reduceIte] at hstatus
  simp [hstatus] at answered

/-- A read is nothing to the protocol but a snapshot read that is answered. -/
theorem Sound.afterRead_step (h : Sound w) {r : ReadCc K} {blockedBy : BlockedBy}
    (due : ReadDue w r blockedBy) (spec : ReadSpec w.shard r blockedBy out) :
    TimestampOrder.Step w.ledger (w.afterRead r out).ledger := by
  have quiet (answered : List (Cce K × Nat × Nat)) (ha : ∀ p ∈ answered, p ∈ w.answered) :
      Quiet w.ledger { w.afterRead r out with answered := answered }.ledger :=
    h.quiet spec.effect due.free (by simp) spec.entries rfl spec.lastReadTs
      (fun t => ⟨(afterRead_tx w r out t).1, (afterRead_tx w r out t).2.1⟩)
      (fun c t v hv => (afterRead_tx w r out t).2.2 ▸ hv) ha
  rcases answers_cases r out.1 with nothing | ⟨res, hres, snap, status, one⟩
  · exact .idle (quiet _ fun p hp => by simpa [TxWorld.afterRead, nothing] using hp)
  · have answered : (w.afterRead r out).answered =
        (r.cce, r.readTimestamp, res.ts) :: w.answered := by simp [TxWorld.afterRead, one]
    obtain ⟨hts, hstatus, hlast, hfree⟩ := spec.snapshot res hres snap
    have known : (w.shard.entries r.cce).payloadStatus ≠ .unknown := answered_known hstatus status
    refine .answer r.cce r.readTimestamp res.ts (w.shard.entries r.cce).commitTs
      (quiet w.answered fun _ hp => hp) ?_ (by simp [ledger, known]) ?_
    · intro k' r' v' ha
      have ha' : (k', r', v') ∈ (r.cce, r.readTimestamp, res.ts) :: w.answered := answered ▸ ha
      rcases List.mem_cons.mp ha' with heq | ha'
      · obtain ⟨rfl, rfl, rfl⟩ : k' = r.cce ∧ r' = r.readTimestamp ∧ v' = res.ts := by
          simpa using heq
        exact Or.inr ⟨rfl, rfl, rfl⟩
      · exact Or.inl ha'
    · by_cases hle : (w.shard.entries r.cce).commitTs ≤ r.readTimestamp
      · simp only [CcEntry.mvccGet, known, ↓reduceIte, hle] at hts hlast
        have noticed : r.readTimestamp ≤ out.2.lastReadTs := hlast ▸ Nat.le_max_left _ _
        refine Or.inl ⟨hts.symm, hts ▸ hle, noticed, ?_⟩
        rintro t b ⟨hold, res', mem, rfl⟩
        rw [(afterRead_tx w r out t).1] at mem
        obtain ⟨before, -⟩ := h.holder spec.effect due.free (by simp) mem hold
        have ts := (h.held t r.cce res' mem before).1
        cases blockedBy with
        | notBlocked =>
          have := hfree rfl
          simp only [mustWaitWrite, hasWriteLock, before.1, decide_true, Bool.true_and,
            decide_eq_false_iff_not] at this
          omega
        | blockByLock => cases snap.symm.trans (due.lock rfl)
        | blockByPostWrite =>
          have alone := (h.linked.orderly.tidy r.cce).alone before.1
          simpa [alone] using due.postWrite rfl
      · exact Or.inr (Nat.lt_of_not_le hle)

omit [DecidableEq K] in
theorem notePostRead_same (tx : TxState K) (cce : Cce K) (v : Nat) (out : Outcome Unit) :
    (tx.notePostRead cce v out).acquired = tx.acquired ∧
      (tx.notePostRead cce v out).commitTs = tx.commitTs ∧
      (tx.notePostRead cce v out).reads = tx.reads := by
  unfold TxState.notePostRead
  split <;> exact ⟨rfl, rfl, rfl⟩

omit [DecidableEq K] in
theorem afterPostRead_sameTxs (w : TxWorld K V) (r : PostReadCc K)
    (out : Outcome Unit × CcShard K V) : SameTxs w.txs (w.afterPostRead r out).txs := by
  intro t
  unfold TxWorld.afterPostRead
  by_cases ht : t = r.txn
  · subst ht
    simpa using notePostRead_same (w.txs r.txn) r.cce r.keyTs out.1
  · simp [ht]

omit [DecidableEq K] in
theorem afterPostRead_validated {r : PostReadCc K} {out : Outcome Unit × CcShard K V}
    (h : (c, v) ∈ ((w.afterPostRead r out).txs t).validated) :
    (c, v) ∈ (w.txs t).validated ∨
      (out.1 = .finished () ∧ c = r.cce ∧ t = r.txn ∧ v = r.keyTs) := by
  unfold TxWorld.afterPostRead at h
  by_cases ht : t = r.txn
  · subst ht
    simp only [Function.update_self] at h
    unfold TxState.notePostRead at h
    split at h
    · rename_i hfin
      rcases List.mem_cons.mp h with heq | h
      · obtain ⟨rfl, rfl⟩ := Prod.mk.inj heq
        exact Or.inr ⟨hfin, rfl, rfl, rfl⟩
      · exact Or.inl h
    · exact Or.inl h
  · exact Or.inl (by simpa [ht] using h)

/-- A read that passes validation is validated in the protocol, one that fails is nothing. -/
theorem Sound.afterPostRead_step (h : Sound w) {r : PostReadCc K} {out : Outcome Unit × CcShard K V}
    (spec : PostReadSpec w.shard r out) (chosen : (w.txs r.txn).commitTs = some r.commitTs)
    (mem : (r.cce, r.keyTs) ∈ (w.txs r.txn).reads) :
    TimestampOrder.Step w.ledger (w.afterPostRead r out).ledger := by
  have free := h.done r.txn (by simp [chosen]) r.cce
  have same := afterPostRead_sameTxs w r out
  have waits := (h.linked.idle free).1
  obtain ⟨known, pos⟩ := h.reads r.txn r.cce r.keyTs mem
  have quiet : Quiet w.ledger
      { (w.afterPostRead r out).ledger with validated := w.ledger.validated } := by
    refine ⟨?_, rfl, spec.lastReadTs, ?_, funext fun t => (same t).2.1, fun _ _ _ hv => hv,
      fun _ _ _ ha => ha⟩
    · simp only [ledger, TxWorld.afterPostRead, spec.entries]
    · rintro c t b ⟨hold, res, hm, hb⟩
      have hm' := (same t).1 ▸ hm
      exact ⟨(h.holder spec.effect waits (by simp) hm' hold).1, res, hm', hb⟩
  by_cases hfin : out.1 = .finished ()
  · obtain ⟨read, alone, newest⟩ := spec.finished hfin pos
    refine .validate r.cce r.txn r.keyTs r.commitTs quiet ?_ chosen
      (ledger_version.mpr ⟨known, newest known⟩) ((h.bounds r.txn r.commitTs chosen).2 _ mem) read ?_
    · intro c t v hv
      exact (afterPostRead_validated hv).imp_right And.right
    · rintro t b ⟨hold, res, hm, -⟩
      exact alone t (h.holder spec.effect waits (by simp) ((same t).1 ▸ hm) hold).1
  · refine .idle ⟨quiet.version, quiet.history, quiet.readTs, quiet.bound, quiet.commit, ?_,
      quiet.answered⟩
    intro c t v hv
    exact (afterPostRead_validated hv).resolve_right fun hn => hfin hn.1

variable {r : PostWriteCc K V}

omit [DecidableEq K] in
theorem overwrite_version (cfg : ShardConfig) (recycleTs : Nat) {e : CcEntry V}
    (newer : e.commitTs < r.commitTs) :
    (overwrite cfg recycleTs e r).commitTs = r.commitTs ∧
      (overwrite cfg recycleTs e r).payloadStatus ≠ .unknown := by
  have keep : (if cfg.enableMvcc then e.archiveForMvcc recycleTs else e).commitTs < r.commitTs := by
    split
    · rwa [(CcEntry.archiveForMvcc_frame e recycleTs).1]
    · exact newer
  simp only [overwrite, CcEntry.installVersion, CcEntry.setCommitTsPayloadStatus, keep, ↓reduceIte]
  exact ⟨trivial, by split <;> simp⟩

/-- What holds of a write when the shard executes it. -/
structure WriteDue (w : TxWorld K V) (r : PostWriteCc K V) (res : AcquireKeyResult) : Prop where
  chosen : (w.txs r.txn).commitTs = some r.commitTs
  mem : (r.cce, res) ∈ (w.txs r.txn).acquired

omit [DecidableEq K] in
theorem WriteDue.above (h : Sound w) (due : WriteDue w r res) :
    max res.lastValiTs res.commitTs < r.commitTs :=
  (h.bounds r.txn r.commitTs due.chosen).1 _ due.mem

omit [DecidableEq K] in
theorem WriteDue.newer (h : Sound w) (due : WriteDue w r res)
    (hold : (w.shard.keyLock r.cce).HoldsWriteLock r.txn) :
    (w.shard.entries r.cce).commitTs < r.commitTs := by
  have above := due.above h
  have := (h.held r.txn r.cce res due.mem hold).2
  omega

variable {cfg : ShardConfig} {recycleTs : Nat}

section
variable (h : Sound w) (due : WriteDue w r res) (spec : PostWriteSpec cfg recycleTs w.shard r s')
include h due spec

/-- After a write nobody may write the entry on what it was told before. -/
theorem Sound.released (hold : (w.shard.keyLock r.cce).HoldsWriteLock r.txn)
    {res' : AcquireKeyResult} (mem : (r.cce, res') ∈ (w.txs t).acquired) :
    ¬ (s'.keyLock r.cce).HoldsWriteLock t := by
  intro hold'
  have free := h.done r.txn (by simp [due.chosen]) r.cce
  have before := (h.holder spec.effect (h.linked.idle free).1 (by simp) mem hold').1
  obtain rfl := before.unique hold
  obtain ⟨e, he, htx, hty⟩ := spec.released hold'
  exact h.not_queued mem he htx hty

theorem Sound.afterPostWrite : Sound (w.afterPostWrite r s') := by
  refine h.served spec.effect (h.done r.txn (by simp [due.chosen]) r.cce) spec.now (.refl _) ?_ _
  intro c
  rw [spec.entries]
  split
  · rename_i hw
    by_cases hc : c = r.cce
    · subst hc
      obtain ⟨ts, known⟩ := overwrite_version cfg recycleTs
        (due.newer h hw.1)
      refine Or.inr ⟨?_, ?_, fun t res' hm => h.released due spec hw.1 hm⟩
      · unfold Known
        rw [spec.entries, if_pos hw]
        simpa using known
      · simpa [ts] using hw.2
    · exact Or.inl (by simp [hc])
  · exact Or.inl rfl

theorem Sound.afterPostWrite_step :
    TimestampOrder.Step w.ledger (w.afterPostWrite r s').ledger := by
  have free := h.done r.txn (by simp [due.chosen]) r.cce
  have bound (c : Cce K) (t : TxNumber) (b : Nat) :
      (w.afterPostWrite r s').ledger.bound c t b → w.ledger.bound c t b := by
    rintro ⟨hold, res', hm, hb⟩
    exact ⟨(h.holder spec.effect (h.linked.idle free).1 (by simp) hm hold).1, res', hm, hb⟩
  by_cases hw : (w.shard.keyLock r.cce).HoldsWriteLock r.txn ∧ 0 < r.commitTs
  · have entries := spec.entries.trans (if_pos hw)
    obtain ⟨ts, known⟩ := overwrite_version cfg recycleTs
      (due.newer h hw.1)
    refine .write r.cce r.txn (max res.lastValiTs res.commitTs) r.commitTs
      ⟨rfl, rfl, Nat.le_of_eq spec.lastReadTs.symm, bound, rfl, fun _ _ _ hv => hv,
        fun _ _ _ ha => ha⟩ ?_ ?_ ⟨hw.1, res, due.mem, rfl⟩ (due.above h) due.chosen ?_
    · funext c
      by_cases hc : c = r.cce
      · subst hc
        simpa [ledger, TxWorld.afterPostWrite, entries, ts] using known
      · simp [ledger, TxWorld.afterPostWrite, entries, hc]
    · simp only [ledger, TxWorld.afterPostWrite, if_pos hw]
    · rintro t b ⟨hold, res', hm, -⟩
      exact h.released due spec hw.1 hm hold
  · have entries := spec.entries.trans (if_neg hw)
    refine .idle ⟨?_, ?_, Nat.le_of_eq spec.lastReadTs.symm, bound, rfl, fun _ _ _ hv => hv,
      fun _ _ _ ha => ha⟩
    · simp only [ledger, TxWorld.afterPostWrite, entries]
    · simp only [ledger, TxWorld.afterPostWrite, if_neg hw]

end

end TxWorld

end TxService
