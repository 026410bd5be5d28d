import TxService.ShardLocks
import TxService.TemplateCcMap

/-!
# What one request does to the locks of a shard

Which requests may be queued or resumed afterwards, who may have gained the write lock, and who
keeps its read lock.
-/

namespace TxService.CcShard

open NonBlockingLock

variable {K V : Type} [DecidableEq K]

/-- A request of `u` at `cce` was executed. `asks` tells whether it asked for the
write lock, `queued` is the lock it now waits for, if it does. -/
structure Effect (u : TxNumber) (cce : Cce K) (asks : Bool) (queued : Option LockType)
    (s s' : CcShard K V) : Prop where
  orderly : Orderly s'
  queue : ∀ c, ∀ e ∈ (s'.keyLock c).blockingQueue, e ∈ (s.keyLock c).blockingQueue ∨
    (c = cce ∧ e.req.txn = u ∧ queued = some e.lkType)
  resumed : ∀ c req, (c, req) ∈ s'.ccQueue → (c, req) ∈ s.ccQueue ∨
    ∃ e ∈ (s.keyLock c).blockingQueue, e.req = req ∧ (s'.keyLock c).Has req.txn e.lkType
  reader : ∀ c t, t ∈ (s.keyLock c).readLocks → t ∉ (s.keyLock c).waiting → (t ≠ u ∨ c ≠ cce) →
    t ∈ (s'.keyLock c).readLocks
  keeps : ∀ c t, (s.keyLock c).HoldsWriteLock t → (t ≠ u ∨ c ≠ cce) →
    (s'.keyLock c).HoldsWriteLock t
  writer : ∀ c t, (s'.keyLock c).HoldsWriteLock t → (s.keyLock c).HoldsWriteLock t ∨
    (∃ e ∈ (s.keyLock c).blockingQueue, e.req.txn = t ∧ e.lkType = .writeLock) ∨
    (t = u ∧ c = cce ∧ asks = true)
  wlockTs : ∀ c t, (s.keyLock c).HoldsWriteLock t → (t ≠ u ∨ c ≠ cce) →
    (s'.keyLock c).wlockTs = (s.keyLock c).wlockTs
  own : asks = false → u ∉ (s.keyLock cce).waiting → (s'.keyLock cce).HoldsWriteLock u →
    (s'.keyLock cce).wlockTs = (s.keyLock cce).wlockTs

variable {u : TxNumber} {cce : Cce K} {asks : Bool} {queued : Option LockType} {s s' : CcShard K V}

omit [DecidableEq K] in
theorem Effect.has (h : Effect u cce asks queued s s') {c : Cce K} {t : TxNumber} {ty : LockType}
    (ht : (s.keyLock c).Has t ty) (left : t ∉ (s.keyLock c).waiting) (ne : t ≠ u ∨ c ≠ cce) :
    (s'.keyLock c).Has t ty :=
  ht.mono (fun hr => h.reader c t hr left ne) (fun hw => h.keeps c t hw ne)

omit [DecidableEq K] in
theorem Effect.of_untouched (h : Untouched s s') (o : Orderly s) : Effect u cce asks none s s' where
  orderly := h.orderly o
  queue c e he := Or.inl (by rwa [(h.locks c).queue] at he)
  resumed c req hr := Or.inl (by rwa [h.ccQueue] at hr)
  reader c t ht _ _ := by rwa [(h.locks c).readLocks]
  keeps c t ht _ := ((h.locks c).writer t).mpr ht
  writer c t ht := Or.inl (((h.locks c).writer t).mp ht)
  wlockTs c t ht _ := (h.locks c).wlockTs t ht
  own _ _ hu := (h.locks cce).wlockTs u (((h.locks cce).writer u).mp hu)

theorem Effect.of_released (h : ReleasedAt u cce s s') (o : Orderly s) :
    Effect u cce asks none s s' := by
  obtain ⟨woken, rel, queue⟩ := h.lock
  have other {t : TxNumber} (ne : t ≠ u ∨ cce ≠ cce) : t ≠ u := ne.resolve_right fun hn => hn rfl
  refine ⟨h.orderly o, ?_, ?_, ?_, ?_, ?_, ?_, ?_⟩
  · intro c e he
    by_cases hc : c = cce
    · subst hc
      exact Or.inl (rel.queue e he)
    · exact Or.inl (by rwa [h.others c hc] at he)
  · intro c req hr
    rw [queue, List.mem_append] at hr
    rcases hr with hr | hr
    · exact Or.inl hr
    · obtain ⟨r, woke, heq⟩ := List.mem_map.mp hr
      obtain ⟨rfl, rfl⟩ := Prod.mk.inj heq
      obtain ⟨e, he, heq, -, has⟩ := rel.wakes r woke
      exact Or.inr ⟨e, he, heq, has⟩
  · intro c t ht hw ne
    by_cases hc : c = cce
    · subst hc
      exact rel.reader t (other ne) ht hw
    · rwa [h.others c hc]
  · intro c t ht ne
    by_cases hc : c = cce
    · subst hc
      exact rel.keeps t (other ne) ht
    · rwa [h.others c hc]
  · intro c t ht
    by_cases hc : c = cce
    · subst hc
      rcases rel.writer t ht with ⟨-, hl⟩ | ⟨e, he, htx, hty, -⟩
      · exact Or.inl hl
      · exact Or.inr (Or.inl ⟨e, he, htx, hty⟩)
    · exact Or.inl (by rwa [h.others c hc] at ht)
  · intro c t ht ne
    by_cases hc : c = cce
    · subst hc
      exact rel.wlockTs t (other ne) ht
    · rw [h.others c hc]
  · -- a transaction that gave up its lock has it again only from the queue
    intro _ left hu
    rcases rel.writer u hu with ⟨hne, -⟩ | ⟨e, he, rfl, -⟩
    · exact absurd rfl hne
    · exact absurd (List.mem_map_of_mem he) left

theorem Effect.of_requested {req : CcRequest} {ty : LockType} (h : RequestedAt req ty cce s s')
    (o : Orderly s) (idle : Idle s cce req.txn) (kind : ty = .writeLock → asks = true)
    (waits : queued = some ty ∨ (s'.keyLock cce).blockingQueue = (s.keyLock cce).blockingQueue) :
    Effect req.txn cce asks queued s s' := by
  refine ⟨h.orderly o idle, ?_, ?_, ?_, ?_, ?_, ?_, fun _ _ _ => h.lock.wlockTs⟩
  · intro c e he
    by_cases hc : c = cce
    · subst hc
      rcases waits with rfl | same
      · rcases h.lock.queue e he with he | rfl
        · exact Or.inl he
        · exact Or.inr ⟨rfl, rfl, rfl⟩
      · exact Or.inl (by rwa [same] at he)
    · exact Or.inl (by rwa [h.others c hc] at he)
  · intro c r hr
    exact Or.inl (by rwa [h.ccQueue] at hr)
  · intro c t ht _ ne
    by_cases hc : c = cce
    · subst hc
      exact h.lock.reader t (ne.resolve_right fun hn => hn rfl) ht
    · rwa [h.others c hc]
  · intro c t ht _
    by_cases hc : c = cce
    · subst hc
      exact h.lock.keeps t ht
    · rwa [h.others c hc]
  · intro c t ht
    by_cases hc : c = cce
    · subst hc
      rcases h.lock.writer t ht with hl | ⟨rfl, hty⟩
      · exact Or.inl hl
      · exact Or.inr (Or.inr ⟨rfl, rfl, kind hty⟩)
    · exact Or.inl (by rwa [h.others c hc] at ht)
  · intro c t _ _
    by_cases hc : c = cce
    · subst hc
      exact h.lock.wlockTs
    · rw [h.others c hc]

/-- Two parts of one execution; only the last can leave the request waiting. -/
theorem Effect.trans {s s' s'' : CcShard K V} (h : Effect u cce asks none s s')
    (h' : Effect u cce asks queued s' s'') (left : u ∉ (s.keyLock cce).waiting) :
    Effect u cce asks queued s s'' := by
  have queue (c : Cce K) (e : LockQueueEntry) (he : e ∈ (s'.keyLock c).blockingQueue) :
      e ∈ (s.keyLock c).blockingQueue :=
    (h.queue c e he).resolve_right fun hn => by cases hn.2.2
  have waiting (c : Cce K) (t : TxNumber) (ht : t ∉ (s.keyLock c).waiting) :
      t ∉ (s'.keyLock c).waiting := by
    intro hw
    obtain ⟨e, he, rfl⟩ := List.mem_map.mp hw
    exact ht (List.mem_map_of_mem (queue c e he))
  refine ⟨h'.orderly, ?_, ?_, ?_, ?_, ?_, ?_, ?_⟩
  · intro c e he
    exact (h'.queue c e he).imp_left (queue c e)
  · intro c req hr
    rcases h'.resumed c req hr with hr' | ⟨e, he, heq, has⟩
    · refine (h.resumed c req hr').imp_right ?_
      rintro ⟨e, he, rfl, has⟩
      have ne : e.req.txn ≠ u ∨ c ≠ cce := by
        by_contra hn
        obtain ⟨rfl, rfl⟩ := not_or.mp hn |>.imp not_not.mp not_not.mp
        exact left (List.mem_map_of_mem he)
      exact ⟨e, he, rfl, h'.has has (h.orderly.left c e.req hr') ne⟩
    · exact Or.inr ⟨e, queue c e he, heq, has⟩
  · intro c t ht hw ne
    exact h'.reader c t (h.reader c t ht hw ne) (waiting c t hw) ne
  · intro c t ht ne
    exact h'.keeps c t (h.keeps c t ht ne) ne
  · intro c t ht
    rcases h'.writer c t ht with hl | ⟨e, he, hty⟩ | hu
    · exact h.writer c t hl
    · exact Or.inr (Or.inl ⟨e, queue c e he, hty⟩)
    · exact Or.inr (Or.inr hu)
  · intro c t ht ne
    exact (h'.wlockTs c t (h.keeps c t ht ne) ne).trans (h.wlockTs c t ht ne)
  · intro asked hw hu
    have hu' : (s'.keyLock cce).HoldsWriteLock u := by
      rcases h'.writer cce u hu with hl | ⟨e, he, rfl, -⟩ | ⟨-, -, asks⟩
      · exact hl
      · exact absurd (List.mem_map_of_mem (queue cce e he)) hw
      · cases asked.symm.trans asks
    exact (h'.own asked (waiting cce u hw) hu).trans (h.own asked hw hu')

omit [DecidableEq K] in
/-- No request of the transaction is about to resume behind the executed one. -/
theorem Effect.quiet (h : Effect u cce asks queued s s') (idle : Idle s cce u) :
    ∀ req, (cce, req) ∈ s'.ccQueue → req.txn ≠ u := by
  intro req hr htx
  rcases h.resumed cce req hr with hr | ⟨e, he, rfl, -⟩
  · exact idle.2 req hr htx
  · exact idle.1 (htx ▸ List.mem_map_of_mem he)

omit [DecidableEq K] in
theorem Effect.idle (h : Effect u cce asks none s s') (idle : Idle s cce u) : Idle s' cce u := by
  refine ⟨fun hw => ?_, h.quiet idle⟩
  obtain ⟨e, he, htx⟩ := List.mem_map.mp hw
  rcases h.queue cce e he with he | ⟨-, -, hn⟩
  · exact idle.1 (htx ▸ List.mem_map_of_mem he)
  · cases hn

omit [DecidableEq K] in
theorem Effect.congr {s s' s'' : CcShard K V} (h : Effect u cce asks queued s s')
    (locks : s''.locks = s'.locks) (queue : s''.ccQueue = s'.ccQueue) :
    Effect u cce asks queued s s'' := by
  obtain ⟨entries, locks', txs, last, now, queue'⟩ := s''
  obtain rfl : locks' = s'.locks := locks
  obtain rfl : queue' = s'.ccQueue := queue
  exact ⟨⟨h.orderly.tidy, h.orderly.once, h.orderly.left⟩, h.queue, h.resumed, h.reader, h.keeps,
    h.writer, h.wlockTs, h.own⟩

omit [DecidableEq K] in
theorem Effect.congr_left {s₁ s s' : CcShard K V} (h : Effect u cce asks queued s₁ s')
    (locks : s₁.locks = s.locks) (queue : s₁.ccQueue = s.ccQueue) :
    Effect u cce asks queued s s' := by
  obtain ⟨entries, locks', txs, last, now, queue'⟩ := s₁
  obtain rfl : locks' = s.locks := locks
  obtain rfl : queue' = s.ccQueue := queue
  exact ⟨h.orderly, h.queue, h.resumed, h.reader, h.keeps, h.writer, h.wlockTs, h.own⟩

theorem Effect.after_dequeue {cce c₀ : Cce K} {req : CcRequest}
    (h : Effect u cce asks queued (s.dequeue c₀ req) s') :
    Effect u cce asks queued s s' where
  orderly := h.orderly
  queue := h.queue
  resumed c r hr := (h.resumed c r hr).imp_left List.mem_of_mem_erase
  reader := h.reader
  keeps := h.keeps
  writer := h.writer
  wlockTs := h.wlockTs
  own := h.own

theorem Effect.setWLockTs (h : Effect u cce true queued s s')
    (own : ∀ t, (s.keyLock cce).HoldsWriteLock t → t = u) (ts : Nat) :
    Effect u cce true queued s (s'.setKeyLock cce ((s'.keyLock cce).setWLockTs ts)) := by
  have same (c : Cce K) : ∃ ts', (s'.setKeyLock cce ((s'.keyLock cce).setWLockTs ts)).keyLock c =
      (s'.keyLock c).setWLockTs ts' ∧ (c ≠ cce → ts' = (s'.keyLock c).wlockTs) := by
    by_cases hc : c = cce
    · subst hc
      exact ⟨ts, by simp, fun hn => absurd rfl hn⟩
    · exact ⟨(s'.keyLock c).wlockTs, keyLock_setKeyLock_ne s' _ hc, fun _ => rfl⟩
  have orderly : Orderly (s'.setKeyLock cce ((s'.keyLock cce).setWLockTs ts)) := by
    refine ⟨fun c => ?_, h.orderly.once, fun c r hr => ?_⟩
    · obtain ⟨ts', hl, -⟩ := same c
      exact hl ▸ (h.orderly.tidy c).setWLockTs ts'
    · obtain ⟨ts', hl, -⟩ := same c
      rw [hl]
      exact h.orderly.left c r hr
  refine ⟨orderly, ?_, ?_, ?_, ?_, ?_, ?_, by simp⟩ <;> intro c <;> obtain ⟨ts', hl, hts⟩ := same c <;>
    rw [hl]
  · exact h.queue c
  · intro req hr
    refine (h.resumed c req hr).imp_right ?_
    rintro ⟨e, he, heq, has⟩
    exact ⟨e, he, heq, has.mono (fun hr => hr) (fun hw => hw)⟩
  · exact h.reader c
  · exact h.keeps c
  · exact h.writer c
  · intro t ht ne
    have hc : c ≠ cce := ne.elim (fun hn hc => hn (own t (hc ▸ ht))) id
    exact (hts hc).trans (h.wlockTs c t ht ne)

end TxService.CcShard
