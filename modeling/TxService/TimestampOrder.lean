import Mathlib.Data.List.Pairwise
import Mathlib.Logic.Relation

/-!
# Optimistic timestamp ordering

A writer that holds a key knows a bound below which it may not commit. Reads push a common read
timestamp, from which later bounds are taken.
-/

namespace TxService.TimestampOrder

universe u v
variable {κ : Type u} {τ : Type v}

structure Ledger (κ : Type u) (τ : Type v) where
  /-- The newest version of a key, if it is known. -/
  version : κ → Option Nat
  /-- All its versions, newest first. -/
  history : κ → List Nat
  readTs : Nat
  /-- A transaction that may write a key, and the timestamp it must commit above. -/
  bound : κ → τ → Nat → Prop
  commit : τ → Option Nat
  /-- The transaction's read of this version was validated. -/
  validated : κ → τ → Nat → Prop
  /-- A read at the first timestamp was answered with the second one's version. -/
  answered : κ → Nat → Nat → Prop

/-- Nothing is written, chosen or promised anew. -/
structure Quiet (a a' : Ledger κ τ) : Prop where
  version : a'.version = a.version
  history : a'.history = a.history
  readTs : a.readTs ≤ a'.readTs
  bound : ∀ k t b, a'.bound k t b → a.bound k t b
  commit : a'.commit = a.commit
  validated : ∀ k t v, a'.validated k t v → a.validated k t v
  answered : ∀ k r v, a'.answered k r v → a.answered k r v

theorem Quiet.refl (a : Ledger κ τ) : Quiet a a :=
  ⟨rfl, rfl, Nat.le_refl _, fun _ _ _ h => h, rfl, fun _ _ _ h => h, fun _ _ _ h => h⟩

/-- In each step but the first everything else is quiet. -/
inductive Step [DecidableEq κ] [DecidableEq τ] (a a' : Ledger κ τ) : Prop
  | idle (quiet : Quiet a a')
  | grant (k : κ) (t : τ) (b : Nat) (quiet : Quiet a { a' with bound := a.bound })
      (only : ∀ k' t' b', a'.bound k' t' b' → a.bound k' t' b' ∨ (k' = k ∧ t' = t ∧ b' = b))
      (read : a.readTs ≤ b) (newest : ∀ v, a.version k = some v → v ≤ b)
  /-- A key nothing was known of turns out to have a version. -/
  | discover (k : κ) (v : Nat)
      (quiet : Quiet a { a' with version := a.version, history := a.history })
      (version : a'.version = Function.update a.version k (some v))
      (history : a'.history = Function.update a.history k [v])
      (unknown : a.version k = none) (above : ∀ t b, a'.bound k t b → v ≤ b)
  | choose (t : τ) (c : Nat) (quiet : Quiet a { a' with commit := a.commit })
      (commit : a'.commit = Function.update a.commit t (some c)) (unset : a.commit t = none)
  | validate (k : κ) (t : τ) (v c : Nat) (quiet : Quiet a { a' with validated := a.validated })
      (only : ∀ k' t' v', a'.validated k' t' v' →
        a.validated k' t' v' ∨ (k' = k ∧ t' = t ∧ v' = v))
      (chosen : a.commit t = some c) (newest : a.version k = some v) (below : v < c)
      (read : c ≤ a'.readTs) (alone : ∀ t' b, a'.bound k t' b → t' = t)
  | write (k : κ) (t : τ) (b c : Nat)
      (quiet : Quiet a { a' with version := a.version, history := a.history })
      (version : a'.version = Function.update a.version k (some c))
      (history : a'.history = Function.update a.history k (c :: a.history k))
      (holds : a.bound k t b) (above : b < c) (chosen : a.commit t = some c)
      (released : ∀ t' b', ¬ a'.bound k t' b')
  /-- A read in the past sees the newest version, and is noticed, or an older one. -/
  | answer (k : κ) (r v w : Nat) (quiet : Quiet a { a' with answered := a.answered })
      (only : ∀ k' r' v', a'.answered k' r' v' → a.answered k' r' v' ∨ (k' = k ∧ r' = r ∧ v' = v))
      (newest : a.version k = some w)
      (sees : (w = v ∧ v ≤ r ∧ r ≤ a'.readTs ∧ ∀ t b, a'.bound k t b → r ≤ b) ∨ r < w)

/-- What is kept of a validated read. -/
structure ReadKept (a : Ledger κ τ) (k : κ) (t : τ) (v c : Nat) : Prop where
  chosen : a.commit t = some c
  below : v < c
  mem : v ∈ a.history k
  largest : ∀ u ∈ a.history k, u < c → u ≤ v
  noticed : c ≤ a.readTs
  writers : ∀ t' b, a.bound k t' b → t' ≠ t → c ≤ b

/-- What is kept of an answered read: its version is still the newest and the
read has been noticed, or the newest one is out of its sight. -/
structure AnswerKept (a : Ledger κ τ) (k : κ) (r v : Nat) : Prop where
  newest : ∃ w, a.version k = some w ∧ (w = v ∧ v ≤ r ∧ r ≤ a.readTs ∨ r < w)
  writers : ∀ t b, a.bound k t b → r ≤ b

/-- The versions of each key are in order, a writer's bound is above the newest
one, and validated reads are kept. -/
structure Ordered (a : Ledger κ τ) : Prop where
  newest : ∀ k, (a.history k).head? = a.version k
  sorted : ∀ k, (a.history k).Pairwise (· > ·)
  above : ∀ k t b v, a.bound k t b → a.version k = some v → v ≤ b
  reads : ∀ k t v, a.validated k t v → ∃ c, ReadKept a k t v c

structure Consistent (a : Ledger κ τ) : Prop extends Ordered a where
  answers : ∀ k r v, a.answered k r v → AnswerKept a k r v

variable {k : κ} {a a' : Ledger κ τ} {t : τ} {r v : Nat}

theorem Ordered.le_newest {a : Ledger κ τ} (h : Ordered a) {v : Nat} (hv : a.version k = some v) :
    v ∈ a.history k ∧ ∀ u ∈ a.history k, u ≤ v := by
  have head := (h.newest k).trans hv
  have sorted := h.sorted k
  cases hist : a.history k with
  | nil => simp [hist] at head
  | cons w older =>
    obtain rfl : w = v := by simpa [hist] using head
    rw [hist] at sorted
    refine ⟨List.mem_cons_self, fun u hu => ?_⟩
    rcases List.mem_cons.mp hu with rfl | hu
    · exact Nat.le_refl _
    · exact Nat.le_of_lt ((List.pairwise_cons.mp sorted).1 u hu)

theorem Ordered.empty_history {a : Ledger κ τ} (h : Ordered a) (unknown : a.version k = none) :
    a.history k = [] :=
  List.head?_eq_none_iff.mp ((h.newest k).trans unknown)

theorem ReadKept.mono {v c : Nat} (h : ReadKept a k t v c) (commit : a'.commit t = a.commit t)
    (history : a'.history k = a.history k) (readTs : a.readTs ≤ a'.readTs)
    (bound : ∀ t' b, a'.bound k t' b → a.bound k t' b) :
    ReadKept a' k t v c :=
  ⟨commit.trans h.chosen, h.below, history ▸ h.mem, history ▸ h.largest,
    Nat.le_trans h.noticed readTs, fun t' b hb => h.writers t' b (bound t' b hb)⟩

theorem AnswerKept.mono (h : AnswerKept a k r v) (version : a'.version k = a.version k)
    (readTs : a.readTs ≤ a'.readTs) (bound : ∀ t b, a'.bound k t b → a.bound k t b) :
    AnswerKept a' k r v := by
  obtain ⟨w, hw, sees⟩ := h.newest
  refine ⟨⟨w, version.trans hw, ?_⟩, fun t b hb => h.writers t b (bound t b hb)⟩
  exact sees.imp_left fun ⟨hv, hr, hn⟩ => ⟨hv, hr, Nat.le_trans hn readTs⟩

theorem Ordered.quiet (h : Ordered a) (q : Quiet a a') : Ordered a' where
  newest k := by rw [q.history, q.version]; exact h.newest k
  sorted k := by rw [q.history]; exact h.sorted k
  above k t b v hb hv := h.above k t b v (q.bound k t b hb) (q.version ▸ hv)
  reads k t v hr := (h.reads k t v (q.validated k t v hr)).imp fun _ kept =>
    kept.mono (congrFun q.commit t) (congrFun q.history k) q.readTs (q.bound k)

/-- A bound taken from the read timestamp and the newest version is above every
validated read. -/
theorem Ordered.grant (h : Ordered a) {b : Nat} (q : Quiet a { a' with bound := a.bound })
    (only : ∀ k' t' b', a'.bound k' t' b' → a.bound k' t' b' ∨ (k' = k ∧ t' = t ∧ b' = b))
    (read : a.readTs ≤ b) (newest : ∀ v, a.version k = some v → v ≤ b) : Ordered a' := by
  have h' := h.quiet q
  refine ⟨h'.newest, h'.sorted, ?_, ?_⟩
  · intro k' t' b' v hb hv
    rw [q.version] at hv
    rcases only k' t' b' hb with hb | ⟨rfl, rfl, rfl⟩
    · exact h.above k' t' b' v hb hv
    · exact newest v hv
  · intro k' t' v hr
    obtain ⟨c, kept⟩ := h.reads k' t' v (q.validated k' t' v hr)
    have kept' : ReadKept { a' with bound := a.bound } k' t' v c :=
      kept.mono (congrFun q.commit t') (congrFun q.history k') q.readTs (fun _ _ hb => hb)
    refine ⟨c, kept'.chosen, kept'.below, kept'.mem, kept'.largest, kept'.noticed, ?_⟩
    intro t'' b' hb hne
    rcases only k' t'' b' hb with hb | ⟨-, -, rfl⟩
    · exact kept.writers t'' b' hb hne
    · exact Nat.le_trans kept.noticed read

theorem Ordered.validate (h : Ordered a) {v c : Nat}
    (q : Quiet a { a' with validated := a.validated })
    (only : ∀ k' t' v', a'.validated k' t' v' → a.validated k' t' v' ∨ (k' = k ∧ t' = t ∧ v' = v))
    (chosen : a.commit t = some c) (newest : a.version k = some v) (below : v < c)
    (read : c ≤ a'.readTs) (alone : ∀ t' b, a'.bound k t' b → t' = t) : Ordered a' := by
  have h' := h.quiet q
  refine ⟨h'.newest, h'.sorted, h'.above, ?_⟩
  intro k' t' v' hr
  rcases only k' t' v' hr with hr | ⟨rfl, rfl, rfl⟩
  · exact (h.reads k' t' v' hr).imp fun _ kept =>
      kept.mono (congrFun q.commit t') (congrFun q.history k') q.readTs (q.bound k')
  · obtain ⟨mem, largest⟩ := h.le_newest newest
    have history : a'.history k' = a.history k' := congrFun q.history k'
    exact ⟨c, (congrFun q.commit t').trans chosen, below, history ▸ mem,
      fun u hu _ => largest u (history ▸ hu), read, fun t'' b hb hne => absurd (alone t'' b hb) hne⟩

theorem Ordered.choose [DecidableEq τ] (h : Ordered a) {c : Nat}
    (q : Quiet a { a' with commit := a.commit })
    (commit : a'.commit = Function.update a.commit t (some c)) (unset : a.commit t = none) :
    Ordered a' := by
  have h' := h.quiet q
  refine ⟨h'.newest, h'.sorted, h'.above, fun k t' v hr => ?_⟩
  obtain ⟨c', kept⟩ := h.reads k t' v (q.validated k t' v hr)
  have ht : t' ≠ t := by
    rintro rfl
    cases unset.symm.trans kept.chosen
  exact ⟨c', kept.mono (by simp [commit, ht]) (congrFun q.history k) q.readTs (q.bound k)⟩

section
variable [DecidableEq κ]

theorem Ordered.discover {a a' : Ledger κ τ} (h : Ordered a) {k : κ} {v : Nat}
    (q : Quiet a { a' with version := a.version, history := a.history })
    (version : a'.version = Function.update a.version k (some v))
    (history : a'.history = Function.update a.history k [v])
    (unknown : a.version k = none) (above : ∀ t b, a'.bound k t b → v ≤ b) : Ordered a' := by
  refine ⟨?_, ?_, ?_, ?_⟩
  · intro k'
    rw [version, history]
    by_cases hk : k' = k
    · subst hk; simp
    · simpa [hk] using h.newest k'
  · intro k'
    rw [history]
    by_cases hk : k' = k
    · subst hk; simp
    · simpa [hk] using h.sorted k'
  · intro k' t b w hb hw
    rw [version] at hw
    by_cases hk : k' = k
    · subst hk
      obtain rfl : v = w := by simpa using hw
      exact above t b hb
    · exact h.above k' t b w (q.bound k' t b hb) (by simpa [hk] using hw)
  · intro k' t w hr
    obtain ⟨c, kept⟩ := h.reads k' t w (q.validated k' t w hr)
    have hk : k' ≠ k := by
      rintro rfl
      simpa [h.empty_history unknown] using kept.mem
    exact ⟨c, kept.mono (congrFun q.commit t) (by simp [history, hk]) q.readTs (q.bound k')⟩

theorem Ordered.write {a a' : Ledger κ τ} (h : Ordered a) {k : κ} {t : τ} {b c : Nat}
    (q : Quiet a { a' with version := a.version, history := a.history })
    (version : a'.version = Function.update a.version k (some c))
    (history : a'.history = Function.update a.history k (c :: a.history k))
    (holds : a.bound k t b) (above : b < c) (chosen : a.commit t = some c)
    (released : ∀ t' b', ¬ a'.bound k t' b') : Ordered a' := by
  have older : ∀ u ∈ a.history k, u < c := by
    intro u hu
    cases hv : a.version k with
    | none => simp [h.empty_history hv] at hu
    | some w =>
      have := (h.le_newest hv).2 u hu
      have := h.above k t b w holds hv
      omega
  refine ⟨?_, ?_, ?_, ?_⟩
  · intro k'
    rw [version, history]
    by_cases hk : k' = k
    · subst hk; simp
    · simpa [hk] using h.newest k'
  · intro k'
    rw [history]
    by_cases hk : k' = k
    · subst hk
      simpa using And.intro older (h.sorted k')
    · simpa [hk] using h.sorted k'
  · intro k' t' b' v hb hv
    rw [version] at hv
    by_cases hk : k' = k
    · exact absurd (hk ▸ hb) (released t' b')
    · exact h.above k' t' b' v (q.bound k' t' b' hb) (by simpa [hk] using hv)
  · intro k' t' v hr
    obtain ⟨c', kept⟩ := h.reads k' t' v (q.validated k' t' v hr)
    by_cases hk : k' = k
    · subst hk
      have hist : a'.history k' = c :: a.history k' := by simp [history]
      refine ⟨c', (congrFun q.commit t').trans kept.chosen, kept.below,
        by rw [hist]; exact List.mem_cons_of_mem _ kept.mem, ?_,
        Nat.le_trans kept.noticed q.readTs, fun t'' b' hb => absurd hb (released t'' b')⟩
      intro u hu hlt
      rw [hist] at hu
      rcases List.mem_cons.mp hu with rfl | hu
      · -- the reader itself writes at its own timestamp, anyone else above it
        by_cases ht : t = t'
        · subst ht
          obtain rfl := Option.some.inj (chosen.symm.trans kept.chosen)
          exact absurd hlt (Nat.lt_irrefl _)
        · have := kept.writers t b holds ht
          omega
      · exact kept.largest u hu hlt
    · exact ⟨c', kept.mono (congrFun q.commit t') (by simp [history, hk]) q.readTs (q.bound k')⟩

end

variable [DecidableEq κ] [DecidableEq τ]

theorem Step.ordered (step : Step a a') (h : Ordered a) : Ordered a' := by
  cases step with
  | idle quiet => exact h.quiet quiet
  | grant k t b quiet only read newest => exact h.grant quiet only read newest
  | discover k v quiet version history unknown above =>
    exact h.discover quiet version history unknown above
  | choose t c quiet commit unset => exact h.choose quiet commit unset
  | validate k t v c quiet only chosen newest below read alone =>
    exact h.validate quiet only chosen newest below read alone
  | write k t b c quiet version history holds above chosen released =>
    exact h.write quiet version history holds above chosen released
  | answer k r v w quiet only newest sees =>
    have h' := h.quiet quiet
    refine ⟨h'.newest, h'.sorted, h'.above, fun k t v hr => ?_⟩
    obtain ⟨c, kept⟩ := h'.reads k t v hr
    exact ⟨c, kept.chosen, kept.below, kept.mem, kept.largest, kept.noticed, kept.writers⟩

/-- No step forgets an answer, and none writes a version the read would have seen. -/
theorem AnswerKept.step (kept : AnswerKept a k r v) (step : Step a a') :
    AnswerKept a' k r v ∧ ∀ u ∈ a'.history k, u ∈ a.history k ∨ r < u := by
  have same (history : a'.history = a.history) :
      ∀ u ∈ a'.history k, u ∈ a.history k ∨ r < u := fun u hu => Or.inl (history ▸ hu)
  cases step with
  | idle q => exact ⟨kept.mono (congrFun q.version k) q.readTs (q.bound k), same q.history⟩
  | grant k' t b q only read newest =>
    have kept' : AnswerKept { a' with bound := a.bound } k r v :=
      kept.mono (congrFun q.version k) q.readTs (fun _ _ hb => hb)
    refine ⟨⟨kept'.newest, fun t' b' hb => ?_⟩, same q.history⟩
    rcases only k t' b' hb with hb | ⟨rfl, -, rfl⟩
    · exact kept.writers t' b' hb
    · obtain ⟨w, hw, ⟨-, -, hn⟩ | hlt⟩ := kept.newest
      · exact Nat.le_trans hn read
      · exact Nat.le_trans (Nat.le_of_lt hlt) (newest w hw)
  | discover k' w q version history unknown above =>
    have hk : k ≠ k' := by
      rintro rfl
      obtain ⟨_, hw, -⟩ := kept.newest
      cases unknown.symm.trans hw
    exact ⟨kept.mono (by simp [version, hk]) q.readTs (q.bound k),
      fun u hu => Or.inl (by simpa [history, hk] using hu)⟩
  | choose t c q commit unset =>
    exact ⟨kept.mono (congrFun q.version k) q.readTs (q.bound k), same q.history⟩
  | validate k' t v' c q only chosen newest below read alone =>
    exact ⟨kept.mono (congrFun q.version k) q.readTs (q.bound k), same q.history⟩
  | write k' t b c q version history holds above chosen released =>
    by_cases hk : k = k'
    · subst hk
      have := kept.writers t b holds
      refine ⟨⟨⟨c, by simp [version], Or.inr (by omega)⟩,
        fun t' b' hb => absurd hb (released t' b')⟩, fun u hu => ?_⟩
      rw [history, Function.update_self] at hu
      rcases List.mem_cons.mp hu with rfl | hu
      · exact Or.inr (by omega)
      · exact Or.inl hu
    · exact ⟨kept.mono (by simp [version, hk]) q.readTs (q.bound k),
        fun u hu => Or.inl (by simpa [history, hk] using hu)⟩
  | answer k' r' v' w q only newest sees =>
    exact ⟨kept.mono (congrFun q.version k) q.readTs (q.bound k), same q.history⟩

theorem Step.consistent (step : Step a a') (h : Consistent a) :
    Consistent a' := by
  refine ⟨step.ordered h.toOrdered, fun k r v ha => ?_⟩
  have old (ha : a.answered k r v) : AnswerKept a' k r v := ((h.answers k r v ha).step step).1
  cases step with
  | answer k' r' v' w q only newest sees =>
    rcases only k r v ha with ha | ⟨rfl, rfl, rfl⟩
    · exact old ha
    · refine ⟨⟨w, (congrFun q.version k).trans newest,
        sees.imp_left fun ⟨hv, hr, hn, _⟩ => ⟨hv, hr, hn⟩⟩, fun t b hb => ?_⟩
      rcases sees with ⟨-, -, -, writers⟩ | hlt
      · exact writers t b hb
      · exact Nat.le_trans (Nat.le_of_lt hlt) (h.above k t b w (q.bound k t b hb) newest)
  | idle q => exact old (q.answered k r v ha)
  | grant k' t b q => exact old (q.answered k r v ha)
  | discover k' w q => exact old (q.answered k r v ha)
  | choose t c q => exact old (q.answered k r v ha)
  | validate k' t v' c q => exact old (q.answered k r v ha)
  | write k' t b c q => exact old (q.answered k r v ha)

/-- The rule for runs. -/
theorem Consistent.steps (h : Consistent a) (steps : Relation.ReflTransGen Step a a') :
    Consistent a' := by
  induction steps with
  | refl => exact h
  | tail _ step ih => exact step.consistent ih

theorem AnswerKept.steps (kept : AnswerKept a k r v) (steps : Relation.ReflTransGen Step a a') :
    AnswerKept a' k r v ∧ ∀ u ∈ a'.history k, u ∈ a.history k ∨ r < u := by
  induction steps with
  | refl => exact ⟨kept, fun _ hu => Or.inl hu⟩
  | tail _ step ih =>
    obtain ⟨kept', new⟩ := ih.1.step step
    exact ⟨kept', fun u hu => (new u hu).elim (ih.2 u) Or.inr⟩

end TxService.TimestampOrder
