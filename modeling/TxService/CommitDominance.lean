import TxService.CommitTs

/-!
# What the commit timestamp is greater than

Each step of the commit is described by the values it leaves for the maximum. The results of the
data locks are the only ones that a path through the protocol drops.
-/

namespace TxService

universe u

variable {A : Type u} [DecidableEq A]

theorem lt_foldl_max_iff {values : List Nat} {bound x : Nat} :
    x < values.foldl max bound ↔ x < bound ∨ ∃ v ∈ values, x < v := by
  induction values generalizing bound with
  | nil => simp
  | cons v rest ih => rw [List.foldl_cons, ih, lt_max_iff, List.exists_mem_cons_iff, or_assoc]

variable {reads : List (A × Nat)} {w : DataWrite A} {cs : List (CatalogLockResult A)} {x : Nat}
  {i : CommitRequest A}

theorem readVersion_of_mem (distinct : (reads.map Prod.fst).Nodup) {r : A × Nat} (hr : r ∈ reads) :
    readVersion reads r.1 = r.2 := by
  induction reads with
  | nil => exact absurd hr List.not_mem_nil
  | cons first rest ih =>
    rw [List.map_cons, List.nodup_cons] at distinct
    rcases List.mem_cons.mp hr with rfl | hr
    · rw [readVersion, List.find?_cons_of_pos (by simp)]
      rfl
    · have other : first.1 ≠ r.1 := fun e => distinct.1 (e ▸ List.mem_map_of_mem hr)
      rw [readVersion, List.find?_cons_of_neg (by simpa using other)]
      exact ih distinct.2 hr

/-- A read entry that is dropped for a lock with this commit timestamp is not later. -/
theorem erased_le (distinct : (reads.map Prod.fst).Nodup) {addr : A} {commitTs : Nat}
    (same : ¬ (0 < readVersion reads addr ∧ readVersion reads addr ≠ commitTs)) {r : A × Nat}
    (hr : r ∈ reads) : r ∈ eraseRead reads addr ∨ r.2 ≤ commitTs := by
  by_cases here : r.1 = addr
  · have version := readVersion_of_mem distinct hr
    rw [here] at version
    rw [version] at same
    omega
  · exact Or.inl (List.mem_filter.mpr ⟨hr, by simpa using here⟩)

omit [DecidableEq A] in
theorem dataAddrs_cons_granted {rest : List (DataWrite A)} (granted : w.owner.Granted) :
    CommitRequest.dataAddrs (w :: rest) =
      w.owner.cceAddr :: CommitRequest.dataAddrs rest := by
  rw [CommitRequest.dataAddrs, List.filter_cons_of_pos (by simpa using granted), List.map_cons]
  rfl

omit [DecidableEq A] in
theorem dataAddrs_cons_refused {rest : List (DataWrite A)} (refused : ¬ w.owner.Granted) :
    CommitRequest.dataAddrs (w :: rest) = CommitRequest.dataAddrs rest := by
  rw [CommitRequest.dataAddrs, List.filter_cons_of_neg (by simpa using refused)]
  rfl

theorem aggregateAcquiredKeys_spec {writes : List (DataWrite A)} {reads reads' : List (A × Nat)}
    (distinct : (reads.map Prod.fst).Nodup)
    (h : aggregateAcquiredKeys writes reads = some reads') :
    (reads' = reads.filter fun r => r.1 ∉ CommitRequest.dataAddrs writes) ∧
    ∀ r ∈ reads, r ∈ reads' ∨ ∃ w ∈ writes, w.owner.Granted ∧ r.2 ≤ w.owner.commitTs := by
  induction writes generalizing reads with
  | nil =>
    cases h
    exact ⟨(List.filter_eq_self.mpr fun r _ => by simp [CommitRequest.dataAddrs]).symm,
      fun r hr => Or.inl hr⟩
  | cons w rest ih =>
    simp only [aggregateAcquiredKeys] at h
    split at h
    · next granted =>
      split at h
      · cases h
      · next same =>
        obtain ⟨filtered, covered⟩ := ih (nodup_eraseRead distinct _) h
        constructor
        · rw [filtered, eraseRead, List.filter_filter, dataAddrs_cons_granted granted]
          refine List.filter_congr fun r _ => ?_
          simp [Bool.and_comm]
        · intro r hr
          rcases erased_le distinct same hr with hr | le
          · rcases covered r hr with kept | ⟨w', hw', covers⟩
            · exact Or.inl kept
            · exact Or.inr ⟨w', List.mem_cons_of_mem w hw', covers⟩
          · exact Or.inr ⟨w, List.mem_cons_self, granted, le⟩
    · next refused =>
      obtain ⟨filtered, covered⟩ := ih distinct h
      constructor
      · rw [filtered, dataAddrs_cons_refused refused]
      · intro r hr
        rcases covered r hr with kept | ⟨w', hw', covers⟩
        · exact Or.inl kept
        · exact Or.inr ⟨w', List.mem_cons_of_mem w hw', covers⟩

/-- The bound takes in every timestamp of the locks, and so it does for the reads that are
dropped. -/
theorem acquireAllForward_spec {bound bound' : Nat} {reads reads' : List (A × Nat)}
    (distinct : (reads.map Prod.fst).Nodup)
    (h : acquireAllForward cs bound reads = some (bound', reads')) :
    (reads'.map Prod.fst).Nodup ∧ (∀ r ∈ reads', r ∈ reads) ∧
    (∀ x, x < bound' ↔ x < bound ∨ ∃ v ∈ catalogValues cs, x < v) ∧
    ∀ r ∈ reads, r ∈ reads' ∨ ∃ c ∈ cs, r.2 ≤ c.commitTs := by
  induction cs generalizing bound reads with
  | nil =>
    cases h
    exact ⟨distinct, fun r hr => hr, fun x => by simp [catalogValues], fun r hr => Or.inl hr⟩
  | cons c rest ih =>
    simp only [acquireAllForward] at h
    split at h
    · cases h
    · next same =>
      obtain ⟨nodup, sub, values, covered⟩ := ih (nodup_eraseRead distinct _) h
      refine ⟨nodup, fun r hr => (List.mem_filter.mp (sub r hr)).1, fun x => ?_, fun r hr => ?_⟩
      · rw [values x, lt_max_iff, lt_max_iff]
        simp only [catalogValues, List.flatMap_cons, List.mem_append, List.mem_cons,
          List.not_mem_nil, or_false, or_and_right, exists_or, exists_eq_left, or_assoc]
      · rcases erased_le distinct same hr with hr | le
        · rcases covered r hr with kept | ⟨c', hc', covers⟩
          · exact Or.inl kept
          · exact Or.inr ⟨c', List.mem_cons_of_mem c hc', covers⟩
        · exact Or.inr ⟨c, List.mem_cons_self, le⟩

/-- The values that the timestamp is the greatest of. -/
def candidateValues (i : CommitRequest A) (bound : Nat) (locks : List (KeyLockResult A))
    (cs : List (CatalogLockResult A)) (reads : List (A × Nat)) : List Nat :=
  i.now :: i.lowerBound :: bound ::
    (lockValues locks ++ (catalogValues cs ++ (cmdValues i.cmds ++ readValues reads)))

omit [DecidableEq A] in
theorem lt_setCommitTs_iff (i : CommitRequest A) (s : CommitState A)
    (reset : s.catalogAcquireAll = []) (x : Nat) :
    x < setCommitTs i s ↔
      ∃ v ∈ candidateValues i s.commitTsBound s.acquireWrite [] s.reads, x < v := by
  have empty : (if i.catalogs.isSome then catalogValues s.catalogAcquireAll else []) =
      catalogValues ([] : List (CatalogLockResult A)) := by
    rw [reset]
    exact ite_self _
  simp only [setCommitTs, candidateValues, lt_max_iff, lt_foldl_max_iff, List.exists_mem_cons_iff,
    empty]

theorem exists_append_lt {l₁ l₂ : List Nat} :
    (∃ v ∈ l₁ ++ l₂, x < v) ↔ (∃ v ∈ l₁, x < v) ∨ ∃ v ∈ l₂, x < v := by
  simp only [List.mem_append, or_and_right, exists_or]

omit [DecidableEq A] in
theorem exists_readValues_lt :
    (∃ v ∈ readValues reads, x < v) ↔ ∃ r ∈ reads, x < r.2 + 1 := by
  simp [readValues]

omit [DecidableEq A] in
theorem exists_catalogValues_lt {c : CatalogLockResult A} (hc : c ∈ cs) (h : x < c.commitTs + 1) :
    ∃ v ∈ catalogValues cs, x < v :=
  ⟨c.commitTs + 1, List.mem_flatMap.mpr ⟨c, hc, List.mem_cons_self⟩, h⟩

/-- With catalog locks, the bound has their timestamps and those of the reads that were
dropped for them. -/
theorem lt_catalogAcquireAll_iff {c : CatalogWrites A} {s : CommitState A} {ts : Nat}
    (distinct : ((c.clusterConfig :: s.reads).map Prod.fst).Nodup)
    (h : catalogAcquireAll i c s = some ts) (x : Nat) :
    x < ts ↔ ∃ v ∈ candidateValues i s.commitTsBound s.acquireWrite (c.intents ++ c.locks)
      (c.clusterConfig :: s.reads), x < v := by
  obtain ⟨⟨bound₁, reads₁⟩, hintents, h⟩ := Option.bind_eq_some_iff.mp h
  obtain ⟨⟨bound₂, reads₂⟩, hlocks, rfl⟩ := Option.map_eq_some_iff.mp h
  obtain ⟨nodup, sub₁, values₁, covered₁⟩ := acquireAllForward_spec distinct hintents
  obtain ⟨-, sub₂, values₂, covered₂⟩ := acquireAllForward_spec nodup hlocks
  have appended : catalogValues (c.intents ++ c.locks) =
      catalogValues c.intents ++ catalogValues c.locks := List.flatMap_append
  -- a read that was dropped is not later than the lock it was dropped for
  have reads : (∃ r ∈ c.clusterConfig :: s.reads, x < r.2 + 1) →
      (∃ r ∈ reads₂, x < r.2 + 1) ∨ (∃ v ∈ catalogValues c.intents, x < v) ∨
        ∃ v ∈ catalogValues c.locks, x < v := by
    rintro ⟨r, hr, hx⟩
    rcases covered₁ r hr with hr | ⟨l, hl, le⟩
    · rcases covered₂ r hr with hr | ⟨l, hl, le⟩
      · exact Or.inl ⟨r, hr, hx⟩
      · exact Or.inr (Or.inr (exists_catalogValues_lt hl (by omega)))
    · exact Or.inr (Or.inl (exists_catalogValues_lt hl (by omega)))
  have back : (∃ r ∈ reads₂, x < r.2 + 1) → ∃ r ∈ c.clusterConfig :: s.reads, x < r.2 + 1 :=
    fun ⟨r, hr, hx⟩ => ⟨r, sub₁ r (sub₂ r hr), hx⟩
  rw [lt_setCommitTs_iff i _ rfl]
  simp only [candidateValues, List.exists_mem_cons_iff, appended, exists_append_lt,
    exists_readValues_lt, values₂, values₁] at reads back ⊢
  have nothing : ¬ ∃ v ∈ catalogValues ([] : List (CatalogLockResult A)), x < v := by
    simp [catalogValues]
  grind

omit [DecidableEq A] in
/-- What is left to show when the values of the maximum are known: the data locks, and the reads
that were dropped for them. -/
theorem CommitRequest.Dominated.of_values {ts bound : Nat} {locks : List (KeyLockResult A)}
    (values : ∀ x, x < ts ↔ ∃ v ∈ candidateValues i bound locks cs reads, x < v)
    (data : ∀ w ∈ i.writes, w.owner.Granted → w.owner.commitTs < ts ∧ w.owner.lastValiTs < ts)
    (catalog : i.cmdForward = false → ∀ c ∈ i.catalogs, ∀ l ∈ c.locks, l ∈ cs)
    (covered : ∀ r ∈ i.versionsRead,
      r ∈ reads ∨ ∃ w ∈ i.writes, w.owner.Granted ∧ r.2 ≤ w.owner.commitTs) :
    i.Dominated ts := by
  have below : ∀ x, x + 1 ∈ candidateValues i bound locks cs reads → x < ts :=
    fun x hx => (values x).mpr ⟨x + 1, hx, Nat.lt_succ_self x⟩
  refine ⟨data, fun forward c hc l hl => ?_, fun c hc => ?_, fun r hr => ?_⟩
  · have hl := catalog forward c hc l hl
    constructor <;>
    · apply below
      simp only [candidateValues, catalogValues, List.mem_cons, List.mem_append, List.mem_flatMap]
      grind
  · constructor <;>
    · apply below
      simp only [candidateValues, cmdValues, List.mem_cons, List.mem_append, List.mem_flatMap]
      grind
  · rcases covered r hr with kept | ⟨w, hw, granted, le⟩
    · apply below
      simp only [candidateValues, readValues, List.mem_cons, List.mem_append, List.mem_map]
      grind
    · exact Nat.lt_of_le_of_lt le (data w hw granted).1

omit [DecidableEq A] in
theorem owner_lt_of_values {ts bound : Nat} (values : ∀ x, x < ts ↔
      ∃ v ∈ candidateValues i bound (acquiredKeys i.writes) cs reads, x < v) (hw : w ∈ i.writes) :
    w.owner.commitTs < ts ∧ w.owner.lastValiTs < ts := by
  have key : w.owner ∈ acquiredKeys i.writes :=
    List.mem_flatMap.mpr ⟨w, hw, List.mem_cons_self⟩
  constructor <;>
  · refine (values _).mpr ⟨_, ?_, Nat.lt_succ_self _⟩
    simp only [candidateValues, lockValues, List.mem_cons, List.mem_append, List.mem_flatMap]
    grind

omit [DecidableEq A] in
theorem candidateValues_catalog (i : CommitRequest A) (c : CatalogWrites A)
    (reads : List (A × Nat)) :
    candidateValues i i.commitTsBound [] (c.intents ++ c.locks) (c.clusterConfig :: reads) =
      i.now :: i.lowerBound :: i.commitTsBound :: (catalogValues c.intents ++
        (catalogValues c.locks ++ (cmdValues i.cmds ++ readValues (c.clusterConfig :: reads)))) := by
  simp only [candidateValues, lockValues, catalogValues, List.flatMap_nil, List.nil_append,
    List.flatMap_append, List.append_assoc]

namespace CommitRequest

omit [DecidableEq A] in
theorem distinct_reads (i : CommitRequest A) : (i.reads.map Prod.fst).Nodup := by
  have h := i.distinct
  cases e : i.catalogs with
  | none =>
    rw [e] at h
    exact h
  | some c =>
    rw [e] at h
    exact (List.nodup_cons.mp h).2

variable {i : CommitRequest A} {ts : Nat}

/-- Without data writes every value reaches the maximum. -/
theorem dominated_of_no_data (h : i.commit = some ts) (nodata : i.writes = []) :
    i.Dominated ts := by
  have data : ∀ w ∈ i.writes, w.owner.Granted →
      w.owner.commitTs < ts ∧ w.owner.lastValiTs < ts := by
    rw [nodata]
    exact fun w hw => absurd hw List.not_mem_nil
  cases forward : i.cmdForward with
  | true =>
    simp only [commit, forward, nodata, if_true, Option.some.injEq] at h
    subst h
    refine Dominated.of_values (lt_setCommitTs_iff i _ rfl) data (fun e => ?_) fun r hr => ?_
    · rw [forward] at e
      cases e
    · rw [versionsRead, forward] at hr
      exact Or.inl hr
  | false =>
    cases catalogs : i.catalogs with
    | none =>
      simp only [commit, forward, nodata, catalogs, Bool.false_eq_true, if_false, ne_eq,
        not_true_eq_false, Option.some.injEq] at h
      subst h
      refine Dominated.of_values (lt_setCommitTs_iff i _ rfl) data (fun _ c hc => ?_) fun r hr => ?_
      · rw [catalogs] at hc
        cases hc
      · rw [versionsRead, forward, catalogs] at hr
        exact Or.inl hr
    | some c =>
      simp only [commit, forward, nodata, catalogs, Bool.false_eq_true, if_false, ne_eq,
        not_true_eq_false] at h
      have distinct := i.distinct
      rw [catalogs] at distinct
      have values := lt_catalogAcquireAll_iff
        (s := ⟨i.commitTsBound, [], [], i.reads⟩) distinct h
      refine Dominated.of_values values data
        (fun _ c' hc' l hl => ?_) fun r hr => ?_
      · rw [catalogs] at hc'
        cases hc'
        exact List.mem_append_right _ hl
      · rw [versionsRead, forward, catalogs] at hr
        exact Or.inl hr

/-- Without catalog writes the results of the data locks are still there. -/
theorem dominated_of_no_catalog (h : i.commit = some ts) (data : i.writes ≠ [])
    (nocatalog : i.catalogs = none) : i.Dominated ts := by
  cases forward : i.cmdForward with
  | true => simp [commit, forward, data] at h
  | false =>
    simp only [commit, forward, data, Bool.false_eq_true, if_false, ne_eq, not_false_eq_true,
      if_true, postProcessAcquireWrite, nocatalog, Option.bind_eq_some_iff,
      Option.some.injEq] at h
    obtain ⟨reads, aggregated, rfl⟩ := h
    obtain ⟨-, covered⟩ := aggregateAcquiredKeys_spec i.distinct_reads aggregated
    have values := lt_setCommitTs_iff i
      ⟨i.commitTsBound, acquiredKeys i.writes, [], reads⟩ rfl
    refine Dominated.of_values values (fun w hw _ => owner_lt_of_values values hw)
      (fun _ c hc => ?_) fun r hr => ?_
    · rw [nocatalog] at hc
      cases hc
    · rw [versionsRead, forward, nocatalog] at hr
      exact covered r hr

/-- With data and catalog writes the maximum is taken without the data locks. -/
theorem lt_commit_of_both {c : CatalogWrites A} (h : i.commit = some ts) (data : i.writes ≠ [])
    (catalogs : i.catalogs = some c) :
    i.cmdForward = false ∧
    (∀ x, x < ts ↔ ∃ v ∈ candidateValues i i.commitTsBound [] (c.intents ++ c.locks)
      (c.clusterConfig :: i.reads.filter fun r => r.1 ∉ dataAddrs i.writes), x < v) ∧
    ∀ r ∈ i.reads, r ∈ (i.reads.filter fun r => r.1 ∉ dataAddrs i.writes) ∨
      ∃ w ∈ i.writes, w.owner.Granted ∧ r.2 ≤ w.owner.commitTs := by
  cases forward : i.cmdForward with
  | true => simp [commit, forward, data] at h
  | false =>
    simp only [commit, forward, data, Bool.false_eq_true, if_false, ne_eq, not_false_eq_true,
      if_true, postProcessAcquireWrite, catalogs, Option.bind_eq_some_iff] at h
    obtain ⟨reads, aggregated, h⟩ := h
    obtain ⟨filtered, covered⟩ := aggregateAcquiredKeys_spec i.distinct_reads aggregated
    rw [← filtered]
    have distinct := i.distinct
    rw [catalogs] at distinct
    have distinct : ((c.clusterConfig :: reads).map Prod.fst).Nodup := by
      refine distinct.sublist (List.Sublist.map _ (List.Sublist.cons_cons _ ?_))
      rw [filtered]
      exact List.filter_sublist
    exact ⟨rfl, lt_catalogAcquireAll_iff distinct h, covered⟩

theorem commit_ts_dominates_iff {i : CommitRequest A} {ts : Nat} (h : i.commit = some ts) :
    i.Dominated ts ↔ i.DataCovered := by
  by_cases nodata : i.writes = []
  · have vacuous : i.DataCovered := by
      intro c _ w hw
      rw [nodata] at hw
      exact absurd hw List.not_mem_nil
    exact iff_of_true (dominated_of_no_data h nodata) vacuous
  · cases catalogs : i.catalogs with
    | none =>
      have vacuous : i.DataCovered := by
        intro c hc
        rw [catalogs] at hc
        cases hc
      exact iff_of_true (dominated_of_no_catalog h nodata catalogs) vacuous
    | some c =>
      obtain ⟨forward, values, covered⟩ := lt_commit_of_both h nodata catalogs
      have others : ∀ x, x < ts ↔ ∃ v ∈ i.otherValues c, x < v := by
        intro x
        rw [values x, candidateValues_catalog]
        rfl
      constructor
      · intro dominated c' hc' w hw granted
        rw [catalogs] at hc'
        cases hc'
        exact ⟨(others _).mp (dominated.data w hw granted).1,
          (others _).mp (dominated.data w hw granted).2⟩
      · intro data
        refine Dominated.of_values values (fun w hw granted => ?_) (fun _ c' hc' l hl => ?_)
          fun r hr => ?_
        · obtain ⟨commitTs, lastValiTs⟩ := data c catalogs w hw granted
          exact ⟨(others _).mpr commitTs, (others _).mpr lastValiTs⟩
        · rw [catalogs] at hc'
          cases hc'
          exact List.mem_append_right _ hl
        · rw [versionsRead, forward, catalogs] at hr
          rcases List.mem_cons.mp hr with rfl | hr
          · exact Or.inl List.mem_cons_self
          · exact (covered r hr).imp_left (List.mem_cons_of_mem _)

/-- A transaction with one data write, read before at its current version, and one catalog
write. -/
def dataAndCatalog (now : Nat) : CommitRequest Nat where
  commitTsBound := 0
  cmdForward := false
  writes := [⟨⟨7, 1, 100, 90⟩, []⟩]
  catalogs := some ⟨(1, 5), [⟨2, 20, 0⟩], [⟨2, 20, 0⟩]⟩
  cmds := []
  reads := [(7, 100), (8, 30)]
  distinct := by decide
  now := now
  lowerBound := 0

theorem commit_ts_dominates_late_clock :
    (dataAndCatalog 101).commit = some 101 ∧ (dataAndCatalog 101).Dominated 101 := by
  refine ⟨rfl, (commit_ts_dominates_iff (i := dataAndCatalog 101) rfl).mpr ?_⟩
  rintro c - w hw -
  cases List.mem_singleton.mp hw
  exact ⟨⟨101, List.mem_cons_self, by decide⟩, ⟨101, List.mem_cons_self, by decide⟩⟩

/-- The data key was committed at 100 and the transaction writes it at 31. -/
theorem commit_ts_below_data_lock :
    (dataAndCatalog 10).commit = some 31 ∧ ¬ (dataAndCatalog 10).Dominated 31 := by
  refine ⟨rfl, fun dominated => ?_⟩
  have lt := (dominated.data ⟨⟨7, 1, 100, 90⟩, []⟩ List.mem_cons_self (by decide)).1
  exact absurd lt (by decide)

end CommitRequest

end TxService
