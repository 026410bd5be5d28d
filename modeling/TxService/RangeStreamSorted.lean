import TxService.RangeStream

/-!
# The stream of a range data sync is sorted

Every key still to come is above the least of the last keys of the cores, since a core that has
more to return has returned something.
-/

namespace TxService

open OrderedMerge

universe u v w

section
variable {K : Type v} {V : Type u} {B : Type w} [LinearOrder K] {records : List (FlushRecord K V)}
  {rows : List B}

theorem key_le_of_place (ascending : records.Pairwise fun x y => x.key < y.key)
    {i j : Fin records.length} (le : i ≤ j) : (records.get i).key ≤ (records.get j).key := by
  obtain rfl | lt := eq_or_lt_of_le le
  · exact le_refl _
  · exact (List.pairwise_iff_get.mp ascending i j lt).le

theorem keyed_ordered {place : B → Nat} (named : ∀ row ∈ rows, place row < records.length)
    (ascending : records.Pairwise fun x y => x.key < y.key)
    (ordered : rows.Pairwise fun a b => place a ≤ place b) :
    Ordered Prod.fst (keyed records place rows named) := by
  have places : rows.attach.Pairwise fun a b => place a.1 ≤ place b.1 := by
    have whole : (rows.attach.map Subtype.val).Pairwise fun a b => place a ≤ place b := by
      rwa [List.attach_map_subtype_val]
    rwa [List.pairwise_map] at whole
  exact List.pairwise_map.mpr (places.imp fun le => key_le_of_place ascending le)

omit [LinearOrder K] in
theorem keyed_follows {place : B → Nat} (named : ∀ row ∈ rows, place row < records.length) :
    ∀ p ∈ keyed records place rows named, ∃ x ∈ records, x.key = p.1 := by
  intro p mem
  obtain ⟨row, -, rfl⟩ := List.mem_map.mp mem
  exact ⟨_, List.get_mem _ _, rfl⟩

namespace CoreRound

variable (r : CoreRound K V)

theorem archives_ordered (ascending : r.vecs.ckptVec.Pairwise fun x y => x.key < y.key) :
    Ordered Prod.fst r.archives :=
  keyed_ordered _ ascending (List.pairwise_map.mp r.archivesOrdered)

theorem moves_ordered (ascending : r.vecs.ckptVec.Pairwise fun x y => x.key < y.key) :
    Ordered id r.moves :=
  List.pairwise_map.mpr (keyed_ordered _ ascending r.movesOrdered)

omit [LinearOrder K] in
theorem archives_follow : ∀ p ∈ r.archives, ∃ x ∈ r.vecs.ckptVec, x.key = p.1 :=
  keyed_follows _

omit [LinearOrder K] in
theorem moves_follow : ∀ k ∈ r.moves, ∃ x ∈ r.vecs.ckptVec, x.key = k := by
  intro k mem
  obtain ⟨p, there, rfl⟩ := List.mem_map.mp mem
  exact keyed_follows _ p there

end CoreRound

theorem Follows.cut {rowKey : B → K} (h : Follows rowKey rows records) (bound : Option K)
    (rowsOrdered : Ordered rowKey rows) (recordsOrdered : Ordered FlushRecord.key records) :
    Follows rowKey (rows.takeWhile (notAbove bound ∘ rowKey))
        (records.takeWhile (notAbove bound ∘ FlushRecord.key)) ∧
      Follows rowKey (rows.dropWhile (notAbove bound ∘ rowKey))
        (records.dropWhile (notAbove bound ∘ FlushRecord.key)) := by
  obtain ⟨low, high⟩ := ordered_cut bound rowsOrdered
  obtain ⟨recordLow, recordHigh⟩ := ordered_cut bound recordsOrdered
  have sides : ∀ x ∈ records, x ∈ records.takeWhile (notAbove bound ∘ FlushRecord.key) ∨
      x ∈ records.dropWhile (notAbove bound ∘ FlushRecord.key) := by
    intro x mem
    rw [← List.mem_append, List.takeWhile_append_dropWhile]
    exact mem
  constructor
  · intro row mem
    obtain ⟨x, there, same⟩ := h row (List.takeWhile_prefix _ |>.subset mem)
    refine ⟨x, (sides x there).resolve_right fun above => ?_, same⟩
    have := recordHigh x above
    rw [same, low row mem] at this
    cases this
  · intro row mem
    obtain ⟨x, there, same⟩ := h row (List.dropWhile_suffix _ |>.subset mem)
    refine ⟨x, (sides x there).resolve_left fun below => ?_, same⟩
    have := recordLow x below
    rw [same, high row mem] at this
    cases this

theorem lowerTo_le (bound : Option K) (r : CoreRound K V) :
    (∀ m, bound = some m → ∃ k, lowerTo bound r = some k ∧ k ≤ m) ∧
      ∀ last, r.vecs.ckptVec.getLast? = some last → ∃ k, lowerTo bound r = some k ∧ k ≤ last.key := by
  unfold lowerTo
  split
  · rename_i none_
    exact ⟨fun m here => ⟨m, here, le_refl m⟩, fun last here => by cases none_.symm.trans here⟩
  · rename_i last found
    refine ⟨nofun, fun last' here => ⟨last.key, rfl, ?_⟩⟩
    cases found.symm.trans here
    exact le_refl _
  · rename_i last m found
    constructor
    · rintro m' ⟨⟩
      refine ⟨_, rfl, ?_⟩
      split
      · exact le_of_lt ‹_›
      · exact le_refl _
    · intro last' here
      cases found.symm.trans here
      refine ⟨_, rfl, ?_⟩
      split
      · exact le_refl _
      · exact le_of_not_gt ‹_›

theorem foldl_lowerTo_le (cores : List (CoreRound K V)) (bound : Option K) :
    (∀ m, bound = some m → ∃ k, cores.foldl lowerTo bound = some k ∧ k ≤ m) ∧
      ∀ r ∈ cores, ∀ last, r.vecs.ckptVec.getLast? = some last →
        ∃ k, cores.foldl lowerTo bound = some k ∧ k ≤ last.key := by
  induction cores generalizing bound with
  | nil => exact ⟨fun m here => ⟨m, here, le_refl m⟩, nofun⟩
  | cons r cores ih =>
    obtain ⟨fromBound, fromLast⟩ := lowerTo_le bound r
    obtain ⟨onward, others⟩ := ih (lowerTo bound r)
    constructor
    · intro m here
      obtain ⟨k, first, le⟩ := fromBound m here
      obtain ⟨k', all, le'⟩ := onward k first
      exact ⟨k', all, le'.trans le⟩
    · intro r' mem last here
      obtain rfl | later := List.mem_cons.mp mem
      · obtain ⟨k, first, le⟩ := fromLast last here
        obtain ⟨k', all, le'⟩ := onward k first
        exact ⟨k', all, le'.trans le⟩
      · exact others r' later last here

variable {n : Nat}

theorem minScannedEndKey_le (round : Fin n → CoreRound K V) (core : Fin n) {last : FlushRecord K V}
    (here : (round core).vecs.ckptVec.getLast? = some last) :
    ∃ k, minScannedEndKey round = some k ∧ k ≤ last.key :=
  (foldl_lowerTo_le (List.ofFn round) none).2 _ (List.mem_ofFn.mpr ⟨core, rfl⟩) last here

theorem merged_perm {A : Type w} (key : A → K) (part : CoreRound K V → List A)
    (round : Fin n → CoreRound K V) (remaining : List A) :
    (mergeSortedVectors key ((List.ofFn fun core => part (round core)) ++ [remaining]) false).Perm
      (remaining ++ (List.ofFn round).flatMap part) := by
  refine (mergeSortedVectors_perm _).trans ?_
  have parts : (List.ofFn fun core => part (round core)) = (List.ofFn round).map part := by
    rw [List.map_ofFn]
    rfl
  rw [parts, List.flatten_append, List.flatten_singleton, ← List.flatMap_def]
  exact List.perm_append_comm

theorem merged_ordered {A : Type w} {key : A → K} (part : CoreRound K V → List A)
    {round : Fin n → CoreRound K V} {remaining : List A}
    (parts : ∀ core, Ordered key (part (round core))) (rest : Ordered key remaining) :
    Ordered key
      (mergeSortedVectors key ((List.ofFn fun core => part (round core)) ++ [remaining]) false) := by
  refine mergeSortedVectors_ordered fun vec mem => ?_
  obtain inCore | left := List.mem_append.mp mem
  · obtain ⟨core, rfl⟩ := List.mem_ofFn.mp inCore
    exact parts core
  · rw [List.mem_singleton.mp left]
    exact rest

section
variable {n : Nat} {round : Fin n → CoreRound K V} {rounds : List (Fin n → CoreRound K V)}
  {remaining : SyncVecs K V}

theorem WellCut.tail (h : WellCut (round :: rounds)) (more : rounds ≠ []) : WellCut rounds where
  ascending core := (List.pairwise_append.mp (h.ascending core)).2.1
  disjoint core other ne x mem y mem' :=
    h.disjoint core other ne x (List.mem_append_right _ mem) y (List.mem_append_right _ mem')
  scanned later mem := h.scanned later (List.mem_cons_of_mem round mem)
  drained := (List.pairwise_cons.mp h.drained).2
  ends := by rw [← h.ends, List.getLast?_cons, List.getLast?_eq_some_getLast more]; rfl

variable {core : Fin n}

omit [LinearOrder K] in
theorem mem_coreRecords {later : Fin n → CoreRound K V} (mem : later ∈ rounds) {x : FlushRecord K V}
    (there : x ∈ (later core).vecs.ckptVec) : x ∈ coreRecords rounds core :=
  List.mem_flatMap.mpr ⟨later, mem, there⟩

theorem WellCut.head_ascending (h : WellCut (round :: rounds)) (core : Fin n) :
    (round core).vecs.ckptVec.Pairwise fun x y => x.key < y.key :=
  (List.pairwise_append.mp (h.ascending core)).1

/-- What is left of earlier rounds: its rows beside its records, and none of its keys to come. -/
structure Ready (remaining : SyncVecs K V) (rounds : List (Fin n → CoreRound K V)) : Prop where
  sorted : remaining.dataSyncVec.Pairwise fun x y => x.key < y.key
  fresh : ∀ x ∈ remaining.dataSyncVec, ∀ core, ∀ y ∈ coreRecords rounds core, x.key ≠ y.key
  archivesOrdered : Ordered Prod.fst remaining.archiveVec
  movesOrdered : Ordered id remaining.mvBaseVec
  archives : Follows Prod.fst remaining.archiveVec remaining.dataSyncVec
  moves : Follows id remaining.mvBaseVec remaining.dataSyncVec

theorem ready_empty (rounds : List (Fin n → CoreRound K V)) :
    Ready (SyncVecs.empty : SyncVecs K V) rounds :=
  ⟨.nil, nofun, .nil, .nil, nofun, nofun⟩

/-- The merged vectors of a round. -/
structure Merged (remaining : SyncVecs K V) (round : Fin n → CoreRound K V) (vecs : SyncVecs K V) :
    Prop where
  sorted : vecs.dataSyncVec.Pairwise fun x y => x.key < y.key
  archivesOrdered : Ordered Prod.fst vecs.archiveVec
  movesOrdered : Ordered id vecs.mvBaseVec
  records : vecs.dataSyncVec.Perm
    (remaining.dataSyncVec ++ (List.ofFn round).flatMap fun r => r.vecs.ckptVec)
  archives : vecs.archiveVec.Perm (remaining.archiveVec ++ (List.ofFn round).flatMap CoreRound.archives)
  moves : vecs.mvBaseVec.Perm (remaining.mvBaseVec ++ (List.ofFn round).flatMap CoreRound.moves)
  follows : Follows Prod.fst vecs.archiveVec vecs.dataSyncVec ∧ Follows id vecs.mvBaseVec vecs.dataSyncVec

theorem WellCut.distinct_keys (h : WellCut (round :: rounds))
    (ready : Ready remaining (round :: rounds)) :
    (remaining.dataSyncVec ++ (List.ofFn round).flatMap fun r => r.vecs.ckptVec).Pairwise
      fun x y => x.key ≠ y.key := by
  refine List.pairwise_append.mpr ⟨ready.sorted.imp ne_of_lt, ?_, fun x mem y there => ?_⟩
  · refine List.pairwise_flatMap.mpr ⟨fun r mem => ?_, List.pairwise_ofFn.mpr fun core other lt => ?_⟩
    · obtain ⟨core, rfl⟩ := List.mem_ofFn.mp mem
      exact (h.head_ascending core).imp ne_of_lt
    · intro x mem y mem'
      exact h.disjoint core other lt.ne x (mem_coreRecords List.mem_cons_self mem) y
        (mem_coreRecords List.mem_cons_self mem')
  · obtain ⟨r, inRound, there⟩ := List.mem_flatMap.mp there
    obtain ⟨core, rfl⟩ := List.mem_ofFn.mp inRound
    exact ready.fresh x mem core y (mem_coreRecords List.mem_cons_self there)

omit [LinearOrder K] in
theorem Follows.merged {rowKey : B → K} {part : CoreRound K V → List B} {rest rows : List B}
    {records : List (FlushRecord K V)} (h : Follows rowKey rest remaining.dataSyncVec)
    (cores : ∀ r : CoreRound K V, ∀ row ∈ part r, ∃ x ∈ r.vecs.ckptVec, x.key = rowKey row)
    (perm : rows.Perm (rest ++ (List.ofFn round).flatMap part))
    (all : records.Perm
      (remaining.dataSyncVec ++ (List.ofFn round).flatMap fun r => r.vecs.ckptVec)) :
    Follows rowKey rows records := by
  intro row mem
  obtain old | new := List.mem_append.mp (perm.mem_iff.mp mem)
  · obtain ⟨x, there, same⟩ := h row old
    exact ⟨x, all.mem_iff.mpr (List.mem_append_left _ there), same⟩
  · obtain ⟨r, inRound, inPart⟩ := List.mem_flatMap.mp new
    obtain ⟨x, there, same⟩ := cores r row inPart
    exact ⟨x, all.mem_iff.mpr (List.mem_append_right _ (List.mem_flatMap.mpr ⟨r, inRound, there⟩)), same⟩

theorem Ready.merged (ready : Ready remaining (round :: rounds)) (h : WellCut (round :: rounds)) :
    Merged remaining round (remaining.merged round) := by
  have records := merged_perm FlushRecord.key (fun r => r.vecs.ckptVec) round remaining.dataSyncVec
  have archives := merged_perm Prod.fst CoreRound.archives round remaining.archiveVec
  have moves := merged_perm id CoreRound.moves round remaining.mvBaseVec
  have ordered : Ordered FlushRecord.key (remaining.merged round).dataSyncVec :=
    merged_ordered (fun r => r.vecs.ckptVec) (fun core => (h.head_ascending core).imp le_of_lt)
      (ready.sorted.imp le_of_lt)
  have distinct : (remaining.merged round).dataSyncVec.Pairwise fun x y => x.key ≠ y.key :=
    (records.pairwise_iff fun ne => ne.symm).mpr (h.distinct_keys ready)
  refine ⟨(ordered.and distinct).imp fun both => lt_of_le_of_ne both.1 both.2,
    merged_ordered CoreRound.archives (fun core => (round core).archives_ordered (h.head_ascending core))
      ready.archivesOrdered,
    merged_ordered CoreRound.moves (fun core => (round core).moves_ordered (h.head_ascending core))
      ready.movesOrdered, records, archives, moves, ?_, ?_⟩
  · exact ready.archives.merged CoreRound.archives_follow archives records
  · exact ready.moves.merged CoreRound.moves_follow moves records

theorem WellCut.later_empty (h : WellCut (round :: rounds)) {later : Fin n → CoreRound K V}
    (mem : later ∈ rounds) (drained : (round core).drained = true) :
    (later core).vecs = ⟨[], [], []⟩ :=
  ((List.pairwise_cons.mp h.drained).1 later mem core drained).2

/-- All that is still to come is above the bound. -/
theorem WellCut.lt_of_later (h : WellCut (round :: rounds)) {bound : K}
    (least : minScannedEndKey round = some bound) {y : FlushRecord K V}
    (mem : y ∈ coreRecords rounds core) : bound < y.key := by
  obtain ⟨later, inRounds, there⟩ := List.mem_flatMap.mp mem
  have open_ : (round core).drained = false := by
    by_contra drained
    rw [h.later_empty inRounds (by simpa using drained)] at there
    cases there
  have some_ := h.scanned round List.mem_cons_self core open_
  obtain ⟨k, found, le⟩ := minScannedEndKey_le round core (List.getLast?_eq_some_getLast some_)
  cases least.symm.trans found
  exact le.trans_lt
    ((List.pairwise_append.mp (h.ascending core)).2.2 _ (List.getLast_mem some_) y mem)

theorem WellCut.bound_exists (h : WellCut (round :: rounds)) (open_ : scanDataDrained round = false) :
    ∃ k, minScannedEndKey round = some k := by
  obtain ⟨r, mem, notDrained⟩ : ∃ r ∈ List.ofFn round, r.drained = false := by
    simpa [scanDataDrained] using open_
  obtain ⟨core, rfl⟩ := List.mem_ofFn.mp mem
  have some_ := h.scanned round List.mem_cons_self core notDrained
  obtain ⟨k, bound, -⟩ := minScannedEndKey_le round core (List.getLast?_eq_some_getLast some_)
  exact ⟨k, bound⟩

theorem Ready.above (ready : Ready remaining (round :: rounds)) (h : WellCut (round :: rounds))
    (bound : Option K) : Ready ((remaining.merged round).above bound) rounds := by
  have merged := ready.merged h
  have ordered : Ordered FlushRecord.key (remaining.merged round).dataSyncVec :=
    merged.sorted.imp le_of_lt
  refine ⟨merged.sorted.sublist (List.dropWhile_sublist _), fun x mem core y there => ?_,
    merged.archivesOrdered.sublist (List.dropWhile_sublist _),
    merged.movesOrdered.sublist (List.dropWhile_sublist _),
    (merged.follows.1.cut bound merged.archivesOrdered ordered).2,
    (merged.follows.2.cut bound merged.movesOrdered ordered).2⟩
  have later : y ∈ coreRecords (round :: rounds) core := List.mem_append_right _ there
  obtain old | new := List.mem_append.mp
    (merged.records.mem_iff.mp ((List.dropWhile_sublist _).subset mem))
  · exact ready.fresh x old core y later
  · obtain ⟨r, inRound, inPart⟩ := List.mem_flatMap.mp new
    obtain ⟨other, rfl⟩ := List.mem_ofFn.mp inRound
    by_cases same : other = core
    · subst same
      exact ((List.pairwise_append.mp (h.ascending other)).2.2 x inPart y there).ne
    · exact h.disjoint other core same x (mem_coreRecords List.mem_cons_self inPart) y later

/-- The batches that come of what is left and of the rounds. -/
structure Stream (remaining : SyncVecs K V) (rounds : List (Fin n → CoreRound K V))
    (batches : List (SyncVecs K V)) : Prop where
  union : (batches.flatMap SyncVecs.dataSyncVec).Pairwise fun x y => x.key < y.key
  records : (batches.flatMap SyncVecs.dataSyncVec).Perm (remaining.dataSyncVec ++
    rounds.flatMap fun round => (List.ofFn round).flatMap fun r => r.vecs.ckptVec)
  archives : (batches.flatMap SyncVecs.archiveVec).Perm (remaining.archiveVec ++
    rounds.flatMap fun round => (List.ofFn round).flatMap CoreRound.archives)
  moves : (batches.flatMap SyncVecs.mvBaseVec).Perm (remaining.mvBaseVec ++
    rounds.flatMap fun round => (List.ofFn round).flatMap CoreRound.moves)
  together : ∀ batch ∈ batches, Follows Prod.fst batch.archiveVec batch.dataSyncVec ∧
    Follows id batch.mvBaseVec batch.dataSyncVec

/-- What a round flushes and leaves, and what comes of the rest. -/
theorem perm_of_cut {A : Type w} {p : A → Bool} {merged left head tail rest : List A}
    (now : merged.Perm (left ++ head)) (later : rest.Perm (merged.dropWhile p ++ tail)) :
    (merged.takeWhile p ++ rest).Perm (left ++ (head ++ tail)) := by
  refine (later.append_left _).trans ?_
  rw [← List.append_assoc, List.takeWhile_append_dropWhile, ← List.append_assoc]
  exact now.append_right tail

theorem WellCut.nothing_later {A : Type w} (h : WellCut (round :: rounds))
    (part : CoreRound K V → List A) (drained : scanDataDrained round = true)
    (nothing : ∀ r : CoreRound K V, r.vecs = ⟨[], [], []⟩ → part r = []) :
    (rounds.flatMap fun round => (List.ofFn round).flatMap part) = [] := by
  refine List.flatMap_eq_nil_iff.mpr fun later mem => List.flatMap_eq_nil_iff.mpr fun r inRound => ?_
  obtain ⟨core, rfl⟩ := List.mem_ofFn.mp inRound
  refine nothing _ (h.later_empty mem ?_)
  exact List.all_eq_true.mp drained _ (List.mem_ofFn.mpr ⟨core, rfl⟩)

omit [LinearOrder K] in
theorem CoreRound.archives_of_empty (r : CoreRound K V) (nothing : r.vecs = ⟨[], [], []⟩) :
    r.archives = [] := by
  have rows : r.vecs.akvVec = [] := by rw [nothing]
  simp [CoreRound.archives, keyed, rows]

omit [LinearOrder K] in
theorem CoreRound.moves_of_empty (r : CoreRound K V) (nothing : r.vecs = ⟨[], [], []⟩) :
    r.moves = [] := by
  have rows : r.vecs.mvBaseVec = [] := by rw [nothing]
  simp [CoreRound.moves, keyed, rows]

theorem Ready.stream_drained (ready : Ready remaining (round :: rounds))
    (h : WellCut (round :: rounds)) (drained : scanDataDrained round = true) :
    Stream remaining (round :: rounds) [remaining.merged round] := by
  have merged := ready.merged h
  have noRecords := h.nothing_later (fun r => r.vecs.ckptVec) drained fun r here => by rw [here]
  have noArchives := h.nothing_later CoreRound.archives drained CoreRound.archives_of_empty
  have noMoves := h.nothing_later CoreRound.moves drained CoreRound.moves_of_empty
  constructor
  · simpa using merged.sorted
  · simpa [noRecords] using merged.records
  · simpa [noArchives] using merged.archives
  · simpa [noMoves] using merged.moves
  · intro batch mem
    rw [List.mem_singleton.mp mem]
    exact merged.follows

/-- The batch of a round that is not the last, before those of the others. -/
theorem Ready.stream_cons {later : List (SyncVecs K V)} {bound : K}
    (ready : Ready remaining (round :: rounds)) (h : WellCut (round :: rounds))
    (least : minScannedEndKey round = some bound)
    (rest : Stream ((remaining.merged round).above (some bound)) rounds later) :
    Stream remaining (round :: rounds) ((remaining.merged round).upTo (some bound) :: later) := by
  have merged := ready.merged h
  have ordered : Ordered FlushRecord.key (remaining.merged round).dataSyncVec :=
    merged.sorted.imp le_of_lt
  have cut := ordered_cut (some bound) ordered
  constructor
  · rw [List.flatMap_cons]
    refine List.pairwise_append.mpr ⟨merged.sorted.sublist (List.takeWhile_sublist _), rest.union,
      fun x mem y there => ?_⟩
    have below : x.key ≤ bound := by simpa [notAbove] using cut.1 x mem
    refine below.trans_lt ?_
    obtain left | new := List.mem_append.mp (rest.records.mem_iff.mp there)
    · simpa [notAbove] using cut.2 y left
    · obtain ⟨later, inRounds, inLater⟩ := List.mem_flatMap.mp new
      obtain ⟨r, inRound, inPart⟩ := List.mem_flatMap.mp inLater
      obtain ⟨core, rfl⟩ := List.mem_ofFn.mp inRound
      exact h.lt_of_later least (mem_coreRecords inRounds inPart)
  · exact perm_of_cut merged.records rest.records
  · exact perm_of_cut merged.archives rest.archives
  · exact perm_of_cut merged.moves rest.moves
  · intro batch mem
    obtain rfl | mem := List.mem_cons.mp mem
    · exact ⟨(merged.follows.1.cut (some bound) merged.archivesOrdered ordered).1,
        (merged.follows.2.cut (some bound) merged.movesOrdered ordered).1⟩
    · exact rest.together batch mem

theorem WellCut.batches_stream (h : WellCut rounds) (ready : Ready remaining rounds) :
    Stream remaining rounds (remaining.batches rounds) := by
  induction rounds generalizing remaining with
  | nil => cases h.ends
  | cons round rounds ih =>
    unfold SyncVecs.batches
    simp only
    split
    · rename_i drained
      exact ready.stream_drained h drained
    · rename_i open_
      have notLast : rounds ≠ [] := by
        rintro rfl
        exact open_ h.ends
      obtain ⟨bound, least⟩ := h.bound_exists (by simpa using open_)
      rw [least]
      exact ready.stream_cons h least (ih (h.tail notLast) (ready.above h (some bound)))

end

/-- However the cores cut their keys in rounds, what the rounds flush is one sorted stream. -/
theorem batches_sorted_stream {n : Nat} (rounds : List (Fin n → CoreRound K V))
    (wellCut : WellCut rounds) : SortedStream rounds (SyncVecs.empty.batches rounds) := by
  have stream := wellCut.batches_stream (ready_empty rounds)
  obtain ⟨sorted, apart⟩ := List.pairwise_flatMap.mp stream.union
  refine ⟨sorted, apart, stream.union, stream.records, stream.archives, stream.moves, stream.together,
    fun batch _ exportBaseTableItems x => ?_⟩
  cases exportBaseTableItems <;> simp [SyncVecs.flushRecords]

end

/-- An entry with a version that goes to the archive table. -/
def versioned (ts : Nat) : CcEntry Nat := ⟨some ts, ts, .normal, 0, some [⟨some 0, 2, .normal⟩]⟩

/-- Two cores with the keys 10, 15, 20 and 8, 16, 24, 32, two of them a round. -/
def twoRounds : List (Fin 2 → CoreRound Nat Nat) :=
  let scan (keys : List Nat) (drained : Bool) :=
    CoreRound.ofEntries ⟨50, 1, true, ⟨false, false, false⟩⟩ (keys.map fun k => (k, versioned k)) drained
  [fun core => if core = 0 then scan [10, 15] false else scan [8, 16] false,
    fun core => if core = 0 then scan [20] true else scan [24, 32] true]

theorem twoRounds_sorted_stream : SortedStream twoRounds (SyncVecs.empty.batches twoRounds) ∧
    (SyncVecs.empty.batches twoRounds).map (fun batch => batch.dataSyncVec.map FlushRecord.key) =
      [[8, 10, 15], [16, 20, 24, 32]] ∧
    (SyncVecs.empty.batches twoRounds).map (fun batch => batch.archiveVec.map Prod.fst) =
      [[8, 10, 15], [16, 20, 24, 32]] :=
  ⟨batches_sorted_stream twoRounds
    ⟨by decide, by decide, by decide, by decide, by decide⟩, by decide, by decide⟩

end TxService
