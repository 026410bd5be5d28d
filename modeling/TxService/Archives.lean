import TxService.VersionedEntry

/-!
# Old versions that arrive late

`AddArchiveRecord` and `AddArchiveRecords` of `cc_entry.h`: the place is looked for once.
-/

namespace TxService

universe u

variable {V : Type u}

/-- A historical version as the data store hands it over. -/
structure VersionTxRecord (V : Type u) where
  record : Option V
  recordStatus : RecordStatus
  commitTs : Nat

def VersionTxRecord.version (v : VersionTxRecord V) : VersionRecord V :=
  ⟨v.record, v.commitTs, v.recordStatus⟩

/-- The loop over the batch. The archives are the ones from the iterator on; a version is put in
front of it unless the iterator stands at the same version, and the iterator moves past it. -/
def placeArchives : List (VersionRecord V) → List (VersionTxRecord V) → List (VersionRecord V)
  | archives, [] => archives
  | [], v :: batch => v.version :: placeArchives [] batch
  | a :: archives, v :: batch =>
    if a.commitTs ≠ v.commitTs then v.version :: placeArchives (a :: archives) batch
    else a :: placeArchives archives batch

/-- The versions descend. -/
def Descending (versions : List (VersionRecord V)) : Prop :=
  versions.Pairwise (·.commitTs > ·.commitTs)

theorem Descending.cons {v : VersionRecord V} {older : List (VersionRecord V)} (h : Descending older)
    (below : ∀ a ∈ older, a.commitTs < v.commitTs) : Descending (v :: older) :=
  List.pairwise_cons.mpr ⟨below, h⟩

theorem Descending.append {newer older : List (VersionRecord V)} (hn : Descending newer)
    (ho : Descending older) (apart : ∀ a ∈ newer, ∀ b ∈ older, b.commitTs < a.commitTs) :
    Descending (newer ++ older) :=
  List.pairwise_append.mpr ⟨hn, ho, apart⟩

theorem Descending.split {archives : List (VersionRecord V)} (h : Descending archives) (ts : Nat) :
    ∃ newer older, archives = newer ++ older ∧
      archives.takeWhile (fun a => decide (ts < a.commitTs)) = newer ∧
      archives.dropWhile (fun a => decide (ts < a.commitTs)) = older ∧
      (∀ a ∈ newer, ts < a.commitTs) ∧ ∀ a ∈ older, a.commitTs ≤ ts := by
  induction archives with
  | nil => exact ⟨[], [], rfl, rfl, rfl, by simp, by simp⟩
  | cons a archives ih =>
    obtain ⟨below, sorted⟩ := List.pairwise_cons.mp h
    by_cases newer : ts < a.commitTs
    · obtain ⟨front, back, eq, took, dropped, above, under⟩ := ih sorted
      refine ⟨a :: front, back, by simp [eq], by simp [newer, took], by simp [newer, dropped], ?_, under⟩
      intro b hb
      cases hb with
      | head => exact newer
      | tail _ hb => exact above b hb
    · refine ⟨[], a :: archives, rfl, by simp [newer], by simp [newer], by simp, ?_⟩
      intro b hb
      cases hb with
      | head => omega
      | tail _ hb =>
        have := below b hb
        omega

/-- The versions of the batch that the archives do not have. -/
def Missing (archives : List (VersionRecord V)) (batch : List (VersionTxRecord V))
    (v : VersionRecord V) : Prop :=
  ∃ b ∈ batch, v = b.version ∧ ∀ a ∈ archives, a.commitTs ≠ b.commitTs

section
variable {archives : List (VersionRecord V)} {batch : List (VersionTxRecord V)} {v : VersionRecord V}
  {a : VersionRecord V} {b : VersionTxRecord V}

theorem missing_nil : ¬ Missing archives [] v := by
  rintro ⟨b, hb, -⟩
  cases hb

theorem missing_cons_new (new : ∀ a ∈ archives, a.commitTs ≠ b.commitTs) :
    Missing archives (b :: batch) v ↔ v = b.version ∨ Missing archives batch v := by
  constructor
  · rintro ⟨c, hc, eq, absent⟩
    cases hc with
    | head => exact .inl eq
    | tail _ hc => exact .inr ⟨c, hc, eq, absent⟩
  · rintro (eq | ⟨c, hc, eq, absent⟩)
    · exact ⟨b, List.mem_cons_self, eq, new⟩
    · exact ⟨c, List.mem_cons_of_mem b hc, eq, absent⟩

theorem missing_cons_same (same : a.commitTs = b.commitTs) (later : ∀ c ∈ batch, c.commitTs < b.commitTs) :
    Missing (a :: archives) (b :: batch) v ↔ Missing archives batch v := by
  constructor
  · rintro ⟨c, hc, eq, absent⟩
    cases hc with
    | head => exact absurd same (absent a List.mem_cons_self)
    | tail _ hc => exact ⟨c, hc, eq, fun d hd => absent d (List.mem_cons_of_mem a hd)⟩
  · rintro ⟨c, hc, eq, absent⟩
    refine ⟨c, List.mem_cons_of_mem b hc, eq, ?_⟩
    intro d hd
    cases hd with
    | head =>
      have := later c hc
      omega
    | tail _ hd => exact absent d hd

/-- What the loop needs: the archives are not newer than the batch, and where both overlap the
batch has every version of the archives. -/
structure Alongside (archives : List (VersionRecord V)) (batch : List (VersionTxRecord V)) : Prop where
  archived : Descending archives
  historical : batch.Pairwise (·.commitTs > ·.commitTs)
  notNewer : ∀ b ∈ batch.head?, ∀ a ∈ archives, a.commitTs ≤ b.commitTs
  covered : ∀ a ∈ archives, (∃ b ∈ batch, b.commitTs ≤ a.commitTs) → ∃ b ∈ batch, b.commitTs = a.commitTs

/-- Past the first version of the batch the rest of the archives is not newer than the second. -/
theorem Alongside.tail (h : Alongside archives (b :: batch))
    (below : ∀ a ∈ archives, a.commitTs < b.commitTs) : Alongside archives batch := by
  obtain ⟨later, historical⟩ := List.pairwise_cons.mp h.historical
  have covered : ∀ a ∈ archives, (∃ c ∈ batch, c.commitTs ≤ a.commitTs) →
      ∃ c ∈ batch, c.commitTs = a.commitTs := by
    rintro a ha ⟨c, hc, le⟩
    obtain ⟨d, hd, eq⟩ := h.covered a ha ⟨c, List.mem_cons_of_mem b hc, le⟩
    cases hd with
    | head =>
      have := below a ha
      omega
    | tail _ hd => exact ⟨d, hd, eq⟩
  refine ⟨h.archived, historical, ?_, covered⟩
  intro c hc a ha
  -- a version in between would be in the batch, which has none there
  by_contra newer
  obtain ⟨d, hd, eq⟩ := covered a ha ⟨c, List.mem_of_mem_head? hc, by omega⟩
  obtain ⟨rest, rfl⟩ := List.head?_eq_some_iff.mp hc
  cases hd with
  | head => omega
  | tail _ hd =>
    have := (List.pairwise_cons.mp historical).1 d hd
    omega

theorem mem_placeArchives (h : Alongside archives batch) :
    v ∈ placeArchives archives batch ↔ v ∈ archives ∨ Missing archives batch v := by
  induction batch generalizing archives with
  | nil => simp [placeArchives, missing_nil]
  | cons b batch ih =>
    have later := (List.pairwise_cons.mp h.historical).1
    cases archives with
    | nil =>
      rw [placeArchives, List.mem_cons, ih (h.tail (by simp)), missing_cons_new (by simp)]
      simp
    | cons a archives =>
      obtain ⟨older, -⟩ := List.pairwise_cons.mp h.archived
      have top : a.commitTs ≤ b.commitTs := h.notNewer b rfl a List.mem_cons_self
      rw [placeArchives]
      split
      · rename_i new
        have below : ∀ c ∈ a :: archives, c.commitTs < b.commitTs := by
          intro c hc
          cases hc with
          | head => omega
          | tail _ hc =>
            have := older c hc
            omega
        rw [List.mem_cons, ih (h.tail below), missing_cons_new fun c hc => Nat.ne_of_lt (below c hc)]
        exact or_left_comm
      · rename_i same
        have same : a.commitTs = b.commitTs := Decidable.not_not.mp same
        have onward : Alongside archives (b :: batch) :=
          ⟨(List.pairwise_cons.mp h.archived).2, h.historical,
            fun c hc d hd => h.notNewer c hc d (List.mem_cons_of_mem a hd),
            fun d hd => h.covered d (List.mem_cons_of_mem a hd)⟩
        have below : ∀ c ∈ archives, c.commitTs < b.commitTs := fun c hc => same ▸ older c hc
        rw [List.mem_cons, ih (onward.tail below), missing_cons_same same later, List.mem_cons, or_assoc]

theorem placeArchives_descending (h : Alongside archives batch) : Descending (placeArchives archives batch) := by
  induction batch generalizing archives with
  | nil => exact h.archived
  | cons b batch ih =>
    have later := (List.pairwise_cons.mp h.historical).1
    -- what the loop still places is below the version it has just passed
    have under {rest : List (VersionRecord V)} (along : Alongside rest batch)
        (below : ∀ c ∈ rest, c.commitTs < b.commitTs) :
        ∀ c ∈ placeArchives rest batch, c.commitTs < b.commitTs := by
      intro c hc
      rcases (mem_placeArchives along).mp hc with hc | ⟨d, hd, rfl, -⟩
      · exact below c hc
      · exact later d hd
    cases archives with
    | nil =>
      have along := h.tail (by simp)
      exact (ih along).cons (under along (by simp))
    | cons a archives =>
      obtain ⟨older, sorted⟩ := List.pairwise_cons.mp h.archived
      have top : a.commitTs ≤ b.commitTs := h.notNewer b rfl a List.mem_cons_self
      rw [placeArchives]
      split
      · rename_i new
        have below : ∀ c ∈ a :: archives, c.commitTs < b.commitTs := by
          intro c hc
          cases hc with
          | head => omega
          | tail _ hc =>
            have := older c hc
            omega
        exact (ih (h.tail below)).cons (under (h.tail below) below)
      · rename_i same
        have same : a.commitTs = b.commitTs := Decidable.not_not.mp same
        have onward : Alongside archives (b :: batch) :=
          ⟨sorted, h.historical, fun c hc d hd => h.notNewer c hc d (List.mem_cons_of_mem a hd),
            fun d hd => h.covered d (List.mem_cons_of_mem a hd)⟩
        have below : ∀ c ∈ archives, c.commitTs < b.commitTs := fun c hc => same ▸ older c hc
        exact (ih (onward.tail below)).cons fun c hc => same ▸ under (onward.tail below) below c hc

theorem le_first {first : VersionTxRecord V} (historical : (first :: batch).Pairwise (·.commitTs > ·.commitTs))
    (hb : b ∈ first :: batch) : b.commitTs ≤ first.commitTs := by
  cases hb with
  | head => exact Nat.le_refl _
  | tail _ hb => exact Nat.le_of_lt ((List.pairwise_cons.mp historical).1 b hb)

end

namespace CcEntry

def addArchiveRecords (e : CcEntry V) (vRecs : List (VersionTxRecord V)) : CcEntry V :=
  match vRecs with
  | [] => e
  | first :: _ =>
    let archives := e.archives.getD []
    let newer := archives.takeWhile fun a => decide (first.commitTs < a.commitTs)
    let rest := archives.dropWhile fun a => decide (first.commitTs < a.commitTs)
    { e with archives := some (newer ++ placeArchives rest vRecs) }

def addArchiveRecord (e : CcEntry V) (payload : Option V) (payloadStatus : RecordStatus)
    (commitTs : Nat) : CcEntry V :=
  if commitTs = 1 ∧ payloadStatus = .deleted then e
  else
    let archives := e.archives.getD []
    let newer := archives.takeWhile fun a => decide (commitTs < a.commitTs)
    let rest := archives.dropWhile fun a => decide (commitTs < a.commitTs)
    let placed := if rest.head?.any fun a => a.commitTs = commitTs then rest
      else ⟨payload, commitTs, payloadStatus⟩ :: rest
    { e with archives := some (newer ++ placed) }

variable {e : CcEntry V} {batch : List (VersionTxRecord V)}

theorem addArchiveRecords_archives (archived : Descending (e.archives.getD []))
    (historical : batch.Pairwise (·.commitTs > ·.commitTs))
    (covered : ∀ a ∈ e.archives.getD [], (∃ b ∈ batch, b.commitTs ≤ a.commitTs) →
      (∃ b ∈ batch, a.commitTs ≤ b.commitTs) → ∃ b ∈ batch, b.commitTs = a.commitTs) :
    Descending ((e.addArchiveRecords batch).archives.getD []) ∧
      ∀ v, v ∈ (e.addArchiveRecords batch).archives.getD [] ↔
        v ∈ e.archives.getD [] ∨ Missing (e.archives.getD []) batch v := by
  cases batch with
  | nil => exact ⟨archived, fun v => by simp [addArchiveRecords, missing_nil]⟩
  | cons first rest =>
    obtain ⟨newer, older, eq, took, dropped, above, under⟩ := archived.split first.commitTs
    have after : (e.addArchiveRecords (first :: rest)).archives.getD [] =
        newer ++ placeArchives older (first :: rest) := by
      simp only [addArchiveRecords, took, dropped, Option.getD_some]
    rw [eq] at archived covered
    obtain ⟨sortedNewer, sortedOlder, apart⟩ := List.pairwise_append.mp archived
    have along : Alongside older (first :: rest) := by
      refine ⟨sortedOlder, historical, ?_, ?_⟩
      · rintro b ⟨⟩ a ha
        exact under a ha
      · intro a ha collected
        exact covered a (List.mem_append_right _ ha) collected ⟨first, List.mem_cons_self, under a ha⟩
    have missing (v : VersionRecord V) :
        Missing (newer ++ older) (first :: rest) v ↔ Missing older (first :: rest) v := by
      constructor
      · rintro ⟨b, hb, same, absent⟩
        exact ⟨b, hb, same, fun a ha => absent a (List.mem_append_right _ ha)⟩
      · rintro ⟨b, hb, same, absent⟩
        refine ⟨b, hb, same, fun a ha => ?_⟩
        cases List.mem_append.mp ha with
        | inl ha =>
          have := above a ha
          have := le_first historical hb
          omega
        | inr ha => exact absent a ha
    rw [after, eq]
    refine ⟨Descending.append sortedNewer (placeArchives_descending along) ?_, ?_⟩
    · intro a ha v hv
      rcases (mem_placeArchives along).mp hv with hv | ⟨b, hb, rfl, -⟩
      · exact apart a ha v hv
      · exact Nat.lt_of_le_of_lt (le_first historical hb) (above a ha)
    · intro v
      rw [List.mem_append, mem_placeArchives along, missing, List.mem_append, or_assoc]

/-- **Archive merge.** A batch that has every version of the archives within its range leaves
descending archives with the versions of both; those that were there keep payload and status. -/
theorem addArchiveRecords_merges (e : CcEntry V) (batch : List (VersionTxRecord V))
    (archived : Descending (e.archives.getD []))
    (historical : batch.Pairwise (·.commitTs > ·.commitTs))
    (covered : ∀ a ∈ e.archives.getD [], (∃ b ∈ batch, b.commitTs ≤ a.commitTs) →
      (∃ b ∈ batch, a.commitTs ≤ b.commitTs) → ∃ b ∈ batch, b.commitTs = a.commitTs) :
    let archives := e.archives.getD []
    let after := (e.addArchiveRecords batch).archives.getD []
    Descending after ∧
      (∀ ts, (∃ v ∈ after, v.commitTs = ts) ↔
        (∃ a ∈ archives, a.commitTs = ts) ∨ ∃ b ∈ batch, b.commitTs = ts) ∧
      (∀ a ∈ archives, a ∈ after) ∧
      ∀ b ∈ batch, (∀ a ∈ archives, a.commitTs ≠ b.commitTs) → b.version ∈ after := by
  intro archives after
  obtain ⟨descending, mem⟩ := addArchiveRecords_archives archived historical covered
  have old : ∀ a ∈ archives, a ∈ after := fun a ha => (mem a).mpr (.inl ha)
  have new : ∀ b ∈ batch, (∀ a ∈ archives, a.commitTs ≠ b.commitTs) → b.version ∈ after :=
    fun b hb absent => (mem b.version).mpr (.inr ⟨b, hb, rfl, absent⟩)
  refine ⟨descending, fun ts => ⟨?_, ?_⟩, old, new⟩
  · rintro ⟨v, hv, rfl⟩
    rcases (mem v).mp hv with hv | ⟨b, hb, rfl, -⟩
    · exact .inl ⟨v, hv, rfl⟩
    · exact .inr ⟨b, hb, rfl⟩
  · rintro (⟨a, ha, rfl⟩ | ⟨b, hb, rfl⟩)
    · exact ⟨a, old a ha, rfl⟩
    · by_cases found : ∃ a ∈ archives, a.commitTs = b.commitTs
      · obtain ⟨a, ha, same⟩ := found
        exact ⟨a, old a ha, same⟩
      · exact ⟨b.version, new b hb fun a ha same => found ⟨a, ha, same⟩, rfl⟩

/-- Versions 9 and 4 are there, 7, 4 and 2 arrive. -/
theorem addArchiveRecords_merges_overlap :
    let e : CcEntry Nat := ⟨some 1, 12, .normal, 0, some [⟨some 9, 9, .normal⟩, ⟨some 4, 4, .normal⟩]⟩
    let batch : List (VersionTxRecord Nat) :=
      [⟨some 70, .normal, 7⟩, ⟨some 40, .normal, 4⟩, ⟨none, .deleted, 2⟩]
    (e.addArchiveRecords batch).archives = some
        [⟨some 9, 9, .normal⟩, ⟨some 70, 7, .normal⟩, ⟨some 4, 4, .normal⟩, ⟨none, 2, .deleted⟩] ∧
      Descending ((e.addArchiveRecords batch).archives.getD []) := by
  intro e batch
  exact ⟨by decide, (addArchiveRecords_merges e batch (by simp [Descending, e]) (by simp [batch])
    (by simp [e, batch])).1⟩

theorem addArchiveRecord_archives (archived : Descending (e.archives.getD [])) (payload : Option V)
    (status : RecordStatus) (ts : Nat) :
    Descending ((e.addArchiveRecord payload status ts).archives.getD []) ∧
      ∀ v ∈ (e.addArchiveRecord payload status ts).archives.getD [],
        v ∈ e.archives.getD [] ∨ v = ⟨payload, ts, status⟩ := by
  unfold addArchiveRecord
  split
  · exact ⟨archived, fun v hv => .inl hv⟩
  · obtain ⟨newer, older, eq, took, dropped, above, under⟩ := archived.split ts
    simp only [took, dropped, Option.getD_some]
    rw [eq] at archived ⊢
    obtain ⟨sortedNewer, sortedOlder, apart⟩ := List.pairwise_append.mp archived
    split
    · exact ⟨archived, fun v hv => .inl hv⟩
    · rename_i absent
      have below : ∀ a ∈ older, a.commitTs < ts := by
        cases older with
        | nil => simp
        | cons a older =>
          have ne : a.commitTs ≠ ts := by simpa using absent
          have le := under a List.mem_cons_self
          intro b hb
          cases hb with
          | head => omega
          | tail _ hb =>
            have : b.commitTs < a.commitTs := (List.pairwise_cons.mp sortedOlder).1 b hb
            omega
      refine ⟨Descending.append sortedNewer (sortedOlder.cons below) ?_, ?_⟩
      · intro a ha b hb
        cases hb with
        | head => exact above a ha
        | tail _ hb => exact apart a ha b hb
      · intro v hv
        simp only [List.mem_append, List.mem_cons] at hv ⊢
        rcases hv with hv | rfl | hv
        · exact .inl (.inl hv)
        · exact .inr rfl
        · exact .inl (.inr hv)

end CcEntry

end TxService
