import TxService.VersionedEntry

/-!
# What a checkpoint takes from a versioned entry

`CcEntry::ExportForCkpt` of `cc_entry.h`, without sizes and memory accounting.
-/

namespace TxService

universe u v

/-- A row for the base table; `cce_` is null when the store has the version already. -/
structure FlushRecord (K : Type v) (V : Type u) where
  key : K
  payload : Option V
  payloadStatus : RecordStatus
  commitTs : Nat
  hasCce : Bool
  deriving DecidableEq

/-- A row for the archive table, which names its key by the row of the base vector. -/
structure ArchiveFlushRecord (V : Type u) where
  keyIndex : Nat
  payload : Option V
  payloadStatus : RecordStatus
  commitTs : Nat
  deriving DecidableEq

/-- The rows of `ckpt_vec` that are in use, `akv_vec` and `mv_base_vec`. -/
structure CkptVecs (K : Type v) (V : Type u) where
  ckptVec : List (FlushRecord K V)
  akvVec : List (ArchiveFlushRecord V)
  mvBaseVec : List Nat
  deriving DecidableEq

structure ExportFlags where
  exportPersistedItemToCkptVec : Bool
  exportBaseTableItemOnly : Bool
  exportPersistedKeyOnly : Bool

variable {K : Type v} {V : Type u}

namespace VersionRecord

/-- `SetVersionedPayload`: a payload only when the version is live. -/
def livePayload (v : VersionRecord V) : Option V :=
  if v.payloadStatus = .normal then v.payload else none

def flushRecord (v : VersionRecord V) (key : K) (hasCce : Bool) : FlushRecord K V :=
  ⟨key, v.livePayload, v.payloadStatus, v.commitTs, hasCce⟩

/-- The row of a persisted version of which only the key is needed. -/
def keyRecord (v : VersionRecord V) (key : K) : FlushRecord K V :=
  ⟨key, none, v.payloadStatus, v.commitTs, false⟩

def archiveRecord (ckptIdx : Nat) (v : VersionRecord V) : ArchiveFlushRecord V :=
  ⟨ckptIdx, v.livePayload, v.payloadStatus, v.commitTs⟩

end VersionRecord

namespace CkptVecs

def addBase (out : CkptVecs K V) (row : FlushRecord K V) : CkptVecs K V :=
  { out with ckptVec := out.ckptVec ++ [row] }

def addArchive (out : CkptVecs K V) (row : ArchiveFlushRecord V) : CkptVecs K V :=
  { out with akvVec := out.akvVec ++ [row] }

def addArchives (out : CkptVecs K V) (ckptIdx : Nat) (vs : List (VersionRecord V)) : CkptVecs K V :=
  { out with akvVec := out.akvVec ++ vs.map (VersionRecord.archiveRecord ckptIdx) }

/-- Versions of one key, newest first: one row for the base table, the rest archived. -/
def place (out : CkptVecs K V) (key : K) : List (VersionRecord V) → CkptVecs K V
  | [] => out
  | v :: older => (out.addBase (v.flushRecord key true)).addArchives out.ckptVec.length older

end CkptVecs

namespace CcEntry

def isPersistent (e : CcEntry V) : Bool := decide (e.commitTs ≤ e.ckptTs)

/-- The loop over the archives, newest first, with the number of versions exported so far. -/
def exportArchives (flags : ExportFlags) (key : K) (ckptIdx ckptTs toTs : Nat) :
    List (VersionRecord V) → CkptVecs K V × Nat → CkptVecs K V × Nat
  | [], result => result
  | v :: older, (out, count) =>
    if toTs < v.commitTs then exportArchives flags key ckptIdx ckptTs toTs older (out, count)
    else if v.commitTs < ckptTs ∨ v.commitTs = 1 then (out, count)
    else if v.commitTs = ckptTs then
      if count ≠ 0 then (out.addArchive (v.archiveRecord ckptIdx), count + 1)
      else if flags.exportPersistedItemToCkptVec then
        (out.addBase (v.flushRecord key false), count + 1)
      else if flags.exportPersistedKeyOnly then (out.addBase (v.keyRecord key), count + 1)
      else (out, count)
    else
      exportArchives flags key ckptIdx ckptTs toTs older
        (if count = 0 then out.addBase (v.flushRecord key true)
          else out.addArchive (v.archiveRecord ckptIdx), count + 1)

/-- A persisted entry is exported only to move its key to another range. -/
def exportPersisted (e : CcEntry V) (key : K) (out : CkptVecs K V) (toTs : Nat)
    (flags : ExportFlags) : CkptVecs K V × Nat :=
  let wanted := e.commitTs ≠ 1 ∧ e.commitTs ≤ toTs ∧
    (e.payloadStatus = .normal ∨ e.payloadStatus = .deleted)
  if flags.exportPersistedItemToCkptVec = true ∧ wanted then
    (out.addBase (e.current.flushRecord key false), 1)
  else if flags.exportPersistedKeyOnly = true ∧ wanted then
    (out.addBase (e.current.keyRecord key), 1)
  else (out, 0)

/-- The vectors with the rows of this entry, and how many versions were exported. -/
def exportForCkpt (e : CcEntry V) (key : K) (out : CkptVecs K V) (toTs oldestActiveTxTs : Nat)
    (mvccEnabled : Bool) (flags : ExportFlags) : CkptVecs K V × Nat :=
  if e.isPersistent then e.exportPersisted key out toTs flags
  else
    let ckptIdx := out.ckptVec.length
    let first := if e.commitTs ≤ toTs then (out.addBase (e.current.flushRecord key true), 1)
      else (out, 0)
    if !mvccEnabled || flags.exportBaseTableItemOnly then first
    else
      let (out, count) :=
        exportArchives flags key ckptIdx e.ckptTs toTs (e.archives.getD []) first
      (if 0 < count ∧ e.ckptTs = 0 ∧ e.hasVisibleVersion oldestActiveTxTs = false then
        { out with mvBaseVec := out.mvBaseVec ++ [ckptIdx] } else out, count)

/-- Archived, not in the store yet and not above the target. -/
def Fresh (ckptTs toTs : Nat) (v : VersionRecord V) : Prop :=
  1 < v.commitTs ∧ ckptTs < v.commitTs ∧ v.commitTs ≤ toTs

instance (ckptTs toTs : Nat) (v : VersionRecord V) : Decidable (Fresh ckptTs toTs v) :=
  inferInstanceAs (Decidable (_ ∧ _))

/-- The versions up to the target that the store does not have. -/
def Exportable (e : CcEntry V) (toTs : Nat) (v : VersionRecord V) : Prop :=
  v = e.current ∧ e.commitTs ≤ toTs ∨ v ∈ e.archives.getD [] ∧ Fresh e.ckptTs toTs v

/-- The version that the base table holds and is about to lose. -/
def Overwritten (ckptTs : Nat) (v : VersionRecord V) : Prop :=
  v.commitTs = ckptTs ∧ 1 < ckptTs

instance (ckptTs : Nat) (v : VersionRecord V) : Decidable (Overwritten ckptTs v) :=
  inferInstanceAs (Decidable (_ ∧ _))

def fresh (ckptTs toTs : Nat) (archives : List (VersionRecord V)) : List (VersionRecord V) :=
  archives.filter fun v => decide (Fresh ckptTs toTs v)

def overwritten (ckptTs : Nat) (archives : List (VersionRecord V)) : List (VersionRecord V) :=
  archives.filter fun v => decide (Overwritten ckptTs v)

/-- The exportable versions, newest first. -/
def exportable (e : CcEntry V) (toTs : Nat) : List (VersionRecord V) :=
  (if e.commitTs ≤ toTs then [e.current] else []) ++ fresh e.ckptTs toTs (e.archives.getD [])

/-- A checkpoint of a table that is not being split. -/
def plainExport : ExportFlags := ⟨false, false, false⟩

section
variable {key : K} {ckptIdx ckptTs toTs count : Nat} {out : CkptVecs K V}
  {v : VersionRecord V} {archives older : List (VersionRecord V)}

/-- Below a version that the store has there is nothing left to export. -/
theorem nothing_below (ckptTs toTs : Nat) (below : ∀ u ∈ older, u.commitTs < v.commitTs)
    (done : v.commitTs ≤ ckptTs ∨ v.commitTs = 1) :
    fresh ckptTs toTs older = [] ∧ overwritten ckptTs older = [] := by
  unfold fresh overwritten
  simp only [List.filter_eq_nil_iff, decide_eq_true_eq]
  constructor
  · intro u hu new
    have := below u hu
    have : 1 < u.commitTs ∧ ckptTs < u.commitTs := ⟨new.1, new.2.1⟩
    omega
  · intro u hu old
    have := below u hu
    have : u.commitTs = ckptTs ∧ 1 < ckptTs := old
    omega

@[simp] theorem fresh_cons : fresh ckptTs toTs (v :: older) =
    if Fresh ckptTs toTs v then v :: fresh ckptTs toTs older else fresh ckptTs toTs older := by
  simp [fresh, List.filter_cons]

@[simp] theorem overwritten_cons : overwritten ckptTs (v :: older) =
    if Overwritten ckptTs v then v :: overwritten ckptTs older else overwritten ckptTs older := by
  simp [overwritten, List.filter_cons]

theorem exportArchives_after_base (sorted : archives.Pairwise (·.commitTs > ·.commitTs))
    (positive : ∀ v ∈ archives, 0 < v.commitTs) (target : ckptTs ≤ toTs) (exported : count ≠ 0) :
    (exportArchives plainExport key ckptIdx ckptTs toTs archives (out, count)).1 =
      out.addArchives ckptIdx (fresh ckptTs toTs archives ++ overwritten ckptTs archives) := by
  induction archives generalizing out count with
  | nil => simp [exportArchives, fresh, overwritten, CkptVecs.addArchives]
  | cons v older ih =>
    obtain ⟨below, sorted⟩ := List.pairwise_cons.mp sorted
    have rest : ∀ u ∈ older, 0 < u.commitTs := fun u hu => positive u (List.mem_cons_of_mem _ hu)
    have known := positive v List.mem_cons_self
    rw [exportArchives]
    by_cases above : toTs < v.commitTs
    · have skipped : ¬ Fresh ckptTs toTs v ∧ ¬ Overwritten ckptTs v := by
        simp only [Fresh, Overwritten]
        omega
      rw [if_pos above, ih sorted rest exported]
      simp [skipped]
    rw [if_neg above]
    by_cases stop : v.commitTs < ckptTs ∨ v.commitTs = 1
    · have nothing := nothing_below ckptTs toTs below (by omega)
      have skipped : ¬ Fresh ckptTs toTs v ∧ ¬ Overwritten ckptTs v := by
        simp only [Fresh, Overwritten]
        omega
      simp [if_pos stop, skipped, nothing, CkptVecs.addArchives]
    rw [if_neg stop]
    by_cases stored : v.commitTs = ckptTs
    · have nothing := nothing_below ckptTs toTs below (by omega)
      have taken : ¬ Fresh ckptTs toTs v ∧ Overwritten ckptTs v := by
        simp only [Fresh, Overwritten]
        omega
      simp [if_pos stored, exported, taken, nothing, CkptVecs.addArchive, CkptVecs.addArchives]
    · have taken : Fresh ckptTs toTs v ∧ ¬ Overwritten ckptTs v := by
        simp only [Fresh, Overwritten]
        omega
      rw [if_neg stored, if_neg exported, ih sorted rest (Nat.succ_ne_zero count)]
      simp [taken, CkptVecs.addArchive, CkptVecs.addArchives]

/-- Without a row for the current version the first fresh archive takes its place. -/
theorem exportArchives_first (sorted : archives.Pairwise (·.commitTs > ·.commitTs))
    (positive : ∀ v ∈ archives, 0 < v.commitTs) :
    (exportArchives plainExport key out.ckptVec.length ckptTs toTs archives (out, 0)).1 =
      if fresh ckptTs toTs archives = [] then out
      else out.place key (fresh ckptTs toTs archives ++ overwritten ckptTs archives) := by
  induction archives with
  | nil => simp [exportArchives, fresh]
  | cons v older ih =>
    obtain ⟨below, sorted⟩ := List.pairwise_cons.mp sorted
    have rest : ∀ u ∈ older, 0 < u.commitTs := fun u hu => positive u (List.mem_cons_of_mem _ hu)
    have known := positive v List.mem_cons_self
    rw [exportArchives]
    by_cases above : toTs < v.commitTs
    · have skipped : ¬ Fresh ckptTs toTs v := by
        simp only [Fresh]
        omega
      rw [if_pos above, ih sorted rest]
      by_cases nothing : fresh ckptTs toTs older = []
      · simp [skipped, nothing]
      · -- a fresh version further down lies above the stored one
        obtain ⟨u, hu⟩ := List.exists_mem_of_ne_nil _ nothing
        have new : Fresh ckptTs toTs u := by simpa [fresh] using (List.mem_filter.mp hu).2
        have kept : ¬ Overwritten ckptTs v := by
          have := new.2.1
          have := new.2.2
          simp only [Overwritten]
          omega
        simp [skipped, kept]
    rw [if_neg above]
    by_cases stop : v.commitTs < ckptTs ∨ v.commitTs = 1
    · have nothing := nothing_below ckptTs toTs below (by omega)
      have skipped : ¬ Fresh ckptTs toTs v := by
        simp only [Fresh]
        omega
      simp [if_pos stop, skipped, nothing]
    rw [if_neg stop]
    by_cases stored : v.commitTs = ckptTs
    · have nothing := nothing_below ckptTs toTs below (by omega)
      have skipped : ¬ Fresh ckptTs toTs v := by
        simp only [Fresh]
        omega
      simp [if_pos stored, skipped, nothing, plainExport]
    · have taken : Fresh ckptTs toTs v ∧ ¬ Overwritten ckptTs v := by
        simp only [Fresh, Overwritten]
        omega
      rw [if_neg stored, if_pos rfl,
        exportArchives_after_base sorted rest (by omega) (Nat.succ_ne_zero 0)]
      simp [taken, CkptVecs.place]

end

end CcEntry

namespace OrderedEntry

open CcEntry (fresh overwritten plainExport Fresh Overwritten)

variable {key : K} {out : CkptVecs K V} {toTs oldestActiveTxTs : Nat} {v : VersionRecord V}

/-- The versions a checkpoint writes, the one for the base table first. -/
def rows (e : OrderedEntry V) (toTs : Nat) : List (VersionRecord V) :=
  if e.exportable toTs = [] then []
  else e.exportable toTs ++ overwritten e.ckptTs (e.archives.getD [])

theorem exportForCkpt_place (e : OrderedEntry V) (dirty : e.isPersistent = false) :
    let out' := (e.exportForCkpt key out toTs oldestActiveTxTs true plainExport).1
    out'.ckptVec = (out.place key (e.rows toTs)).ckptVec ∧
      out'.akvVec = (out.place key (e.rows toTs)).akvVec := by
  have newer : e.ckptTs < e.commitTs := by simpa [CcEntry.isPersistent] using dirty
  -- the note for `mv_base_vec` changes no row
  suffices h : (CcEntry.exportArchives plainExport key out.ckptVec.length e.ckptTs toTs
      (e.archives.getD []) (if e.commitTs ≤ toTs then
        (out.addBase (e.current.flushRecord key true), 1) else (out, 0))).1 =
      out.place key (e.rows toTs) by
    have archived : plainExport.exportBaseTableItemOnly = false := rfl
    simp only [CcEntry.exportForCkpt, dirty, archived, Bool.not_true, Bool.or_self,
      Bool.false_eq_true, if_false]
    rw [← h]
    simp only [apply_ite CkptVecs.ckptVec, apply_ite CkptVecs.akvVec, ite_self, and_self]
  by_cases current : e.commitTs ≤ toTs
  · rw [if_pos current, CcEntry.exportArchives_after_base e.archives_sorted e.positive (by omega)
      Nat.one_ne_zero]
    simp [rows, CcEntry.exportable, current, CkptVecs.place]
  · rw [if_neg current, CcEntry.exportArchives_first e.archives_sorted e.positive]
    by_cases nothing : fresh e.ckptTs toTs (e.archives.getD []) = []
    · simp [rows, CcEntry.exportable, current, nothing, CkptVecs.place]
    · simp [rows, CcEntry.exportable, current, nothing]

theorem mem_exportable (e : OrderedEntry V) : v ∈ e.exportable toTs ↔ e.Exportable toTs v := by
  unfold CcEntry.exportable CcEntry.Exportable fresh
  by_cases current : e.commitTs ≤ toTs <;> simp [current]

theorem mem_overwritten (e : OrderedEntry V) :
    v ∈ overwritten e.ckptTs (e.archives.getD []) ↔
      v ∈ e.archives.getD [] ∧ v.commitTs = e.ckptTs ∧ 1 < e.ckptTs := by
  rw [overwritten, List.mem_filter, decide_eq_true_eq, Overwritten]

/-- The exportable versions descend, and the overwritten one comes after them. -/
theorem rows_descending (e : OrderedEntry V) (toTs : Nat) (dirty : e.isPersistent = false) :
    (e.exportable toTs ++ overwritten e.ckptTs (e.archives.getD [])).Pairwise
      (·.commitTs > ·.commitTs) := by
  have newer : e.ckptTs < e.commitTs := by simpa [CcEntry.isPersistent] using dirty
  apply List.pairwise_append.mpr
  refine ⟨?_, e.archives_sorted.filter _, ?_⟩
  · unfold CcEntry.exportable
    split
    · apply List.pairwise_cons.mpr
      exact ⟨fun u hu => e.archive_below (List.mem_filter.mp hu).1, e.archives_sorted.filter _⟩
    · exact e.archives_sorted.filter _
  · intro u hu w hw
    obtain ⟨_, stored, _⟩ := e.mem_overwritten.mp hw
    rcases e.mem_exportable.mp hu with ⟨rfl, _⟩ | ⟨_, new⟩
    · exact stored ▸ newer
    · exact stored ▸ new.2.1

/-- A checkpoint writes the newest exportable version to the base table, and each other one,
with the version it overwrites there, once to the archives. -/
theorem export_complete_and_exact (e : OrderedEntry V) (key : K) (out : CkptVecs K V)
    (toTs oldestActiveTxTs : Nat) (dirty : e.isPersistent = false) :
    let out' := (e.exportForCkpt key out toTs oldestActiveTxTs true plainExport).1
    ((∀ v, ¬ e.Exportable toTs v) → out'.ckptVec = out.ckptVec ∧ out'.akvVec = out.akvVec) ∧
    ((∃ v, e.Exportable toTs v) → ∃ newest : VersionRecord V, ∃ archived : List (VersionRecord V),
      (e.Exportable toTs newest ∧ ∀ v, e.Exportable toTs v → v.commitTs ≤ newest.commitTs) ∧
      out'.ckptVec = out.ckptVec ++ [newest.flushRecord key true] ∧
      out'.akvVec = out.akvVec ++ archived.map (VersionRecord.archiveRecord out.ckptVec.length) ∧
      archived.Pairwise (·.commitTs ≠ ·.commitTs) ∧
      ∀ v, v ∈ archived ↔ e.Exportable toTs v ∧ v ≠ newest ∨
        v ∈ e.archives.getD [] ∧ v.commitTs = e.ckptTs ∧ 1 < e.ckptTs) := by
  intro out'
  obtain ⟨base, archive⟩ : out'.ckptVec = _ ∧ out'.akvVec = _ := e.exportForCkpt_place dirty
  have sorted := e.rows_descending toTs dirty
  rw [base, archive]
  cases list : e.exportable toTs with
  | nil =>
    constructor
    · intro _
      simp [rows, list, CkptVecs.place]
    · rintro ⟨v, hv⟩
      have := e.mem_exportable.mpr hv
      rw [list] at this
      cases this
  | cons newest others =>
    rw [list, List.cons_append] at sorted
    obtain ⟨below, sorted⟩ := List.pairwise_cons.mp sorted
    have here : e.Exportable toTs newest :=
      e.mem_exportable.mp (list ▸ List.mem_cons_self)
    constructor
    · exact fun nothing => absurd here (nothing newest)
    · intro _
      refine ⟨newest, others ++ overwritten e.ckptTs (e.archives.getD []), ⟨here, ?_⟩, ?_, ?_,
        sorted.imp Nat.ne_of_gt, ?_⟩
      · intro v hv
        rw [← e.mem_exportable, list] at hv
        cases hv with
        | head => exact Nat.le_refl _
        | tail _ hv => exact Nat.le_of_lt (below v (List.mem_append_left _ hv))
      · simp [rows, list, CkptVecs.place, CkptVecs.addBase, CkptVecs.addArchives]
      · simp [rows, list, CkptVecs.place, CkptVecs.addBase, CkptVecs.addArchives]
      · intro v
        rw [List.mem_append, e.mem_overwritten, ← e.mem_exportable, list, List.mem_cons]
        apply or_congr_left
        constructor
        · intro hv
          refine ⟨Or.inr hv, ?_⟩
          rintro rfl
          exact Nat.lt_irrefl _ (below v (List.mem_append_left _ hv))
        · exact fun hv => hv.1.resolve_left hv.2

/-- An entry with an unflushed version above the target, as in the comment on the export. -/
def historyEntry : OrderedEntry Nat where
  curPayload := some 100
  commitTs := 10
  payloadStatus := .normal
  ckptTs := 5
  archives := some [⟨some 80, 8, .normal⟩, ⟨none, 7, .deleted⟩, ⟨some 50, 5, .normal⟩,
    ⟨some 40, 4, .normal⟩]
  descending := by decide
  positive := by decide
  known := by decide

theorem historyEntry_export :
    historyEntry.isPersistent = false ∧
      historyEntry.exportable 9 = [⟨some 80, 8, .normal⟩, ⟨none, 7, .deleted⟩] ∧
      ∃ newest : VersionRecord Nat, historyEntry.Exportable 9 newest ∧
        (historyEntry.exportForCkpt 3 ⟨[], [], []⟩ 9 9 true plainExport).1.ckptVec =
          [newest.flushRecord 3 true] := by
  have dirty : historyEntry.isPersistent = false := by decide
  have list : historyEntry.exportable 9 = [⟨some 80, 8, .normal⟩, ⟨none, 7, .deleted⟩] := by decide
  have listed : historyEntry.Exportable 9 ⟨some 80, 8, .normal⟩ :=
    historyEntry.mem_exportable.mp (list ▸ List.mem_cons_self)
  obtain ⟨newest, _, ⟨here, _⟩, base, _⟩ :=
    (export_complete_and_exact historyEntry 3 ⟨[], [], []⟩ 9 9 dirty).2 ⟨_, listed⟩
  exact ⟨dirty, list, newest, here, base⟩

end OrderedEntry

end TxService
