import Mathlib.Data.List.Nodup
import TxService.DataSyncScan

/-!
# The keys of archive rows

A round of a data sync names the keys of archive rows by places in the scan vector, and `DataSync`
looks them up in the vector it flushes.
-/

namespace TxService

universe u v

variable {K : Type v} {V : Type u}

/-- What a round exports, with the key of the entry that each archive row and each move comes
from. -/
structure RoundExport (K : Type v) (V : Type u) where
  vecs : CkptVecs K V
  akvFrom : List K
  mvBaseFrom : List K

/-- How the entries of a round are exported. -/
structure ExportRequest where
  toTs : Nat
  oldestActiveTxTs : Nat
  mvccEnabled : Bool
  flags : ExportFlags

section
variable {A : Type u} {key : A → K} {p : A → Bool}

theorem le_of_filter_getElem? {xs : List A} {i : Nat} {y : A}
    (found : (xs.filter p)[i]? = some y) : ∃ j, i ≤ j ∧ xs[j]? = some y := by
  induction xs generalizing i with
  | nil => simp at found
  | cons x xs ih =>
    by_cases kept : p x = true
    · rw [List.filter_cons_of_pos kept] at found
      cases i with
      | zero => exact ⟨0, Nat.le_refl 0, found⟩
      | succ i =>
        have rest : (xs.filter p)[i]? = some y := by simpa using found
        obtain ⟨j, le, here⟩ := ih rest
        exact ⟨j + 1, by omega, by simpa using here⟩
    · rw [List.filter_cons_of_neg kept] at found
      obtain ⟨j, le, here⟩ := ih found
      exact ⟨j + 1, by omega, by simpa using here⟩

/-- A place names the same key in the filtered list exactly when nothing up to it is left out. -/
theorem filter_names_iff {xs : List A} (distinct : (xs.map key).Nodup) {i : Nat} {x : A}
    (here : xs[i]? = some x) :
    (xs.filter p)[i]?.map key = some (key x) ↔ ∀ y ∈ xs.take (i + 1), p y = true := by
  induction xs generalizing i with
  | nil => simp at here
  | cons first xs ih =>
    obtain ⟨new, distinct⟩ := List.nodup_cons.mp distinct
    by_cases kept : p first = true
    · rw [List.filter_cons_of_pos kept]
      cases i with
      | zero =>
        obtain rfl : first = x := by simpa using here
        simp [kept]
      | succ i => simpa [kept] using ih distinct (by simpa using here)
    · rw [List.filter_cons_of_neg kept]
      refine iff_of_false (fun same => ?_) (fun all => kept (all first (by simp)))
      obtain ⟨y, found, sameKey⟩ := Option.map_eq_some_iff.mp same
      obtain ⟨j, le, there⟩ := le_of_filter_getElem? found
      cases i with
      | zero =>
        obtain rfl : first = x := by simpa using here
        exact new (List.mem_map.mpr ⟨y, List.mem_of_getElem? there, sameKey⟩)
      | succ i =>
        have stands : xs[i]? = some x := by simpa using here
        have keyAt : (xs.map key)[i]? = (xs.map key)[j]? := by
          simp [stands, there, sameKey]
        have bound : i < (xs.map key).length := by
          obtain ⟨lt, _⟩ := List.getElem?_eq_some_iff.mp stands
          simpa using lt
        have := (List.getElem?_inj bound distinct).mp keyAt
        omega

end

/-- The vectors after some of the versions of an entry, and how many these are. -/
inductive Exported (key : K) (start : CkptVecs K V) : CkptVecs K V × Nat → Prop
  | nothing : Exported key start (start, 0)
  | base (row : FlushRecord K V) : row.key = key → Exported key start (start.addBase row, 1)
  | archive {out : CkptVecs K V} {count : Nat} (v : VersionRecord V) :
      Exported key start (out, count) → count ≠ 0 →
      Exported key start (out.addArchive (v.archiveRecord start.ckptVec.length), count + 1)

section
variable {key : K} {start out : CkptVecs K V} {count : Nat}

theorem Exported.eq_start (h : Exported key start (out, 0)) : out = start := by
  cases h
  rfl

theorem Exported.archives (flags : ExportFlags) (ckptTs toTs : Nat) (older : List (VersionRecord V))
    {result : CkptVecs K V × Nat} (h : Exported key start result) :
    Exported key start
      (CcEntry.exportArchives flags key start.ckptVec.length ckptTs toTs older result) := by
  induction older generalizing result with
  | nil => exact h
  | cons v older ih =>
    obtain ⟨out, count⟩ := result
    unfold CcEntry.exportArchives
    have first : ∀ row : FlushRecord K V, row.key = key → count = 0 →
        Exported key start (out.addBase row, count + 1) := by
      rintro row own rfl
      rw [h.eq_start]
      exact .base row own
    split
    · exact ih h
    split
    · exact h
    split
    · split
      · rename_i some_
        exact .archive v h some_
      · rename_i none_
        split
        · exact first _ rfl (by omega)
        split
        · exact first _ rfl (by omega)
        · exact h
    · apply ih
      split
      · rename_i none_
        exact first _ rfl none_
      · rename_i some_
        exact .archive v h some_

theorem Exported.keys (h : Exported key start (out, count)) :
    out.ckptVec.map FlushRecord.key =
      start.ckptVec.map FlushRecord.key ++ if count = 0 then [] else [key] := by
  generalize result : (out, count) = r at h
  induction h generalizing out count with
  | nothing =>
    cases result
    simp
  | base row own =>
    cases result
    simp [CkptVecs.addBase, own]
  | archive v _ some_ ih =>
    cases result
    simpa [CkptVecs.addArchive, some_] using ih rfl

theorem Exported.rows (h : Exported key start (out, count)) :
    out.mvBaseVec = start.mvBaseVec ∧ ∃ rows, out.akvVec = start.akvVec ++ rows ∧
      (∀ row ∈ rows, row.keyIndex = start.ckptVec.length) ∧ (count = 0 → rows = []) := by
  generalize result : (out, count) = r at h
  induction h generalizing out count with
  | nothing =>
    cases result
    exact ⟨rfl, [], by simp, nofun, fun _ => rfl⟩
  | base row own =>
    cases result
    exact ⟨rfl, [], by simp [CkptVecs.addBase], nofun, fun _ => rfl⟩
  | archive v _ some_ ih =>
    cases result
    obtain ⟨moves, rows, shape, places, _⟩ := ih rfl
    refine ⟨moves, rows ++ [v.archiveRecord start.ckptVec.length], ?_, ?_, by simp⟩
    · simp [CkptVecs.addArchive, shape]
    · intro row mem
      obtain old | rfl : row ∈ rows ∨ row = v.archiveRecord start.ckptVec.length := by simpa using mem
      · exact places row old
      · rfl

/-- The rows an entry has added name the record it has added, and there are none without it. -/
structure Added (key : K) (start out : CkptVecs K V) (tail : List K)
    (rows : List (ArchiveFlushRecord V)) (moves : List Nat) : Prop where
  keys : out.ckptVec.map FlushRecord.key = start.ckptVec.map FlushRecord.key ++ tail
  archived : out.akvVec = start.akvVec ++ rows
  moved : out.mvBaseVec = start.mvBaseVec ++ moves
  rowsAt : ∀ i ∈ rows.map ArchiveFlushRecord.keyIndex, i = start.ckptVec.length
  movesAt : ∀ i ∈ moves, i = start.ckptVec.length
  own : tail = [key] ∨ tail = [] ∧ rows = [] ∧ moves = []

theorem Exported.added (h : Exported key start (out, count)) (move : Bool)
    (counted : move = true → 0 < count) :
    ∃ tail rows moves, Added key start
      (if move then { out with mvBaseVec := out.mvBaseVec ++ [start.ckptVec.length] } else out)
      tail rows moves := by
  obtain ⟨noMoves, rows, shape, places, none_⟩ := h.rows
  have placed : ∀ i ∈ rows.map ArchiveFlushRecord.keyIndex, i = start.ckptVec.length := by
    simpa using places
  have tails : (if count = 0 then [] else [key]) = [key] ∨
      (if count = 0 then ([] : List K) else [key]) = [] ∧ count = 0 := by
    split <;> simp [*]
  cases move with
  | true =>
    have some_ : count ≠ 0 := by
      have := counted rfl
      omega
    exact ⟨[key], rows, [start.ckptVec.length], by simpa [some_] using h.keys, shape,
      by simp [noMoves], placed, by simp, .inl rfl⟩
  | false =>
    refine ⟨_, rows, [], h.keys, shape, by simp [noMoves], placed, by simp, ?_⟩
    exact tails.imp_right fun ⟨empty, zero⟩ => ⟨empty, none_ zero, rfl⟩

theorem exportForCkpt_added (key : K) (start : CkptVecs K V) (e : CcEntry V) (req : ExportRequest) :
    ∃ tail rows moves, Added key start
      (e.exportForCkpt key start req.toTs req.oldestActiveTxTs req.mvccEnabled req.flags).1
      tail rows moves := by
  unfold CcEntry.exportForCkpt
  split
  · unfold CcEntry.exportPersisted
    simp only
    split
    · exact (Exported.base (e.current.flushRecord key false) rfl).added false nofun
    split
    · exact (Exported.base (e.current.keyRecord key) rfl).added false nofun
    · exact Exported.nothing.added false nofun
  · have first : Exported key start
        (if e.commitTs ≤ req.toTs then (start.addBase (e.current.flushRecord key true), 1)
          else (start, 0)) := by
      split
      · exact .base _ rfl
      · exact .nothing
    simp only
    split
    · exact first.added false nofun
    · have all := first.archives req.flags e.ckptTs req.toTs (e.archives.getD [])
      generalize CcEntry.exportArchives _ _ _ _ _ _ _ = result at all ⊢
      obtain ⟨out, count⟩ := result
      simpa using all.added
        (decide (0 < count ∧ e.ckptTs = 0 ∧ e.hasVisibleVersion req.oldestActiveTxTs = false))
        (fun yes => (of_decide_eq_true yes).1)

end

/-- The places name these keys. -/
def Names (keys : List K) (places : List Nat) (names : List K) : Prop :=
  places.map (fun i => keys[i]?) = names.map some

theorem Names.append {keys names : List K} {places new : List Nat} (h : Names keys places names)
    (tail : List K) (key : K) (here : ∀ i ∈ new, i = keys.length)
    (own : tail = [key] ∨ new = []) :
    Names (keys ++ tail) (places ++ new) (names ++ List.replicate new.length key) := by
  unfold Names at h ⊢
  rw [List.map_append, List.map_append, List.map_replicate]
  congr 1
  · rw [← h]
    refine List.map_congr_left fun i mem => List.getElem?_append_left ?_
    have known : keys[i]? ∈ names.map some := h ▸ List.mem_map_of_mem mem
    obtain ⟨k, -, found⟩ := List.mem_map.mp known
    exact (List.getElem?_eq_some_iff.mp found.symm).1
  · rcases own with rfl | rfl
    · refine List.eq_replicate_iff.mpr ⟨by simp, fun k mem => ?_⟩
      obtain ⟨i, at_, rfl⟩ := List.mem_map.mp mem
      simp [here i at_]
    · rfl

namespace RoundExport

def start : RoundExport K V := ⟨⟨[], [], []⟩, [], []⟩

def exportEntry (req : ExportRequest) (r : RoundExport K V) (key : K) (e : CcEntry V) :
    RoundExport K V :=
  let out := (e.exportForCkpt key r.vecs req.toTs req.oldestActiveTxTs req.mvccEnabled req.flags).1
  { vecs := out
    akvFrom := r.akvFrom ++ List.replicate (out.akvVec.length - r.vecs.akvVec.length) key
    mvBaseFrom := r.mvBaseFrom ++ List.replicate (out.mvBaseVec.length - r.vecs.mvBaseVec.length) key }

/-- The entries that the slots of a round visit, in order. -/
def exportEntries (req : ExportRequest) : List (K × CcEntry V) → RoundExport K V → RoundExport K V
  | [], r => r
  | (key, e) :: entries, r => exportEntries req entries (r.exportEntry req key e)

/-- Every archive row and every move goes to the flush worker under the key of its entry. -/
def UnderOwnKeys (r : RoundExport K V) : Prop :=
  r.vecs.flushDataTask.archiveVec.map Prod.fst = r.akvFrom.map some ∧
    r.vecs.flushDataTask.mvBaseVec = r.mvBaseFrom.map some

/-- The places that archive rows and moves name. -/
def named (r : RoundExport K V) : List Nat :=
  r.vecs.akvVec.map ArchiveFlushRecord.keyIndex ++ r.vecs.mvBaseVec

variable {r : RoundExport K V}

structure Indexed (r : RoundExport K V) : Prop where
  archived : Names (r.vecs.ckptVec.map FlushRecord.key)
    (r.vecs.akvVec.map ArchiveFlushRecord.keyIndex) r.akvFrom
  moved : Names (r.vecs.ckptVec.map FlushRecord.key) r.vecs.mvBaseVec r.mvBaseFrom

theorem Indexed.exportEntry (h : Indexed r) (req : ExportRequest) (key : K) (e : CcEntry V) :
    Indexed (r.exportEntry req key e) ∧
      ∃ tail, (r.exportEntry req key e).vecs.ckptVec.map FlushRecord.key =
        r.vecs.ckptVec.map FlushRecord.key ++ tail ∧ tail.Sublist [key] := by
  obtain ⟨tail, rows, moves, added⟩ := exportForCkpt_added key r.vecs e req
  refine ⟨⟨?_, ?_⟩, tail, added.keys, ?_⟩
  · unfold RoundExport.exportEntry
    simp only
    rw [added.keys, added.archived, List.map_append, List.length_append, Nat.add_sub_cancel_left]
    have := h.archived.append tail key
      (fun i mem => (added.rowsAt i mem).trans (List.length_map _).symm)
      (added.own.imp_right fun ⟨_, none_, _⟩ => by simp [none_])
    simpa using this
  · unfold RoundExport.exportEntry
    simp only
    rw [added.keys, added.moved, List.length_append, Nat.add_sub_cancel_left]
    exact h.moved.append tail key (fun i mem => (added.movesAt i mem).trans (List.length_map _).symm)
      (added.own.imp_right fun ⟨_, _, none_⟩ => none_)
  · rcases added.own with rfl | ⟨rfl, _⟩
    · exact List.Sublist.refl _
    · exact List.nil_sublist _

theorem Indexed.exportEntries (h : Indexed r) (req : ExportRequest)
    (entries : List (K × CcEntry V)) :
    Indexed (r.exportEntries req entries) ∧
      ∃ tail, (r.exportEntries req entries).vecs.ckptVec.map FlushRecord.key =
        r.vecs.ckptVec.map FlushRecord.key ++ tail ∧ tail.Sublist (entries.map Prod.fst) := by
  induction entries generalizing r with
  | nil => exact ⟨h, [], by simp [RoundExport.exportEntries], List.Sublist.refl _⟩
  | cons x entries ih =>
    obtain ⟨indexed, tail, keys, sub⟩ := h.exportEntry req x.1 x.2
    obtain ⟨all, tails, allKeys, subs⟩ := ih indexed
    refine ⟨all, tail ++ tails, ?_, sub.append subs⟩
    unfold RoundExport.exportEntries
    rw [allKeys, keys, List.append_assoc]

theorem Indexed.ownKeys_iff (h : Indexed r)
    (distinct : (r.vecs.ckptVec.map FlushRecord.key).Nodup) :
    r.UnderOwnKeys ↔
      ∀ i ∈ r.named, ∀ row ∈ r.vecs.ckptVec.take (i + 1), row.hasCce = true := by
  have each : ∀ {places : List Nat} {names : List K},
      Names (r.vecs.ckptVec.map FlushRecord.key) places names →
      (places.map (fun i => (r.vecs.ckptVec.filter fun row => row.hasCce)[i]?.map FlushRecord.key) =
          names.map some ↔
        ∀ i ∈ places, ∀ row ∈ r.vecs.ckptVec.take (i + 1), row.hasCce = true) := by
    intro places names known
    rw [← known, List.map_inj_left]
    refine forall₂_congr fun i mem => ?_
    have stands : (r.vecs.ckptVec.map FlushRecord.key)[i]? ∈ names.map some :=
      known ▸ List.mem_map_of_mem mem
    obtain ⟨k, -, found⟩ := List.mem_map.mp stands
    obtain ⟨row, here, rfl⟩ := Option.map_eq_some_iff.mp ((List.getElem?_map ▸ found).symm)
    rw [← found]
    exact filter_names_iff distinct here
  have both := and_congr (each h.archived) (each h.moved)
  unfold UnderOwnKeys named CkptVecs.flushDataTask
  simp only [List.map_map, List.mem_append, or_imp, forall_and] at both ⊢
  exact both

/-- Archive rows and moves get the key of their entry exactly when no record without an entry
stands in the scan vector up to a place that one of them names. -/
theorem under_own_keys_iff (req : ExportRequest) (entries : List (K × CcEntry V))
    (distinct : (entries.map Prod.fst).Nodup) :
    (exportEntries req entries start).UnderOwnKeys ↔
      ∀ i ∈ (exportEntries req entries start).named,
        ∀ row ∈ (exportEntries req entries start).vecs.ckptVec.take (i + 1), row.hasCce = true := by
  have indexed : Indexed (start : RoundExport K V) := ⟨rfl, rfl⟩
  obtain ⟨all, tail, keys, sub⟩ := indexed.exportEntries req entries
  refine all.ownKeys_iff ?_
  rw [keys]
  exact sub.nodup distinct

/-- A record in the store, and two that are not, the first of them with an archived version. -/
def forwarded : List (Nat × CcEntry Nat) :=
  [(1, ⟨some 10, 5, .normal, 5, none⟩), (2, ⟨some 20, 9, .normal, 5, some [⟨some 21, 7, .normal⟩]⟩),
    (3, ⟨some 30, 8, .normal, 5, none⟩)]

def forwardAll (persisted : Bool) : ExportRequest := ⟨9, 9, true, ⟨persisted, false, false⟩⟩

/-- Without the persisted record the archived version keeps its key. -/
theorem under_own_keys_iff_plain :
    (exportEntries (forwardAll false) forwarded start).UnderOwnKeys :=
  (under_own_keys_iff (forwardAll false) forwarded (by decide)).mpr (by decide)

/-- With it, the archived version of key 2 is flushed under key 3. -/
theorem archive_under_next_key :
    ¬ (exportEntries (forwardAll true) forwarded start).UnderOwnKeys ∧
      (exportEntries (forwardAll true) forwarded start).akvFrom = [2] ∧
      (exportEntries (forwardAll true) forwarded start).vecs.flushDataTask.archiveVec =
        [(some 3, ⟨1, some 21, .normal, 7⟩)] := by
  refine ⟨?_, by decide, by decide⟩
  intro own
  exact absurd own.1 (by decide)

end RoundExport

end TxService
