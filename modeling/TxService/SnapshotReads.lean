import TxService.TxRefinement

/-!
# Snapshot reads are stable

A snapshot read that was answered from memory is never contradicted: later writes
are above its timestamp, and the same read finds its version again or, once that
has been archived away, none.
-/

namespace TxService

open Transition TimestampOrder CcShard

namespace CcEntry

variable {V : Type}

/-- Dropping the oldest versions takes answers away but gives no new one. -/
theorem latest_of_isPrefix {kept history : List (VersionRecord V)} {ts : Nat} {v : VersionRecord V}
    (h : kept <+: history) (found : latest kept ts = some v) : latest history ts = some v := by
  obtain ⟨dropped, rfl⟩ := h
  simp only [latest] at found ⊢
  rw [List.find?_append, found, Option.some_or]

end CcEntry

namespace TxWorld

variable {K V : Type}

/-- In memory, a read at `r` finds version `v` of the entry or nothing. -/
def SeesOnly (e : CcEntry V) (r v : Nat) : Prop :=
  e.payloadStatus ≠ .unknown ∧ ∀ x, latest e.versions r = some x → x.commitTs = v

variable {e : CcEntry V} {r v : Nat} {cfg : ShardConfig}

theorem SeesOnly.mvccGet (h : SeesOnly e r v) (lastReadTs : Nat) :
    (e.mvccGet r lastReadTs).1.commitTs = v ∨
      (e.mvccGet r lastReadTs).1.payloadStatus = e.missStatus r := by
  rw [CcEntry.mvccGet_eq_latest e r lastReadTs h.1]
  split
  · rename_i x found
    exact Or.inl (h.2 x found)
  · exact Or.inr rfl

theorem seesOnly_of_mvccGet {r v lastReadTs : Nat} (known : e.payloadStatus ≠ .unknown)
    (found : (e.mvccGet r lastReadTs).1.commitTs = v) :
    SeesOnly e r v := by
  refine ⟨known, fun x hx => ?_⟩
  rw [CcEntry.mvccGet_eq_latest e r lastReadTs known, hx] at found
  exact found

theorem overwrite_single {recycleTs : Nat} {w : PostWriteCc K V} (mvcc : cfg.enableMvcc = false) :
    (CcShard.overwrite cfg recycleTs e w).archives = e.archives := by
  simp only [CcShard.overwrite, mvcc, Bool.false_eq_true, ↓reduceIte, CcEntry.installVersion,
    CcEntry.setCommitTsPayloadStatus]
  split <;> rfl

/-- A write above the read's timestamp shows it nothing new. -/
theorem SeesOnly.overwrite {recycleTs : Nat} {w : PostWriteCc K V} (h : SeesOnly e r v)
    (newer : e.commitTs < w.commitTs) (above : r < w.commitTs)
    (single : cfg.enableMvcc = false → e.archives.getD [] = []) :
    SeesOnly (CcShard.overwrite cfg recycleTs e w) r v := by
  refine ⟨(overwrite_version cfg recycleTs newer).2, fun x hx => ?_⟩
  have newest : r < (CcShard.overwrite cfg recycleTs e w).commitTs :=
    (overwrite_version cfg recycleTs newer).1.symm ▸ above
  unfold CcEntry.versions at hx
  rw [latest_cons_newer newest] at hx
  cases mvcc : cfg.enableMvcc with
  | true =>
    have kept : (CcShard.overwrite cfg recycleTs e w).archives.getD [] =
        (e.kickOutArchiveRecords recycleTs).versions := by
      have archived := CcEntry.archiveForMvcc_known recycleTs h.1
      simp only [CcShard.overwrite, mvcc, ↓reduceIte, CcEntry.installVersion,
        CcEntry.setCommitTsPayloadStatus]
      split <;> simp [archived]
    rw [kept] at hx
    exact h.2 x (CcEntry.latest_of_isPrefix (CcEntry.kickOut_isPrefix e recycleTs) hx)
  | false =>
    rw [overwrite_single mvcc, single mvcc] at hx
    cases hx

/-- Without MVCC nothing is archived, and every answer is still the only one. -/
structure Stable (cfg : ShardConfig) (w : TxWorld K V) : Prop where
  single : cfg.enableMvcc = false → ∀ c, (w.shard.entries c).archives.getD [] = []
  answers : ∀ c r v, (c, r, v) ∈ w.answered → SeesOnly (w.shard.entries c) r v

variable [DecidableEq K]

theorem Follows.stable {w w' : TxWorld K V} (f : Follows cfg w w') (sound : Sound w)
    (cons : Consistent w.ledger) (h : Stable cfg w) : Stable cfg w' := by
  constructor
  · intro mvcc c
    rcases f.entries c with found | ⟨recycleTs, r, res, -, -, -, written⟩
    · by_cases hu : (w.shard.entries c).payloadStatus = .unknown
      · rw [(found.unknown hu).1]
        exact h.single mvcc c
      · rw [found.known hu]
        exact h.single mvcc c
    · rw [written, overwrite_single mvcc]
      exact h.single mvcc c
  · intro c r v ha
    rcases f.answers c r v ha with ha | ⟨same, known, lastReadTs, version⟩
    · have sees := h.answers c r v ha
      rcases f.entries c with found | ⟨recycleTs, wr, res, due, rfl, hold, written⟩
      · rw [found.known sees.1]
        exact sees
      · -- the writer's bound is at or above every answered read
        have bound := (cons.answers _ r v ha).writers wr.txn _ ⟨hold, res, due.mem, rfl⟩
        rw [written]
        exact sees.overwrite (due.newer sound hold) (Nat.lt_of_le_of_lt bound (due.above sound))
          fun mvcc => h.single mvcc _
    · rw [same]
      exact seesOnly_of_mvccGet known version

theorem reached_stable {w : TxWorld K V} (h : Reached cfg w) :
    Sound w ∧ Consistent w.ledger ∧ Stable cfg w := by
  refine h.invariant (P := fun w => Sound w ∧ Consistent w.ledger ∧ Stable cfg w) ?_ ?_
  · exact fun w hi => ⟨initial_sound hi, initial_consistent hi, hi.archives, by simp [hi.answered]⟩
  · rintro w e w' step ⟨sound, cons, stable⟩
    have follows := step_follows sound cons step
    exact ⟨follows.sound, cons.steps follows.steps, follows.stable sound cons stable⟩

/-- Along a run an answered read stays answered, and only versions above its
timestamp are installed. -/
theorem run_answer_kept {w w' : TxWorld K V} {events : List (TxEvent K V)}
    (run : Run (Step cfg) w events w') (h : Reached cfg w) {c : Cce K}
    (answered : (c, r, v) ∈ w.answered) :
    (c, r, v) ∈ w'.answered ∧ ∀ u ∈ w'.installed c, u ∈ w.installed c ∨ r < u := by
  induction run with
  | nil => exact ⟨answered, fun _ hu => Or.inl hu⟩
  | cons step _ ih =>
    obtain ⟨sound, cons⟩ := reached_consistent h
    have follows := step_follows sound cons step
    obtain ⟨kept, later⟩ := ih (h.next step) (follows.kept _ answered)
    have new := ((cons.answers c r v answered).steps follows.steps).2
    exact ⟨kept, fun u hu => (later u hu).elim (new u) Or.inr⟩

/-- **Snapshot reads are stable.** Once a read at `r` was answered with version
`v`, no run installs another version at or below `r`, and `MvccGet` at `r` finds
`v` again or misses. -/
theorem snapshot_read_stable {cfg : ShardConfig} {w w' : TxWorld K V} {events : List (TxEvent K V)}
    (h : Reached cfg w) (run : Run (Step cfg) w events w') {c : Cce K} {r v : Nat}
    (answered : (c, r, v) ∈ w.answered) :
    (∀ u ∈ w'.installed c, u ∈ w.installed c ∨ r < u) ∧
    ∀ lastReadTs, ((w'.shard.entries c).mvccGet r lastReadTs).1.commitTs = v ∨
      ((w'.shard.entries c).mvccGet r lastReadTs).1.payloadStatus =
        (w'.shard.entries c).missStatus r := by
  obtain ⟨kept, later⟩ := run_answer_kept run h answered
  obtain ⟨-, -, stable⟩ := reached_stable (h.run run)
  exact ⟨later, fun lastReadTs => (stable.answers c r v kept).mvccGet lastReadTs⟩

def mvcc : ShardConfig := ⟨true, false⟩

def snapshotRead : ReadCc Nat := ⟨oneEntry, ⟨1, 0⟩, 1, .snapshot, .occ, false, false, 5⟩

def lockAfterRead : AcquireCc Nat := ⟨oneEntry, ⟨2, 0⟩, 1, 0, .snapshot, .occ⟩

/-- Transaction 1 reads version 1 at timestamp 5. -/
def readAtFive : TxWorld Nat Nat := versionOne.exec mvcc (.read snapshotRead)

/-- Transaction 2 locks the entry afterwards, must commit at 6 or later, and does. -/
def writesAfterRead : List (TxEvent Nat Nat) :=
  [.acquire lockAfterRead, .setCommitTs 2 0 6, .postWrite 2 oneEntry false (some 8) 0]

theorem readAtFive_reached : Reached mvcc readAtFive :=
  Reached.exec (.start (versionOne_initial mvcc)) (.read snapshotRead)
    ⟨rfl, rfl, fun _ hw => by cases hw.2.1⟩

theorem writesAfterRead_run : Run (Step mvcc) readAtFive writesAfterRead
    (writesAfterRead.foldl (exec mvcc) readAtFive) :=
  .cons ⟨⟨rfl, by decide, nofun⟩, rfl⟩ (.cons
    ⟨⟨rfl, Linked.park_free (lockAfterRead.parks _) 2 oneEntry (fun _ => rfl) rfl, by decide⟩, rfl⟩
    (.cons ⟨⟨nofun, ⟨rfl, nofun⟩, ⟨5, 1⟩, by decide⟩, rfl⟩ (.nil _)))

theorem snapshot_read_stable_after_write :
    (writesAfterRead.foldl (exec mvcc) readAtFive).installed oneEntry = [6, 1] ∧
    (∀ u ∈ (writesAfterRead.foldl (exec mvcc) readAtFive).installed oneEntry,
      u ∈ readAtFive.installed oneEntry ∨ 5 < u) :=
  ⟨by decide, (snapshot_read_stable readAtFive_reached writesAfterRead_run (v := 1)
    (by decide : (oneEntry, 5, 1) ∈ readAtFive.answered)).1⟩

end TxWorld

end TxService
