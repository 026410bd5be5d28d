import Mathlib.Algebra.BigOperators.Ring.Finset
import TxService.ObjectTally

/-!
# The number of objects

Requests that compare the status of an entry after the change keep `normal_obj_sz_` exact; those that
compare the one from before buffered commands are committed do not.
-/

namespace TxService

universe u v w

variable {V : Type u}

theorem objSzChange_eq (before after : RecordStatus) :
    objSzChange before after =
      (if after = .normal then 1 else 0) - (if before = .normal then 1 else 0) := by
  unfold objSzChange
  by_cases b : before = .normal <;> by_cases a : after = .normal <;> simp [a, b]

/-- The commands of a forwarded message are not applied directly. -/
def ForwardRequest.Waits (m : ForwardRequest V) (e : ObjectEntry V) : Prop :=
  ¬ ((m.objectVersion = e.commitTs ∨ m.hasOverwrite = true) ∧ e.bufferedCmds.isEmpty = true)

/-- The transaction's last command always leaves an object, or never does. -/
def TxnCmd.Leaves (present : Bool) (c : TxnCmd V) : Prop :=
  ∃ cmd, c.cmdList.getLast? = some cmd ∧ ∀ v, (cmd.commitOn v).isSome = present

/-- None of the commands can be committed at the version, or all leave an object, or none does. -/
def Steady (present : Bool) (ver : Nat) (cmds : List (TxnCmd V)) : Prop :=
  (∀ d ∈ cmds, d.ignorePreviousVersion = false ∧ d.objVersion ≠ ver) ∨ ∀ d ∈ cmds, d.Leaves present

theorem TxnCmd.Leaves.commit {present : Bool} {c : TxnCmd V} (h : c.Leaves present)
    (payload : Option V) : (c.commit payload).isSome = present := by
  obtain ⟨cmd, last, always⟩ := h
  obtain ⟨front, list⟩ := List.getLast?_eq_some_iff.mp last
  rw [TxnCmd.commit, list, List.foldl_append]
  exact always _

theorem Steady.subset {present : Bool} {ver : Nat} {cmds left : List (TxnCmd V)}
    (h : Steady present ver cmds) (sub : left ⊆ cmds) : Steady present ver left :=
  h.imp (fun waits d hd => waits d (sub hd)) (fun leaves d hd => leaves d (sub hd))

theorem commitInOrder_leaves {present : Bool} {cmds : List (TxnCmd V)}
    (h : ∀ d ∈ cmds, d.Leaves present) (ver : Nat) (payload : Option V) :
    (commitInOrder ver payload cmds).1 = ver ∧ (commitInOrder ver payload cmds).2.1 = payload ∨
      (commitInOrder ver payload cmds).2.1.isSome = present := by
  induction cmds generalizing ver payload with
  | nil => exact .inl ⟨rfl, rfl⟩
  | cons c cmds ih =>
    rw [commitInOrder_cons]
    split
    · exact .inl ⟨rfl, rfl⟩
    · obtain ⟨_, same⟩ | reached :=
        ih (fun d hd => h d (List.mem_cons_of_mem c hd)) c.newVersion (c.commit payload)
      · right
        rw [same]
        exact (h c List.mem_cons_self).commit payload
      · exact .inr reached

theorem commitInOrder_steady {present : Bool} {ver : Nat} {cmds : List (TxnCmd V)}
    (h : Steady present ver cmds) (payload : Option V) :
    (commitInOrder ver payload cmds).1 = ver ∨
      (commitInOrder ver payload cmds).2.1.isSome = present := by
  rcases h with waits | leaves
  · cases cmds with
    | nil => exact .inl rfl
    | cons c cmds =>
      rw [commitInOrder_cons, if_pos (waits c List.mem_cons_self)]
      exact .inl rfl
  · exact (commitInOrder_leaves leaves ver payload).imp And.left id

namespace Tally

/-- An entry counts if its record is an object. -/
def objects : Tally V where
  weight e := if e.payloadStatus = .normal then 1 else 0
  change := EntryEffect.normalObjSz
  change_keep _ := rfl
  change_bind c f next left := by rw [EntryEffect.bind, left]

variable {e f : ObjectCcEntry V} {ctx : RequestContext V} {r : ApplyCc V}

theorem objects_exact_of_weight {status : RecordStatus} {n : Int}
    (after : objects.weight f.toObjectEntry = if status = .normal then 1 else 0) :
    objects.Exact e ⟨some f, objSzChange e.payloadStatus status, n⟩ := by
  simp only [Exact, Option.elim_some, objSzChange_eq, after]
  simp only [objects]
  omega

/-- The status that the counter is adjusted for is the one the request leaves. -/
theorem objects_exact {status : RecordStatus} {n : Int} (after : f.payloadStatus = status) :
    objects.Exact e ⟨some f, objSzChange e.payloadStatus status, n⟩ :=
  objects_exact_of_weight (by simp only [objects, after])

theorem objects_same {n : Int}
    (same : objects.weight f.toObjectEntry = objects.weight e.toObjectEntry) :
    objects.Exact e ⟨some f, 0, n⟩ := by
  simp only [Exact, Option.elim_some, same]
  exact (Int.add_zero _).symm

theorem objects_removed {status : RecordStatus} {n : Int} (gone : status ≠ .normal) :
    objects.Exact e ⟨none, objSzChange e.payloadStatus status, n⟩ := by
  simp only [Exact, objects, Option.elim_none, objSzChange_eq, gone, if_false]
  omega

theorem objects_setDeleted {e : ObjectEntry V} (unknown : e.payloadStatus = .unknown) (ts : Nat) :
    objects.weight (e.setCommitTsPayloadStatus ts .deleted) = objects.weight e := by
  simp only [ObjectEntry.setCommitTsPayloadStatus]
  split
  · simp [objects, unknown]
  · rfl

open ObjectCcEntry

theorem objects_lockedOutcome {c : EntryEffect V} (h : LockedOutcome r e c) : objects.Exact e c := by
  cases h with
  | held dirty => exact .keep (by rw [dirty.entry])
  | unlocked dirty => exact .keep (by rw [releaseCceLock_toObjectEntry, dirty.entry])
  | blocked b dirty =>
    exact .keep (by rw [releaseCceLock_toObjectEntry, pushBlockRequest_toObjectCce, dirty.entry])
  | retired deleted => exact objects_exact (by rw [releaseCceLock_toObjectEntry, deleted])
  | committed =>
    exact objects_exact (by rw [popBlockRequest_toObjectCce, releaseCceLock_toObjectEntry])

theorem objects_dropExpiredCommands : objects.Exact e e.dropExpiredCommands := by
  obtain ⟨kept, _⟩ | dropped := dropExpiredCommands_cases (e := e)
  · rw [kept]
    exact .keep rfl
  · rw [dropped]
    simp only [Exact, objects, Option.elim_some, recycleKeyLock_toObjectEntry, Int.add_zero]

theorem objects_executeApplyCc (blockType : ApplyBlockType) :
    objects.Exact e (e.executeApplyCc ctx r blockType) := by
  refine executeApplyCc_exact (Q := fun _ => True) ?_ ?_ ?_ trivial blockType (.inl trivial)
  · exact fun _ _ _ _ => objects_lockedOutcome
  · exact fun _ unknown => objects_setDeleted unknown 1
  · exact fun _ => objects_dropExpiredCommands

theorem objects_executePostWriteCc (txn : TxNumber) (commitTs : Nat) :
    objects.Exact e (e.executePostWriteCc ctx txn commitTs) := by
  simp only [executePostWriteCc, popBlockRequest_toObjectCce, releaseCceLock_toObjectEntry]
  split
  · split
    · rename_i unknown
      exact objects_removed (by rw [unknown.1]; decide)
    · exact objects_exact (by rw [popBlockRequest_toObjectCce, releaseCceLock_toObjectEntry])
  · exact .keep rfl

theorem statusOf_eq_normal {payload : Option V} : statusOf payload = .normal ↔ payload.isSome = true := by
  cases payload <;> simp [statusOf]

theorem objects_commitBufferedCommands {e : ObjectEntry V} {ver : Nat}
    (h : Steady (decide (e.payloadStatus = .normal)) ver e.bufferedCmds) (reached : ver ≤ e.commitTs) :
    objects.weight (e.commitBufferedCommands ver) = objects.weight e := by
  have steady := commitInOrder_steady h e.curPayload
  rw [ObjectEntry.commitBufferedCommands_eq]
  generalize commitInOrder ver e.curPayload e.bufferedCmds = r at steady ⊢
  simp only [ObjectEntry.setCommitTsPayloadStatus]
  split
  · rename_i later
    have present := steady.resolve_left (by omega)
    simp only [objects, statusOf_eq_normal, present, decide_eq_true_eq]
  · rfl

/-- Commands that are emplaced do not make or delete the object. -/
def Settled (e : ObjectEntry V) (c : TxnCmd V) : Prop :=
  c.ignorePreviousVersion = false ∧ e.payloadStatus = .unknown ∨
    Steady (decide (e.payloadStatus = .normal)) e.commitTs (c :: e.bufferedCmds)

theorem objects_emplaceAndCommit {e : ObjectEntry V} {c : TxnCmd V} (h : Settled e c) :
    objects.weight (e.emplaceAndCommitBufferedTxnCommand c) = objects.weight e := by
  simp only [ObjectEntry.emplaceAndCommitBufferedTxnCommand]
  split
  · rename_i commits
    have steady := h.resolve_left (by
      rintro ⟨plain, unknown⟩
      simp [plain, unknown] at commits)
    exact objects_commitBufferedCommands (e := { e with bufferedCmds := emplaceTxnCmd e.bufferedCmds c })
      (steady.subset (emplaceTxnCmd_subset _ _)) (Nat.le_refl _)
  · simp only [ObjectEntry.setCommitTsPayloadStatus, Nat.lt_irrefl, if_false]
    rfl

theorem objects_executeUploadTxCommandsCc {txn : TxNumber} {c : TxnCmd V}
    (h : e.ownsWriteLock txn = true → 0 < c.newVersion ∧ e.commitTs ≤ c.objVersion →
      Settled e.toObjectEntry c) :
    objects.Exact e (e.executeUploadTxCommandsCc txn c) := by
  simp only [executeUploadTxCommandsCc, objSzChange_self]
  split
  · rename_i owner
    refine objects_same ?_
    rw [releaseCceLock_toObjectEntry]
    split
    · rename_i current
      exact objects_emplaceAndCommit (h owner current)
    · rfl
  · exact .keep rfl

theorem objects_prepareForward (ctx : RequestContext V) (m : ForwardRequest V) :
    objects.weight (e.prepareForward ctx m).toObjectEntry = objects.weight e.toObjectEntry := by
  simp only [prepareForward]
  split
  · rename_i unknown
    split
    · exact objects_setDeleted unknown 1
    · split <;> rfl
  · rfl

theorem prepareForward_commitTs (ctx : RequestContext V) (m : ForwardRequest V) :
    (e.prepareForward ctx m).commitTs = e.commitTs ∨ (e.prepareForward ctx m).commitTs = 1 := by
  simp only [prepareForward]
  split
  · split
    · simp only [ObjectEntry.setCommitTsPayloadStatus]
      split
      · exact .inr rfl
      · exact .inl rfl
    · split <;> exact .inl rfl
  · exact .inl rfl

theorem objects_executeStandbyForwardCc {m : ForwardRequest V} (version : 1 < m.commitTs)
    (h : e.commitTs < m.commitTs → m.Waits (e.prepareForward ctx m).toObjectEntry →
      Settled (e.prepareForward ctx m).toObjectEntry (forwardedCmd m)) :
    objects.Exact e (e.executeStandbyForwardCc ctx m) := by
  have weight := objects_prepareForward (e := e) ctx m
  have before := prepareForward_commitTs (e := e) ctx m
  simp only [executeStandbyForwardCc]
  split
  · exact .keep rfl
  · rename_i newer
    generalize e.prepareForward ctx m = f at weight before h ⊢
    refine .of_weight weight ?_
    split
    · refine objects_exact ?_
      simp only [ObjectEntry.setCommitTsPayloadStatus]
      rw [if_pos (by omega)]
    · rename_i waits
      have settled := objects_emplaceAndCommit (h (by omega) waits)
      refine objects_same ?_
      split
      · rwa [recycleKeyLock_toObjectEntry]
      · exact settled

theorem objects_executeUploadBatchCc {row : UploadRecord V}
    (h : e.commitTs < row.commitTs → Steady (decide (row.recStatus = .normal)) row.commitTs
      (e.bufferedCmds.dropWhile fun c => decide (c.newVersion ≤ row.commitTs))) :
    objects.Exact e (e.executeUploadBatchCc row) := by
  simp only [executeUploadBatchCc]
  split
  · exact .keep rfl
  · rename_i newer
    have newer : e.commitTs < row.commitTs := by omega
    simp only [ObjectEntry.setCommitTsPayloadStatus, newer, if_true]
    refine objects_exact_of_weight ?_
    exact objects_commitBufferedCommands (h newer) (Nat.le_refl _)

theorem objects_executeReplayLogCc {c : TxnCmd V}
    (h : e.commitTs < c.newVersion → Settled e.toObjectEntry c) :
    objects.Exact e (e.executeReplayLogCc ctx c) := by
  have entry := prepareReplay_toObjectCce (e := e) ctx c
  simp only [executeReplayLogCc, objSzChange_self]
  split
  · rename_i newer
    rw [entry] at newer
    have settled := objects_emplaceAndCommit (h newer)
    refine objects_same ?_
    rw [releaseReplayed_toObjectEntry]
    split
    · rw [recycleKeyLock_toObjectEntry, entry]
      exact settled
    · rw [entry]
      exact settled
  · exact .keep (by rw [entry])

theorem objects_executeBackFill {commitTs : Nat} {status : RecordStatus} {record : Option V}
    (h : status = .unknown → e.payloadStatus = .normal → ctx.persistent = false) :
    objects.Exact e (e.executeBackFill ctx commitTs status record) := by
  simp only [executeBackFill, releaseCceLock_toObjectEntry]
  split
  · exact .keep rfl
  · split
    · rename_i failed
      split
      · rename_i free
        have flushed : ctx.persistent = true := (Bool.and_eq_true_iff.mp free).2
        have gone : e.payloadStatus ≠ .normal := by
          intro normal
          rw [h failed normal] at flushed
          cases flushed
        simp [Exact, objects, gone]
      · exact .keep (by rw [releaseCceLock_toObjectEntry])
    · split
      · rename_i unknown
        simp only [Exact, Option.elim_some, objects, unknown]
        split <;> simp
      · exact .keep (by rw [releaseCceLock_toObjectEntry])

theorem objects_clean : objects.Exact e e.clean := by
  simp only [Exact, clean, objects, Option.elim_none]
  split <;> rfl

end Tally

open ObjectCcEntry Tally

/-- The commands that a request commits from the list of buffered ones neither make nor delete the
object, and a failed fetch does not find an object that has been flushed. -/
def EntryVisit.CountsObjects (e : ObjectCcEntry V) : EntryVisit V → Prop
  | uploadTxCommandsCc txn c =>
    e.ownsWriteLock txn = true → 0 < c.newVersion ∧ e.commitTs ≤ c.objVersion →
      Settled e.toObjectEntry c
  | standbyForwardCc ctx m =>
    e.commitTs < m.commitTs → m.Waits (e.prepareForward ctx m).toObjectEntry →
      Settled (e.prepareForward ctx m).toObjectEntry (forwardedCmd m)
  | uploadBatchCc row =>
    e.commitTs < row.commitTs → Steady (decide (row.recStatus = .normal)) row.commitTs
      (e.bufferedCmds.dropWhile fun c => decide (c.newVersion ≤ row.commitTs))
  | replayLogCc _ c => e.commitTs < c.newVersion → Settled e.toObjectEntry c
  | backFill ctx _ status _ => status = .unknown → e.payloadStatus = .normal → ctx.persistent = false
  | applyCc .. | postWriteCc .. | clean => True

theorem Tally.objects_visit {e : ObjectCcEntry V} {visit : EntryVisit V} (enabled : visit.Enabled e)
    (counts : visit.CountsObjects e) : objects.Exact e (visit.exec e) := by
  cases visit with
  | applyCc ctx r blockType => exact objects_executeApplyCc blockType
  | postWriteCc ctx txn commitTs => exact objects_executePostWriteCc txn commitTs
  | uploadTxCommandsCc txn c => exact objects_executeUploadTxCommandsCc counts
  | standbyForwardCc ctx m => exact objects_executeStandbyForwardCc enabled counts
  | uploadBatchCc row => exact objects_executeUploadBatchCc counts
  | replayLogCc ctx c => exact objects_executeReplayLogCc counts
  | backFill ctx commitTs status record => exact objects_executeBackFill counts
  | clean => exact objects_clean

namespace ObjectShard

variable {T : Type w} {K : Type v} [DecidableEq T] [DecidableEq K]

theorem objects_total {s : ObjectShard T K V} (h : Reached EntryVisit.CountsObjects s) (t : T) :
    s.normalObjSz t = s.entries.total (Tally.objects.weightAt fun x => decide (x.1 = t)) := by
  refine Reached.invariant (I := fun s => s.normalObjSz t = s.entries.total _) h rfl ?_
  intro s x visit now enabled counts
  rw [total_update rfl (Tally.objects_visit enabled counts), ← now]
  by_cases table : x.1 = t
  · subst table
    simp [update, Tally.objects]
  · have other : t ≠ x.1 := fun same => table same.symm
    simp [update, table, Function.update_of_ne other]

/-- The counter of every map is the number of its objects, after every sequence of requests. -/
theorem normalObjSz_eq_card {s : ObjectShard T K V} (h : Reached EntryVisit.CountsObjects s) (t : T) :
    s.normalObjSz t =
      ((s.entries.keys.filter fun x =>
        x.1 = t ∧ (s.entries.record x).payloadStatus = .normal).card : Int) := by
  rw [objects_total h t, ← Finset.sum_boole]
  simp only [FiniteTable.total, weightAt, Tally.objects, decide_eq_true_eq, ite_and]

/-- A log record on an unknown object waits, and is committed on the record from the store. -/
theorem normalObjSz_eq_card_fetched :
    let cmd : TxCommand Nat := ⟨false, 0, fun v => some (v + 1)⟩
    let ctx : RequestContext Nat :=
      ⟨fun _ => none, 0, 3, 1, 9, false, false, false, false, true, false, false⟩
    let replay : ObjectRequest Unit Nat Nat := .replayLogCc () ctx 5 [⟨1, true, false, 4, false, [cmd]⟩]
    let fetched : ObjectRequest Unit Nat Nat := .backFill () 1 ctx 4 .normal (some 20)
    let s := (initial.exec replay).exec fetched
    s.normalObjSz () = 1 ∧
      (s.entries.keys.filter fun x =>
        x.1 = () ∧ (s.entries.record x).payloadStatus = .normal).card = 1 := by
  intro cmd ctx replay fetched s
  have replayed : Reached EntryVisit.CountsObjects (initial.exec replay) :=
    Reached.start.next replay
      rfl (.inr ⟨rfl, rfl⟩) trivial (fun _ => .inl ⟨rfl, rfl⟩)
  have filled : Reached EntryVisit.CountsObjects s :=
    replayed.next fetched
      rfl (.inl (by decide +kernel)) trivial (fun failed => by cases failed)
  have counter : s.normalObjSz () = 1 := by decide +kernel
  have counted := normalObjSz_eq_card filled ()
  rw [counter] at counted
  exact ⟨counter, by exact_mod_cast counted.symm⟩

/-- A log record on a key without an entry: its command makes the object, which is not counted. -/
theorem replayed_object_not_counted :
    let cmd : TxCommand Nat := ⟨true, 0, fun v => some (v + 1)⟩
    let ctx : RequestContext Nat :=
      ⟨fun _ => none, 0, 3, 1, 9, false, false, false, false, true, false, false⟩
    let s := initial.exec
      (.replayLogCc () ctx 5 [⟨1, true, false, 3, true, [cmd]⟩] : ObjectRequest Unit Nat Nat)
    Reached (fun _ _ => True) s ∧ s.normalObjSz () = 0 ∧
      (s.entries.keys.filter fun x =>
        x.1 = () ∧ (s.entries.record x).payloadStatus = .normal).card = 1 := by
  intro cmd ctx s
  refine ⟨?_, by decide +kernel, by decide +kernel⟩
  exact Reached.start.next _ rfl (.inr ⟨rfl, rfl⟩) trivial trivial

end ObjectShard

end TxService
