import TxService.LockRecycling

/-!
# Lock structures between requests

Three requests may leave an empty structure: a log record that is discarded, a batch that commits
buffered commands, and a commit that wakes the last blocked command.
-/

namespace TxService

universe u v w

variable {V : Type u}

namespace ObjectCcEntry

section
variable {e f : ObjectCcEntry V} {ctx : RequestContext V}

theorem executePostWriteCc_tidy {txn : TxNumber} {commitTs : Nat} (now : e.Tidy)
    (others : e.ownsWriteLock txn = true → e.queueBlockCmds.length ≠ 1) :
    EntryEffect.Leaves Tidy (e.executePostWriteCc ctx txn commitTs) := by
  simp only [executePostWriteCc]
  split
  · rename_i owner
    split
    · rintro _ ⟨⟩
    · have committed : Locked { e with toObjectCce := (e.toObjectCce.executePostWriteCc commitTs).1 } :=
        (locked_of_owner owner).congr rfl
      refine .some ((committed.tidy.releaseCceLock txn .writeLock).popBlockRequest ?_)
      rw [releaseCceLock_queue]
      exact others owner
  · exact .some now

theorem executeUploadTxCommandsCc_tidy (now : e.Tidy) (txn : TxNumber) (c : TxnCmd V) :
    EntryEffect.Leaves Tidy (e.executeUploadTxCommandsCc txn c) := by
  simp only [executeUploadTxCommandsCc]
  split
  · rename_i owner
    refine .some (Tidy.releaseCceLock ?_ txn .writeLock)
    refine ((locked_of_owner owner).congr ?_).tidy
    split <;> rfl
  · exact .some now

/-- The structure is recycled where the list of buffered commands is empty. -/
theorem tidy_unless_buffered {cmds : List (TxnCmd V)} (left : e.bufferedCmds = cmds) :
    (if cmds.isEmpty then e.recycleKeyLock else e).Tidy := by
  split
  · exact recycleKeyLock_tidy
  · rename_i waiting
    exact tidy_of_bufferedCmds (by simpa [left] using waiting)

theorem prepareForward_tidy (now : e.Tidy) (ctx : RequestContext V) (m : ForwardRequest V) :
    (e.prepareForward ctx m).Tidy := by
  simp only [prepareForward]
  split
  · split
    · exact now.congr rfl rfl (by rw [ObjectEntry.setCommitTsPayloadStatus_bufferedCmds]; exact id)
    · split
      · exact (acquireFetchIntent_locked _).tidy
      · exact now
  · exact now

theorem executeStandbyForwardCc_tidy (now : e.Tidy) (m : ForwardRequest V) :
    EntryEffect.Leaves Tidy (e.executeStandbyForwardCc ctx m) := by
  have prepared := prepareForward_tidy now ctx m
  simp only [executeStandbyForwardCc]
  split
  · exact .some now
  · split
    · refine .some (prepared.congr rfl rfl ?_)
      rw [ObjectEntry.setCommitTsPayloadStatus_bufferedCmds]
      exact id
    · exact .some (tidy_unless_buffered rfl)

/-- Something other than buffered commands is in the lock structure. -/
def HeldOtherwise (e : ObjectCcEntry V) : Prop := e.queueBlockCmds ≠ [] ∨ e.Locked

theorem HeldOtherwise.tidy (h : e.HeldOtherwise) (lock : f.keyLock = e.keyLock)
    (queue : f.queueBlockCmds = e.queueBlockCmds) : f.Tidy := by
  obtain blocked | locked := h
  · intro l _
    exact isEmpty_eq_false.mpr (.inr (.inl (queue ▸ blocked)))
  · exact (locked.congr lock).tidy

theorem executeUploadBatchCc_tidy {row : UploadRecord V} (now : e.Tidy)
    (others : e.commitTs < row.commitTs → e.bufferedCmds = [] ∨ e.HeldOtherwise) :
    EntryEffect.Leaves Tidy (e.executeUploadBatchCc row) := by
  simp only [executeUploadBatchCc]
  split
  · exact .some now
  · rename_i newer
    obtain nobody | held := others (by omega)
    · exact .some (now.congr rfl rfl fun _ => nobody)
    · exact .some (held.tidy rfl rfl)

theorem releaseReplayed_tidy (now : e.Tidy) : e.releaseReplayed.Tidy := by
  unfold releaseReplayed
  split
  · split
    · exact Tidy.releaseCceLock (e := { e with dirty := .nonExistent, forwardEntry := none })
        (now.congr rfl rfl id) _ _
    · exact now
  · exact now

/-- The structure that is made for a log record is empty, unless a fetch is started. -/
theorem prepareReplay_tidy (now : e.Tidy) (there : e.keyLock ≠ none) (ctx : RequestContext V)
    (c : TxnCmd V) : (e.prepareReplay ctx c).Tidy := by
  obtain ⟨lock, found⟩ := Option.ne_none_iff_exists'.mp there
  simp only [prepareReplay]
  split
  · exact ((acquireFetchIntent_locked ctx.fetchTxn).congr rfl).tidy
  · have same : e.getOrCreateKeyLock = lock := by rw [getOrCreateKeyLock, found, Option.getD_some]
    rw [same]
    exact now.congr (e := e) found.symm rfl id

theorem executeReplayLogCc_tidy {c : TxnCmd V} (now : e.Tidy)
    (newer : e.keyLock = none → e.commitTs < c.newVersion) :
    EntryEffect.Leaves Tidy (e.executeReplayLogCc ctx c) := by
  have entry := prepareReplay_toObjectCce (e := e) ctx c
  simp only [executeReplayLogCc]
  split
  · exact .some (releaseReplayed_tidy (tidy_unless_buffered rfl))
  · rename_i stale
    rw [entry] at stale
    exact .some (prepareReplay_tidy now (fun nothing => stale (newer nothing)) ctx c)

theorem executeBackFill_tidy (now : e.Tidy) (commitTs : Nat) (status : RecordStatus)
    (record : Option V) : EntryEffect.Leaves Tidy (e.executeBackFill ctx commitTs status record) := by
  have released := now.releaseCceLock ctx.fetchTxn .readIntent
  simp only [executeBackFill]
  split
  · exact .some now
  · split
    · split
      · rintro _ ⟨⟩
      · exact .some released
    · split
      · refine .some ?_
        split
        · exact recycleKeyLock_tidy
        · rename_i stays
          refine released.congr rfl rfl ?_
          intro nothing
          by_contra waiting
          exact stays ⟨waiting, nothing⟩
      · exact .some released

end

end ObjectCcEntry

open ObjectCcEntry

/-- A discarded log record finds a lock structure; a batch does not commit the only thing that is in
one; a commit does not find exactly one blocked command. -/
def EntryVisit.Recycles (e : ObjectCcEntry V) : EntryVisit V → Prop
  | applyCc _ r _ => r.applyAndCommit = true → r.isReadOnly = false → e.queueBlockCmds.length ≠ 1
  | postWriteCc _ txn _ => e.ownsWriteLock txn = true → e.queueBlockCmds.length ≠ 1
  | uploadBatchCc row => e.commitTs < row.commitTs → e.bufferedCmds = [] ∨ e.HeldOtherwise
  | replayLogCc _ c => e.keyLock = none → e.commitTs < c.newVersion
  | _ => True

theorem ObjectCcEntry.visit_tidy {e : ObjectCcEntry V} {visit : EntryVisit V} (now : e.Tidy)
    (enabled : visit.Enabled e) (recycles : visit.Recycles e) :
    EntryEffect.Leaves Tidy (visit.exec e) := by
  cases visit with
  | applyCc ctx r blockType => exact executeApplyCc_tidy recycles now blockType enabled
  | postWriteCc ctx txn commitTs => exact executePostWriteCc_tidy now recycles
  | uploadTxCommandsCc txn c => exact executeUploadTxCommandsCc_tidy now txn c
  | standbyForwardCc ctx m => exact executeStandbyForwardCc_tidy now m
  | uploadBatchCc row => exact executeUploadBatchCc_tidy now recycles
  | replayLogCc ctx c => exact executeReplayLogCc_tidy now recycles
  | backFill ctx commitTs status record => exact executeBackFill_tidy now commitTs status record
  | clean => rintro _ ⟨⟩

namespace ObjectShard

variable {T : Type w} {K : Type v} [DecidableEq T] [DecidableEq K]

theorem reached_tidy {s : ObjectShard T K V} (h : Reached EntryVisit.Recycles s) :
    ∀ x ∈ s.entries.keys, (s.entries.record x).Tidy := by
  refine Reached.invariant (I := fun s => ∀ x ∈ s.entries.keys, (s.entries.record x).Tidy) h ?_ ?_
  · intro x hx
    cases hx
  · intro s x visit now enabled recycles
    have found : (s.find x).Tidy := FiniteTable.find_of_forall now Tidy.initial
    exact FiniteTable.forall_set now (visit_tidy found enabled recycles)

/-- Between requests every lock structure has something in it, and an entry with nothing pending is
free as soon as it has been flushed. -/
theorem lock_structures_hold_something {s : ObjectShard T K V} (h : Reached EntryVisit.Recycles s)
    {x : T × K} (there : x ∈ s.entries.keys) :
    (s.entries.record x).Tidy ∧
      ((s.entries.record x).Idle → (s.entries.record x).isFree true = true) := by
  have tidy := reached_tidy h x there
  exact ⟨tidy, fun idle => idle.isFree tidy⟩

/-- A log record waits for its record, and is committed when the record arrives. -/
theorem lock_structures_hold_something_fetched :
    let cmd : TxCommand Nat := ⟨false, 0, fun v => some (v + 1)⟩
    let ctx : RequestContext Nat :=
      ⟨fun _ => none, 0, 3, 1, 9, false, false, false, false, true, false, false⟩
    let replay : ObjectRequest Unit Nat Nat := .replayLogCc () ctx 5 [⟨1, true, false, 4, false, [cmd]⟩]
    let fetched : ObjectRequest Unit Nat Nat := .backFill () 1 ctx 4 .normal (some 20)
    let waiting := initial.exec replay
    let e := (waiting.exec fetched).entries.record ((), 1)
    ((waiting.entries.record ((), 1)).keyLock.isSome = true ∧ e.commitTs = 5 ∧ e.keyLock = none) ∧
      e.Tidy ∧ (e.Idle → e.isFree true = true) := by
  intro cmd ctx replay fetched waiting e
  have replayed : Reached EntryVisit.Recycles waiting :=
    Reached.start.next replay
      rfl (.inr ⟨rfl, rfl⟩) trivial (fun _ => Nat.succ_pos 4)
  have reached : Reached EntryVisit.Recycles (waiting.exec fetched) :=
    replayed.next fetched rfl (.inl (by decide +kernel)) trivial trivial
  exact ⟨⟨by decide +kernel, by decide +kernel, by decide +kernel⟩,
    lock_structures_hold_something reached (by decide +kernel)⟩

/-- A log record that is older than the object leaves a lock structure with nothing in it, and the
entry is not free. -/
theorem stale_log_record_leaves_lock :
    let cmd : TxCommand Nat := ⟨false, 0, fun v => some (v + 1)⟩
    let ctx : RequestContext Nat :=
      ⟨fun _ => none, 0, 3, 1, 9, false, false, false, false, true, false, false⟩
    let upload : ObjectRequest Unit Nat Nat := .uploadBatchCc () [⟨1, true, false, ⟨4, .normal, 20⟩⟩]
    let replay : ObjectRequest Unit Nat Nat := .replayLogCc () ctx 3 [⟨1, true, false, 2, false, [cmd]⟩]
    let s := (initial.exec upload).exec replay
    let e := s.entries.record ((), 1)
    Reached (fun _ _ => True) s ∧ ((), 1) ∈ s.entries.keys ∧ e.keyLock = some .reset ∧
      (e.dirty.isNonExistent = true ∧ e.queueBlockCmds.isEmpty = true ∧
        e.bufferedCmds.isEmpty = true) ∧
      e.isFree true = false := by
  intro cmd ctx upload replay s e
  have uploaded : Reached (fun _ _ => True) (initial.exec upload) :=
    Reached.start.next upload rfl (.inr ⟨rfl, rfl⟩) trivial trivial
  have replayed : Reached (fun _ _ => True) s :=
    uploaded.next replay rfl (.inr ⟨rfl, rfl⟩) trivial trivial
  exact ⟨replayed, by decide +kernel, by decide +kernel,
    ⟨by decide +kernel, by decide +kernel, by decide +kernel⟩, by decide +kernel⟩

end ObjectShard

end TxService
