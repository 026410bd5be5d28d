import TxService.HousedCommands
import TxService.ObjectTally

/-!
# The number of buffered commands

Requests adjust the shard's count by the list's length before and after; a commit of a
transaction's own object clears the list without adjusting it.
-/

namespace TxService

universe u v w

variable {V : Type u}

namespace Tally

open ObjectCcEntry

/-- An entry weighs the commands in its list. -/
def buffered : Tally V where
  weight e := e.bufferedCmds.length
  change := EntryEffect.bufferedCmdCnt
  change_keep _ := rfl
  change_bind c f next left := by rw [EntryEffect.bind, left]

section
variable {e f : ObjectCcEntry V} {ctx : RequestContext V} {r : ApplyCc V} {m : Int}

theorem buffered_same (same : f.bufferedCmds = e.bufferedCmds) : buffered.Exact e ⟨some f, m, 0⟩ := by
  simp only [Exact, buffered, Option.elim_some, same, Int.add_zero]

theorem buffered_removed (empty : e.bufferedCmds = []) : buffered.Exact e ⟨.none, m, 0⟩ := by
  simp [Exact, buffered, empty]

theorem bufferedCmds_of_isFree {persistent : Bool} (housed : e.Housed)
    (free : e.isFree persistent = true) : e.bufferedCmds = [] :=
  housed (Option.isNone_iff_eq_none.mp (Bool.and_eq_true_iff.mp free).1)

/-- The lengths before and after are those of the lists the request finds and leaves. -/
theorem buffered_difference {before after : List (TxnCmd V)} (found : before = e.bufferedCmds)
    (left : f.bufferedCmds = after) :
    buffered.Exact e ⟨some f, m, after.length - before.length⟩ := by
  simp only [Exact, buffered, Option.elim_some, found, left]
  omega

theorem buffered_lockedOutcome {c : EntryEffect V} (quiet : r.applyAndCommit = true → e.bufferedCmds = [])
    (h : LockedOutcome r e c) : buffered.Exact e c := by
  cases h with
  | held dirty => exact buffered_same (by rw [dirty.entry])
  | unlocked dirty => exact buffered_same (by rw [releaseCceLock_toObjectEntry, dirty.entry])
  | blocked b dirty =>
    exact buffered_same
      (by rw [releaseCceLock_toObjectEntry, pushBlockRequest_toObjectCce, dirty.entry])
  | retired _ cmds => exact buffered_same (by rw [releaseCceLock_toObjectEntry, cmds])
  | committed commit cleared =>
    refine buffered_same ?_
    rw [popBlockRequest_toObjectCce, releaseCceLock_toObjectEntry, cleared, quiet commit]

theorem buffered_dropExpiredCommands : buffered.Exact e e.dropExpiredCommands := by
  obtain ⟨kept, _⟩ | dropped := dropExpiredCommands_cases (e := e)
  · rw [kept]
    exact .keep rfl
  · rw [dropped]
    simp only [Exact, buffered, Option.elim_some, recycleKeyLock_toObjectEntry, List.length_nil]
    omega

theorem buffered_executeApplyCc {blockType : ApplyBlockType}
    (h : (r.applyAndCommit = true → r.isReadOnly = false → e.bufferedCmds = []) ∨
      blockType = .noBlocking ∧ e.payloadStatus = .deleted ∧ e.commitTs = 1) :
    buffered.Exact e (e.executeApplyCc ctx r blockType) := by
  refine executeApplyCc_exact
    (Q := fun cmds => r.applyAndCommit = true → r.isReadOnly = false → cmds = []) ?_ ?_ ?_ ?_ _ h
  · intro writes f c quiet outcome
    exact buffered_lockedOutcome (fun commit => quiet commit writes) outcome
  · intro f _
    simp only [buffered, ObjectEntry.setCommitTsPayloadStatus_bufferedCmds]
  · exact fun _ => buffered_dropExpiredCommands
  · exact fun _ _ => rfl

theorem executePostWriteCc_bufferedCmds {f : ObjectCce V} {commitTs : Nat}
    (h : 0 < commitTs → f.bufferedCmds = []) :
    (f.executePostWriteCc commitTs).1.bufferedCmds = f.bufferedCmds := by
  unfold ObjectCce.executePostWriteCc
  split
  · rename_i commits
    rw [h commits]
    cases f.dirty <;> simp [ObjectCce.commit]
  · rfl

theorem buffered_executePostWriteCc {txn : TxNumber} {commitTs : Nat}
    (h : e.ownsWriteLock txn = true → 0 < commitTs → e.bufferedCmds = []) :
    buffered.Exact e (e.executePostWriteCc ctx txn commitTs) := by
  simp only [executePostWriteCc]
  split
  · rename_i owner
    have cmds := executePostWriteCc_bufferedCmds (h owner)
    split
    · rename_i free
      have committed : Housed { e with toObjectCce := (e.toObjectCce.executePostWriteCc commitTs).1 } :=
        .of_lock (ownsWriteLock_isSome owner)
      have housed := (committed.releaseCceLock txn .writeLock).of_entry
        (f := ObjectCcEntry.popBlockRequest _) rfl rfl
      have empty := bufferedCmds_of_isFree housed free.2
      rw [popBlockRequest_toObjectCce, releaseCceLock_toObjectEntry, cmds] at empty
      exact buffered_removed empty
    · exact buffered_same (by rw [popBlockRequest_toObjectCce, releaseCceLock_toObjectEntry, cmds])
  · exact .keep rfl

theorem buffered_executeUploadTxCommandsCc (txn : TxNumber) (c : TxnCmd V) :
    buffered.Exact e (e.executeUploadTxCommandsCc txn c) := by
  simp only [executeUploadTxCommandsCc]
  split
  · exact buffered_difference rfl (by rw [releaseCceLock_toObjectEntry])
  · exact .keep rfl

theorem prepareForward_bufferedCmds (ctx : RequestContext V) (m : ForwardRequest V) :
    (e.prepareForward ctx m).bufferedCmds = e.bufferedCmds := by
  simp only [prepareForward]
  split
  · split
    · exact ObjectEntry.setCommitTsPayloadStatus_bufferedCmds _ _ _
    · split <;> rfl
  · rfl

theorem buffered_executeStandbyForwardCc (m : ForwardRequest V) :
    buffered.Exact e (e.executeStandbyForwardCc ctx m) := by
  have cmds := prepareForward_bufferedCmds (e := e) ctx m
  simp only [executeStandbyForwardCc]
  split
  · exact .keep rfl
  · split
    · exact buffered_same (by rw [ObjectEntry.setCommitTsPayloadStatus_bufferedCmds, cmds])
    · refine buffered_difference cmds ?_
      split
      · rw [recycleKeyLock_toObjectEntry]
      · rfl

theorem buffered_executeUploadBatchCc (row : UploadRecord V) :
    buffered.Exact e (e.executeUploadBatchCc row) := by
  simp only [executeUploadBatchCc]
  split
  · exact .keep rfl
  · exact buffered_difference rfl rfl

theorem buffered_executeReplayLogCc (c : TxnCmd V) :
    buffered.Exact e (e.executeReplayLogCc ctx c) := by
  have entry := prepareReplay_toObjectCce (e := e) ctx c
  simp only [executeReplayLogCc]
  split
  · refine buffered_difference (by rw [entry]) ?_
    rw [releaseReplayed_toObjectEntry]
    split
    · rw [recycleKeyLock_toObjectEntry]
    · rfl
  · exact buffered_same (by rw [entry])

theorem buffered_executeBackFill (housed : e.Housed) (commitTs : Nat) (status : RecordStatus)
    (record : Option V) : buffered.Exact e (e.executeBackFill ctx commitTs status record) := by
  have released := housed.releaseCceLock ctx.fetchTxn .readIntent
  simp only [executeBackFill]
  split
  · exact .keep rfl
  · split
    · split
      · rename_i free
        have empty := bufferedCmds_of_isFree released free
        rw [releaseCceLock_toObjectEntry] at empty
        exact buffered_removed empty
      · exact .keep (by rw [releaseCceLock_toObjectEntry])
    · split
      · refine buffered_difference (by rw [releaseCceLock_toObjectEntry]) ?_
        split
        · rw [recycleKeyLock_toObjectEntry]
        · rfl
      · exact .keep (by rw [releaseCceLock_toObjectEntry])

theorem buffered_clean (housed : e.Housed) : buffered.Exact e e.clean := by
  simp only [Exact, clean, buffered, Option.elim_none]
  split
  · omega
  · rename_i free
    have empty := housed (by simpa using free)
    simp [empty]

end

end Tally

open ObjectCcEntry Tally

/-- No transaction commits its own object where commands are buffered, unless they are dropped
first because the record has expired in the store. -/
def EntryVisit.CountsBuffered (e : ObjectCcEntry V) : EntryVisit V → Prop
  | applyCc _ r blockType =>
    (r.applyAndCommit = true → r.isReadOnly = false → e.bufferedCmds = []) ∨
      blockType = .noBlocking ∧ e.payloadStatus = .deleted ∧ e.commitTs = 1
  | postWriteCc _ txn commitTs => e.ownsWriteLock txn = true → 0 < commitTs → e.bufferedCmds = []
  | _ => True

theorem Tally.buffered_visit {e : ObjectCcEntry V} {visit : EntryVisit V} (housed : e.Housed)
    (counts : visit.CountsBuffered e) : buffered.Exact e (visit.exec e) := by
  cases visit with
  | applyCc ctx r blockType => exact buffered_executeApplyCc counts
  | postWriteCc ctx txn commitTs => exact buffered_executePostWriteCc counts
  | uploadTxCommandsCc txn c => exact buffered_executeUploadTxCommandsCc txn c
  | standbyForwardCc ctx m => exact buffered_executeStandbyForwardCc m
  | uploadBatchCc row => exact buffered_executeUploadBatchCc row
  | replayLogCc ctx c => exact buffered_executeReplayLogCc c
  | backFill ctx commitTs status record => exact buffered_executeBackFill housed commitTs status record
  | clean => exact buffered_clean housed

namespace ObjectShard

variable {T : Type w} {K : Type v} [DecidableEq T] [DecidableEq K]

theorem buffered_total {s : ObjectShard T K V} (h : Reached EntryVisit.CountsBuffered s) :
    (∀ x ∈ s.entries.keys, (s.entries.record x).Housed) ∧
      s.bufferedCmdCnt = s.entries.total (buffered.weightAt fun _ => true) := by
  refine Reached.invariant (I := fun s => (∀ x ∈ s.entries.keys, (s.entries.record x).Housed) ∧
    s.bufferedCmdCnt = s.entries.total _) h ⟨?_, rfl⟩ ?_
  · intro x hx
    cases hx
  · rintro s x visit ⟨housed, now⟩ _ counts
    have found : (s.find x).Housed := FiniteTable.find_of_forall housed Housed.initial
    refine ⟨FiniteTable.forall_set housed (houses_visit found visit), ?_⟩
    rw [total_update rfl (buffered_visit found counts), ← now]
    rfl

/-- The shard's counter is the number of commands in all the lists, after every sequence of
requests. -/
theorem bufferedCmdCnt_eq_sum {s : ObjectShard T K V} (h : Reached EntryVisit.CountsBuffered s) :
    s.bufferedCmdCnt = ∑ x ∈ s.entries.keys, ((s.entries.record x).bufferedCmds.length : Int) := by
  rw [(buffered_total h).2]
  rfl

/-- A log record waits for its record at one key; at another an object is made and committed at
once. -/
theorem bufferedCmdCnt_eq_sum_waiting :
    let cmd : ObjectCommand Nat :=
      ⟨⟨true, 0, fun v => some (v + 1)⟩, false, true, true, false, fun _ => .write, by simp⟩
    let ctx : RequestContext Nat :=
      ⟨fun _ => none, 0, 3, 1, 9, false, false, false, false, true, false, false⟩
    let r : ApplyCc Nat :=
      ⟨⟨1, 0⟩, cmd, false, true, false, true, fun _ => false, .readCommitted, .locking⟩
    let replay : ObjectRequest Unit Nat Nat :=
      .replayLogCc () ctx 5 [⟨1, true, false, 4, false, [cmd.toTxCommand]⟩]
    let apply : ObjectRequest Unit Nat Nat := .applyCc () 2 ctx r .noBlocking
    let s := (initial.exec apply).exec replay
    s.bufferedCmdCnt = 1 ∧
      ∑ x ∈ s.entries.keys, ((s.entries.record x).bufferedCmds.length : Int) = 1 := by
  intro cmd ctx r replay apply s
  have applied : Reached EntryVisit.CountsBuffered (initial.exec apply) :=
    Reached.start.next apply
      rfl (.inr ⟨rfl, rfl⟩) EntryVisit.enabled_noBlocking (.inl fun _ _ => rfl)
  have replayed : Reached EntryVisit.CountsBuffered s :=
    applied.next replay rfl (.inr ⟨rfl, rfl⟩) trivial trivial
  have counter : s.bufferedCmdCnt = 1 := by decide +kernel
  have counted := bufferedCmdCnt_eq_sum replayed
  rw [counter] at counted
  exact ⟨counter, counted.symm⟩

/-- A log record waits for a record whose fetch fails, and a command that overrides the record is
committed: the list is cleared and still counted. -/
theorem cleared_command_stays_counted :
    let cmd : ObjectCommand Nat :=
      ⟨⟨true, 0, fun v => some (v + 1)⟩, false, true, true, false, fun _ => .write, by simp⟩
    let ctx : RequestContext Nat :=
      ⟨fun _ => none, 0, 3, 1, 9, false, false, false, false, true, false, false⟩
    let r : ApplyCc Nat :=
      ⟨⟨1, 0⟩, cmd, false, true, false, true, fun _ => false, .readCommitted, .locking⟩
    let replay : ObjectRequest Unit Nat Nat :=
      .replayLogCc () ctx 5 [⟨1, true, false, 4, false, [cmd.toTxCommand]⟩]
    let failed : ObjectRequest Unit Nat Nat := .backFill () 1 ctx 1 .unknown none
    let apply : ObjectRequest Unit Nat Nat := .applyCc () 1 ctx r .noBlocking
    let s := ((initial.exec replay).exec failed).exec apply
    Reached (fun _ _ => True) s ∧ s.bufferedCmdCnt = 1 ∧
      ∑ x ∈ s.entries.keys, ((s.entries.record x).bufferedCmds.length : Int) = 0 := by
  intro cmd ctx r replay failed apply s
  have replayed : Reached (fun _ _ => True) (initial.exec replay) :=
    Reached.start.next replay rfl (.inr ⟨rfl, rfl⟩) trivial trivial
  have fetched := replayed.next failed
    rfl (.inl (by decide +kernel)) trivial trivial
  have applied : Reached (fun _ _ => True) s :=
    fetched.next apply rfl (.inr ⟨rfl, rfl⟩) EntryVisit.enabled_noBlocking trivial
  exact ⟨applied, by decide +kernel, by decide +kernel⟩

end ObjectShard

end TxService
