import TxService.ObjectOutcomes

/-!
# A counter beside the entries

Every entry weighs something, and a request adds to the counter what it changes.
-/

namespace TxService

universe u v w

/-- What an entry weighs, and the counter's part of a request's effect. -/
structure Tally (V : Type u) where
  weight : ObjectEntry V → Int
  change : EntryEffect V → Int
  change_keep : ∀ e, change (.keep e) = 0
  change_bind : ∀ (c : EntryEffect V) f (next : ObjectCcEntry V → EntryEffect V), c.cce = some f →
    change (c.bind next) = change c + change (next f)

namespace Tally

variable {V : Type u} {t : Tally V} {e f : ObjectCcEntry V} {c : EntryEffect V}

/-- The request adds to the counter what it changes at the entry. -/
def Exact (t : Tally V) (e : ObjectCcEntry V) (c : EntryEffect V) : Prop :=
  c.cce.elim 0 (fun f => t.weight f.toObjectEntry) = t.weight e.toObjectEntry + t.change c

theorem Exact.keep (same : t.weight f.toObjectEntry = t.weight e.toObjectEntry) :
    t.Exact e (.keep f) := by
  rw [Exact, t.change_keep, Int.add_zero]
  exact same

theorem Exact.of_weight (same : t.weight f.toObjectEntry = t.weight e.toObjectEntry)
    (h : t.Exact f c) : t.Exact e c := by
  rwa [Exact, ← same]

theorem Exact.bind {next : ObjectCcEntry V → EntryEffect V} (h : t.Exact e c)
    (later : ∀ f, c.cce = some f → t.Exact f (next f)) : t.Exact e (c.bind next) := by
  cases left : c.cce with
  | none => rwa [EntryEffect.bind, left]
  | some f =>
    have first : t.weight f.toObjectEntry = t.weight e.toObjectEntry + t.change c := by
      simpa only [Exact, left, Option.elim_some] using h
    have second := later f left
    have reached : (c.bind next).cce = (next f).cce := by rw [EntryEffect.bind, left]
    rw [Exact] at second ⊢
    rw [reached, second, t.change_bind c f next left, first, Int.add_assoc]

open ObjectCcEntry

variable {ctx : RequestContext V} {r : ApplyCc V} {Q : List (TxnCmd V) → Prop}

section
variable (locked : r.isReadOnly = false → ∀ f c, Q f.bufferedCmds → LockedOutcome r f c → t.Exact f c)
include locked

theorem exact_of_processOutcome {lock : LockType} (cmds : Q e.bufferedCmds)
    (h : ProcessOutcome r lock e c) : t.Exact e c := by
  cases h with
  | kept dirty => exact .keep (by rw [dirty.entry])
  | released dirty => exact .keep (by rw [releaseCceLock_toObjectEntry, dirty.entry])
  | waits dirty => exact .keep (by rw [acquireCceKeyLock_toObjectCce, dirty.entry])
  | locked writes _ dirty outcome =>
    rw [← dirty.entry] at cmds
    exact .of_weight (by rw [dirty.entry]) (locked writes _ _ cmds outcome)
  | @promoted left _ writes dirty outcome =>
    have entry : (left.acquireCceKeyLock r .write).2.2.toObjectEntry = e.toObjectEntry := by
      rw [acquireCceKeyLock_toObjectCce, dirty.entry]
    rw [← entry] at cmds
    exact .of_weight (by rw [entry]) (locked writes _ _ cmds outcome)

theorem acquireAndProcess_exact (cmds : Q e.bufferedCmds) (lockOp ccOp : CcOperation)
    (overrideKvVal : Bool) : t.Exact e (e.acquireAndProcess ctx r lockOp ccOp overrideKvVal) := by
  have entry := acquireCceKeyLock_toObjectCce (e := e) (r := r) lockOp
  simp only [acquireAndProcess]
  split
  · rename_i got
    rw [got] at entry
    rw [← entry] at cmds
    exact .of_weight (by rw [entry]) (exact_of_processOutcome locked cmds (process_outcome _ _ _))
  · rename_i got
    rw [got] at entry
    exact .keep (by rw [entry])

variable (missing : ∀ e : ObjectEntry V, e.payloadStatus = .unknown →
  t.weight (e.setCommitTsPayloadStatus 1 .deleted) = t.weight e)
include missing

omit locked in
theorem needFetchKv_weight {ccOp : CcOperation} {found : ObjectCcEntry V} {overrideKvVal : Bool}
    (h : e.needFetchKv ctx r ccOp = some (found, overrideKvVal)) :
    t.weight found.toObjectEntry = t.weight e.toObjectEntry ∧ found.bufferedCmds = e.bufferedCmds := by
  obtain rfl | ⟨unknown, rfl⟩ := needFetchKv_some h
  · exact ⟨rfl, rfl⟩
  · exact ⟨missing _ unknown, ObjectEntry.setCommitTsPayloadStatus_bufferedCmds _ _ _⟩

theorem resume_exact (cmds : Q e.bufferedCmds) (ccOp : CcOperation) :
    t.Exact e (e.resume ctx r ccOp) := by
  simp only [resume]
  split
  · exact .keep rfl
  · rename_i found overrideKvVal fetched
    obtain ⟨weight, same⟩ := needFetchKv_weight missing fetched
    rw [← same] at cmds
    have entry := lockHandle_toObjectEntry (e := found) (r := r) ccOp
    split
    · rename_i got
      rw [got] at entry
      rw [← entry] at cmds weight
      exact .of_weight weight (exact_of_processOutcome locked cmds (process_outcome _ _ _))
    · rename_i got
      rw [got] at entry
      exact .keep (by rw [entry, weight])

omit locked missing in
theorem dropExpiredCommands_cmds {ready : ObjectCcEntry V} (empty : Q [])
    (cmds : Q e.bufferedCmds ∨ e.payloadStatus = .deleted ∧ e.commitTs = 1)
    (h : e.dropExpiredCommands.cce = some ready) : Q ready.bufferedCmds := by
  obtain ⟨kept, stays⟩ | gone := dropExpiredCommands_cases (e := e)
  · rw [kept] at h
    cases h
    refine cmds.elim id ?_
    intro expired
    have empty : e.bufferedCmds = [] := by
      by_contra waiting
      exact stays ⟨waiting, expired⟩
    rwa [empty]
  · rw [gone] at h
    cases h
    rwa [recycleKeyLock_toObjectEntry]

/-- The whole request. Commands that still wait for a record that has expired do not count. -/
theorem executeApplyCc_exact (dropped : ∀ f, t.Exact f f.dropExpiredCommands) (empty : Q [])
    (blockType : ApplyBlockType)
    (cmds : Q e.bufferedCmds ∨
      blockType = .noBlocking ∧ e.payloadStatus = .deleted ∧ e.commitTs = 1) :
    t.Exact e (e.executeApplyCc ctx r blockType) := by
  cases blockType with
  | noBlocking =>
    simp only [executeApplyCc]
    split
    · exact .keep (by rw [recycleKeyLock_toObjectEntry]; rfl)
    · split
      · exact .keep rfl
      · rename_i found overrideKvVal fetched
        obtain ⟨weight, same⟩ := needFetchKv_weight missing fetched
        have here : Q found.bufferedCmds ∨ found.payloadStatus = .deleted ∧ found.commitTs = 1 := by
          refine cmds.imp (by rw [same]; exact id) ?_
          rintro ⟨_, expired⟩
          obtain rfl | ⟨unknown, _⟩ := needFetchKv_some fetched
          · exact expired
          · rw [unknown] at expired
            cases expired.1
        refine .of_weight weight (.bind (dropped found) ?_)
        intro ready left
        exact acquireAndProcess_exact locked (dropExpiredCommands_cmds empty here left) _ _ _
  | blockOnRead => exact resume_exact locked missing (cmds.resolve_right (by simp)) _
  | blockOnWriteLock => exact resume_exact locked missing (cmds.resolve_right (by simp)) _
  | blockOnFetch lockAcquired =>
    exact exact_of_processOutcome locked (cmds.resolve_right (by simp)) (process_outcome _ _ _)
  | blockOnCondition => exact acquireAndProcess_exact locked (cmds.resolve_right (by simp)) _ _ _

end

variable {T : Type w} {K : Type v} [DecidableEq T] [DecidableEq K]

/-- What an entry weighs, if its key is counted. -/
def weightAt (t : Tally V) (counted : T × K → Bool) (x : T × K) (e : ObjectCcEntry V) : Int :=
  if counted x then t.weight e.toObjectEntry else 0

theorem total_update {counted : T × K → Bool} {s : ObjectShard T K V} {x : T × K}
    (new : t.weight .initial = 0) (h : t.Exact (s.find x) c) :
    (s.update x c).entries.total (t.weightAt counted) =
      s.entries.total (t.weightAt counted) + if counted x then t.change c else 0 := by
  have nothing : t.weightAt counted x ObjectCcEntry.initial = 0 := by
    unfold weightAt
    split
    · exact new
    · rfl
  have set : (s.update x c).entries.total (t.weightAt counted) =
      s.entries.total (t.weightAt counted) - t.weightAt counted x (s.find x) +
        c.cce.elim 0 (t.weightAt counted x) :=
    FiniteTable.total_set nothing c.cce
  by_cases here : counted x = true
  · have after : c.cce.elim 0 (t.weightAt counted x) =
        c.cce.elim 0 fun f => t.weight f.toObjectEntry := by
      cases c.cce <;> simp [weightAt, here]
    rw [set, after, h, if_pos here, weightAt, if_pos here]
    omega
  · have after : c.cce.elim 0 (t.weightAt counted x) = 0 := by
      cases c.cce <;> simp [weightAt, here]
    rw [set, after, if_neg here, weightAt, if_neg here]
    omega

end Tally

end TxService
