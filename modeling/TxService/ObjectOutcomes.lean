import TxService.ObjectShard

/-!
# What an ApplyCc leaves at its entry

What the counters and the lock structure depend on is read off the exits of `Execute(ApplyCc)`.
-/

namespace TxService

universe u

variable {V : Type u}

namespace EntryEffect

/-- What holds of the entry that a request leaves, if it leaves one. -/
def Leaves (I : ObjectCcEntry V → Prop) (c : EntryEffect V) : Prop := ∀ f, c.cce = some f → I f

variable {I : ObjectCcEntry V → Prop}

theorem Leaves.some {f : ObjectCcEntry V} {m n : Int} (h : I f) : Leaves I ⟨.some f, m, n⟩ := by
  rintro _ ⟨⟩
  exact h

theorem Leaves.bind {J : ObjectCcEntry V → Prop} {c : EntryEffect V} {next : ObjectCcEntry V → EntryEffect V}
    (h : Leaves J c) (later : ∀ f, J f → Leaves I (next f)) : Leaves I (c.bind next) := by
  intro g reached
  cases left : c.cce with
  | none =>
    rw [EntryEffect.bind, left] at reached
    simp only [left] at reached
    cases reached
  | some f =>
    rw [EntryEffect.bind, left] at reached
    exact later f (h f left) g reached

end EntryEffect

namespace ObjectCcEntry

section
variable {e : ObjectCcEntry V} {r : ApplyCc V}

@[simp] theorem recycleKeyLock_toObjectEntry : e.recycleKeyLock.toObjectEntry = e.toObjectEntry := by
  unfold recycleKeyLock
  split
  · split <;> rfl
  · rfl

@[simp] theorem setKeyLock_toObjectCce (lock : NonBlockingLock) :
    (e.setKeyLock lock).toObjectCce = e.toObjectCce := rfl

@[simp] theorem releaseCceLock_toObjectEntry (txn : TxNumber) (lkType : LockType) :
    (e.releaseCceLock txn lkType).toObjectEntry = e.toObjectEntry := by
  simp only [releaseCceLock]
  split
  · split
    · rfl
    · rw [recycleKeyLock_toObjectEntry, setKeyLock_toObjectCce]
  · rfl

@[simp] theorem pushBlockRequest_toObjectCce (b : BlockedCmd V) :
    (e.pushBlockRequest b).toObjectCce = e.toObjectCce := by
  unfold pushBlockRequest
  split <;> rfl

@[simp] theorem popBlockRequest_toObjectCce : e.popBlockRequest.toObjectCce = e.toObjectCce := rfl

theorem acquireCceKeyLock_toObjectCce (ccOp : CcOperation) :
    (e.acquireCceKeyLock r ccOp).2.2.toObjectCce = e.toObjectCce := by
  simp only [acquireCceKeyLock]
  split
  · rfl
  · split <;> rfl

theorem prepareReplay_toObjectCce (ctx : RequestContext V) (c : TxnCmd V) :
    (e.prepareReplay ctx c).toObjectCce = e.toObjectCce := by
  simp only [prepareReplay]
  split <;> rfl

@[simp] theorem releaseReplayed_toObjectEntry : e.releaseReplayed.toObjectEntry = e.toObjectEntry := by
  unfold releaseReplayed
  split
  · split
    · exact releaseCceLock_toObjectEntry _ _
    · rfl
  · rfl

theorem lockHandle_toObjectEntry (ccOp : CcOperation) :
    (e.lockHandleForResumedRequest r ccOp).2.2.toObjectEntry = e.toObjectEntry := by
  simp only [lockHandleForResumedRequest]
  split
  · rw [recycleKeyLock_toObjectEntry, setKeyLock_toObjectCce]
  · rfl

end

section
variable {f : ObjectCce V} {cmd : ObjectCommand V} {applyAndCommit : Bool}

theorem execute_eq_execResult (expired : Bool) (clock : Nat) :
    f.execute cmd applyAndCommit expired clock =
      if f.execResult cmd = .write then (f.changed cmd).applied applyAndCommit expired clock
      else f.leave (f.execResult cmd) applyAndCommit expired := by
  unfold ObjectCce.execute ObjectCce.execResult ObjectCce.changed
  cases f.dirty with
  | normal v => cases result : cmd.executeOn v <;> simp [result]
  | nonExistent | uncreated | deleted =>
    by_cases exists' : f.payloadStatus = .normal
    · rw [exists']
      cases f.curPayload with
      | none => rfl
      | some v => cases result : cmd.executeOn v <;> simp [result]
    · cases status : f.payloadStatus <;> first | exact absurd status exists' | rfl

theorem leave_toObjectEntry (result : ExecResult) (expired : Bool) :
    (f.leave result applyAndCommit expired).cce.toObjectEntry = f.toObjectEntry := by
  unfold ObjectCce.leave
  split
  · rfl
  · split <;> rfl

theorem execute_toObjectEntry (expired : Bool) (clock : Nat)
    (uncommitted : applyAndCommit = false ∨ f.execResult cmd ≠ .write) :
    (f.execute cmd applyAndCommit expired clock).cce.toObjectEntry = f.toObjectEntry := by
  rw [execute_eq_execResult]
  split
  · rename_i write
    rw [uncommitted.resolve_right (fun quiet => quiet write)]
    exact ObjectCce.changed_toObjectEntry
  · exact leave_toObjectEntry _ _

end

/-- Only what the transaction has not committed differs, and the message to the standbys. -/
structure OnlyDirty (e left : ObjectCcEntry V) : Prop where
  entry : left.toObjectEntry = e.toObjectEntry
  keyLock : left.keyLock = e.keyLock
  queue : left.queueBlockCmds = e.queueBlockCmds

theorem OnlyDirty.refl (e : ObjectCcEntry V) : OnlyDirty e e := ⟨rfl, rfl, rfl⟩

theorem OnlyDirty.trans {e f left : ObjectCcEntry V} (h : OnlyDirty e f) (h' : OnlyDirty f left) :
    OnlyDirty e left :=
  ⟨h'.entry.trans h.entry, h'.keyLock.trans h.keyLock, h'.queue.trans h.queue⟩

/-- A command under the write lock. -/
inductive LockedOutcome (r : ApplyCc V) (e : ObjectCcEntry V) : EntryEffect V → Prop
  | held {left : ObjectCcEntry V} : OnlyDirty e left → LockedOutcome r e (.keep left)
  | unlocked {left : ObjectCcEntry V} : OnlyDirty e left →
      LockedOutcome r e (.keep (left.releaseCceLock r.req.txn .writeLock))
  | blocked {left : ObjectCcEntry V} (b : BlockedCmd V) : OnlyDirty e left →
      LockedOutcome r e (.keep ((left.pushBlockRequest b).releaseCceLock r.req.txn .writeLock))
  | retired {left : ObjectCcEntry V} : left.payloadStatus = .deleted →
      left.bufferedCmds = e.bufferedCmds → left.keyLock = e.keyLock →
      left.queueBlockCmds = e.queueBlockCmds →
      LockedOutcome r e ⟨some (left.releaseCceLock r.req.txn .writeLock),
        objSzChange e.payloadStatus .deleted, 0⟩
  | committed {left : ObjectCcEntry V} : r.applyAndCommit = true → left.bufferedCmds = [] →
      left.keyLock = e.keyLock → left.queueBlockCmds = e.queueBlockCmds →
      LockedOutcome r e ⟨some (left.releaseCceLock r.req.txn .writeLock).popBlockRequest,
        objSzChange e.payloadStatus left.payloadStatus, 0⟩

section
variable {ctx : RequestContext V} {r : ApplyCc V} {e : ObjectCcEntry V} {f : ObjectCce V}

/-- An object that has expired is deleted, at once or in the transaction's own state. -/
theorem retire_entry (clock : Nat) :
    (f.retire true clock).cce.payloadStatus = .deleted ∧
      (f.retire true clock).cce.bufferedCmds = f.bufferedCmds ∧
      (f.retire false clock).cce.toObjectEntry = f.toObjectEntry := by
  have newer : f.commitTs < { f with dirty := .deleted }.applyTs clock :=
    ObjectCce.lt_applyTs (e := { f with dirty := .deleted })
  exact ⟨by simp [ObjectCce.retire, ObjectEntry.setCommitTsPayloadStatus, newer],
    by simp [ObjectCce.retire], rfl⟩

theorem execute_bufferedCmds {cmd : ObjectCommand V} (expired : Bool) (clock : Nat)
    (write : f.execResult cmd = .write) :
    (f.execute cmd true expired clock).cce.bufferedCmds = [] := by
  have later : 0 < (f.changed cmd).applyTs clock :=
    Nat.lt_of_le_of_lt (Nat.zero_le _) ObjectCce.lt_applyTs
  rw [execute_eq_execResult, if_pos write]
  simp only [ObjectCce.applied, ↓reduceIte, ObjectCce.executePostWriteCc, later]
  cases (f.changed cmd).dirty <;> simp [ObjectCce.commit]

theorem objSzChange_self (status : RecordStatus) : objSzChange status status = 0 := by
  unfold objSzChange
  split
  · rename_i both
    exact absurd both.1 both.2
  · split
    · rename_i both
      exact absurd both.2 both.1
    · rfl

theorem objSzChange_deleted (status : RecordStatus) :
    objSzChange status .deleted = if status = .normal then -1 else 0 := by
  cases status <;> rfl

theorem afterExecution_outcome {left : ObjectCcEntry V} {result : ExecResult}
    (lock : left.keyLock = e.keyLock) (queue : left.queueBlockCmds = e.queueBlockCmds)
    (quiet : r.applyAndCommit = false ∨ result ≠ .write → left.toObjectEntry = e.toObjectEntry)
    (cleared : r.applyAndCommit = true → result = .write → left.bufferedCmds = []) :
    LockedOutcome r e (afterExecution r e left result) := by
  have dirty (uncommitted : r.applyAndCommit = false ∨ result ≠ .write) : OnlyDirty e left :=
    ⟨quiet uncommitted, lock, queue⟩
  have same (silent : result ≠ .write) :
      objSzChange e.payloadStatus (left.releaseCceLock r.req.txn .writeLock).payloadStatus = 0 := by
    rw [releaseCceLock_toObjectEntry, quiet (.inr silent), objSzChange_self]
  cases commit : r.applyAndCommit with
  | false =>
    cases result with
    | block => exact .blocked _ (dirty (.inl commit))
    | unlock => exact .unlocked (dirty (.inl commit))
    | fail | read | write =>
      simp only [afterExecution, commit, Bool.false_eq_true, ↓reduceIte]
      exact .held (dirty (.inl commit))
  | true =>
    cases result with
    | block => exact .blocked _ (dirty (.inr (by decide)))
    | unlock => exact .unlocked (dirty (.inr (by decide)))
    | fail | read =>
      simp only [afterExecution, commit, reduceCtorEq, ↓reduceIte, same (by decide)]
      exact .unlocked (dirty (.inr (by decide)))
    | write =>
      simp only [afterExecution, commit, ↓reduceIte, popBlockRequest_toObjectCce,
        releaseCceLock_toObjectEntry]
      exact .committed commit (cleared commit rfl) lock queue

theorem executeLocked_outcome (expired : Bool) :
    LockedOutcome r e (e.executeLocked ctx r expired) := by
  simp only [executeLocked]
  split
  · obtain ⟨deleted, cmds, uncommitted⟩ :=
      retire_entry (f := e.toObjectCce.setForwardEntry ctx.subscribed) ctx.clock
    cases commit : r.applyAndCommit with
    | true =>
      rw [if_pos rfl, ← objSzChange_deleted]
      refine .retired deleted ?_ rfl rfl
      rw [cmds, ObjectCce.setForwardEntry_toObjectEntry]
    | false => exact .held ⟨uncommitted.trans (ObjectCce.setForwardEntry_toObjectEntry _), rfl, rfl⟩
  · refine afterExecution_outcome rfl rfl ?_ ?_
    · intro uncommitted
      refine (execute_toObjectEntry expired ctx.clock uncommitted).trans ?_
      split
      · exact ObjectCce.setForwardEntry_toObjectEntry _
      · exact ObjectCce.setForwardEntry_toObjectEntry _
    · intro commit write
      simp only [commit]
      exact execute_bufferedCmds expired ctx.clock write

/-- What a request does with the lock it has been granted first. -/
inductive ProcessOutcome (r : ApplyCc V) (acquiredLock : LockType) (e : ObjectCcEntry V) :
    EntryEffect V → Prop
  | kept {left : ObjectCcEntry V} : OnlyDirty e left → ProcessOutcome r acquiredLock e (.keep left)
  | released {left : ObjectCcEntry V} : OnlyDirty e left →
      ProcessOutcome r acquiredLock e (.keep (left.releaseCceLock r.req.txn acquiredLock))
  | waits {left : ObjectCcEntry V} : OnlyDirty e left →
      ProcessOutcome r acquiredLock e (.keep (left.acquireCceKeyLock r .write).2.2)
  | locked {left : ObjectCcEntry V} {c : EntryEffect V} : r.isReadOnly = false →
      acquiredLock = .writeLock → OnlyDirty e left → LockedOutcome r left c →
      ProcessOutcome r acquiredLock e c
  | promoted {left : ObjectCcEntry V} {c : EntryEffect V} : r.isReadOnly = false → OnlyDirty e left →
      LockedOutcome r (left.acquireCceKeyLock r .write).2.2 c → ProcessOutcome r acquiredLock e c

theorem process_outcome (ccOp : CcOperation) (acquiredLock : LockType) (overrideKvVal : Bool) :
    ProcessOutcome r acquiredLock e (e.process ctx r ccOp acquiredLock overrideKvVal) := by
  simp only [process]
  generalize begun : (if overrideKvVal = true then { e with dirty := .deleted } else e) = f
  have first : OnlyDirty e f := by
    subst begun
    split
    · exact ⟨rfl, rfl, rfl⟩
    · exact .refl e
  split
  · exact .kept first
  · generalize made : (if f.checkDirtyStatus r ccOp = true then
      { f with toObjectCce := f.createDirtyPayloadFromPendingCommand } else f) = g
    have second : OnlyDirty e g := by
      refine first.trans ?_
      subst made
      split
      · exact ⟨ObjectCce.createDirty_toObjectEntry, rfl, rfl⟩
      · exact .refl f
    split
    · split
      · exact .released second
      · exact .kept second
    · rename_i writes
      have writes : r.isReadOnly = false := by simpa using writes
      split
      · rename_i lock
        exact .locked writes lock second (executeLocked_outcome _)
      · split
        · split
          · rename_i granted locked got
            have entry : (g.acquireCceKeyLock r .write).2.2 = locked := by rw [got]
            refine .promoted writes second ?_
            rw [entry]
            exact executeLocked_outcome _
          · rename_i status lock waiting _ got
            have entry : (g.acquireCceKeyLock r .write).2.2 = waiting := by rw [got]
            rw [← entry]
            exact .waits second
        · split
          · exact .released second
          · exact .kept second

/-- A record that is not fetched is the one there is, or is known to be missing. -/
theorem needFetchKv_some {ccOp : CcOperation} {found : ObjectCcEntry V} {overrideKvVal : Bool}
    (h : e.needFetchKv ctx r ccOp = some (found, overrideKvVal)) :
    found = e ∨ e.payloadStatus = .unknown ∧
      found = { e with toObjectEntry := e.setCommitTsPayloadStatus 1 .deleted } := by
  simp only [needFetchKv] at h
  split at h
  · rename_i unknown
    split at h
    · cases h
      exact .inr ⟨unknown.1, rfl⟩
    · split at h
      · cases h
        exact .inl rfl
      · cases h
  · cases h
    exact .inl rfl

theorem needFetchKv_kept {ccOp : CcOperation} {found : ObjectCcEntry V} {overrideKvVal : Bool}
    (h : e.needFetchKv ctx r ccOp = some (found, overrideKvVal)) :
    found.keyLock = e.keyLock ∧ found.queueBlockCmds = e.queueBlockCmds ∧
      found.bufferedCmds = e.bufferedCmds := by
  obtain rfl | ⟨_, rfl⟩ := needFetchKv_some h
  · exact ⟨rfl, rfl, rfl⟩
  · exact ⟨rfl, rfl, ObjectEntry.setCommitTsPayloadStatus_bufferedCmds _ _ _⟩

theorem dropExpiredCommands_cases :
    e.dropExpiredCommands = .keep e ∧
        ¬ (e.bufferedCmds ≠ [] ∧ e.payloadStatus = .deleted ∧ e.commitTs = 1) ∨
      e.dropExpiredCommands =
        ⟨some { e with bufferedCmds := [] }.recycleKeyLock, 0, -e.bufferedCmds.length⟩ := by
  simp only [dropExpiredCommands]
  split
  · exact .inr rfl
  · rename_i stays
    exact .inl ⟨rfl, stays⟩

end

end ObjectCcEntry

end TxService
