import TxService.BufferedCommands

/-!
# Commands of a transaction on an object

What a transaction has not committed is a command still to be executed on the committed object, a
dirty copy of it, or the mark that the transaction deleted it.
-/

namespace TxService

universe u

inductive ExecResult
  | fail
  | read
  | write
  | block
  | unlock
  deriving DecidableEq, Repr

/-- A write command: on which objects it proceeds, and what executing it on one tells. -/
structure ObjectCommand (V : Type u) extends TxCommand V where
  isDelete : Bool
  proceedOnExistentObject : Bool
  proceedOnNonExistentObject : Bool
  willSetTTL : Bool
  executeOn : V → ExecResult
  deletes : isDelete = true → ∀ v, commitOn v = none

/-- Dirty payload, dirty payload status and pending command of an entry. -/
inductive Dirty (V : Type u)
  | nonExistent
  | uncreated (pendingCmd : ObjectCommand V)
  | normal (payload : V)
  | deleted

/-- `KeyObjectStandbyForwardRequest`, as far as the standby's entry depends on it. -/
structure ForwardRequest (V : Type u) where
  objectVersion : Nat := 0
  hasOverwrite : Bool := false
  cmdList : List (TxCommand V) := []
  commitTs : Nat := 0

/-- `AddTxCommand`. -/
def ForwardRequest.addTxCommand {V : Type u} (request : ForwardRequest V) (cmd : ObjectCommand V) :
    ForwardRequest V :=
  { request with
    cmdList := request.cmdList ++ [cmd.toTxCommand]
    hasOverwrite := request.hasOverwrite || cmd.isOverwrite }

structure ObjectCce (V : Type u) extends ObjectEntry V where
  dirty : Dirty V
  forwardEntry : Option (ForwardRequest V)

/-- What a request leaves: the entry, whether the transaction holds the write lock, what it
tells the transaction, and the message to the standbys. -/
structure Applied (V : Type u) where
  cce : ObjectCce V
  writeLock : Bool
  objectModified : Bool := false
  ttlExpired : Bool := false
  sent : Option (ForwardRequest V) := none

variable {V : Type u}

/-- The result of `CommitOn`: a null object is a deleted one. -/
def Dirty.ofCommit : Option V → Dirty V
  | none => .deleted
  | some v => .normal v

namespace ObjectCce

/-- The time to live is the dirty object's only if there is one already. -/
def ttl (ttlOf : V → Option Nat) (e : ObjectCce V) : Option Nat :=
  match e.dirty with
  | .normal v => ttlOf v
  | _ => e.curPayload.bind ttlOf

def ttlExpired (ttlOf : V → Option Nat) (now : Nat) (e : ObjectCce V) : Bool :=
  (e.ttl ttlOf).any fun t => t < now

def ttlReset (ttlOf : V → Option Nat) (cmd : ObjectCommand V) (now : Nat) (e : ObjectCce V) : Bool :=
  (e.ttl ttlOf).any (fun t => now ≤ t) && cmd.willSetTTL && !cmd.isOverwrite

def createDirtyPayloadFromPendingCommand (e : ObjectCce V) : ObjectCce V :=
  match e.dirty with
  | .uncreated cmd =>
    { e with
      dirty := if cmd.isDelete then .deleted else .ofCommit (e.curPayload.bind cmd.commitOn) }
  | _ => e

def objectNotExist (e : ObjectCce V) : Bool :=
  match e.dirty with
  | .deleted => true
  | .nonExistent => e.payloadStatus = .deleted
  | _ => false

def setForwardEntry (e : ObjectCce V) (subscribed : Bool) : ObjectCce V :=
  if subscribed then { e with forwardEntry := some (e.forwardEntry.getD {}) } else e

/-- The message names the version its commands are for. -/
def setObjectVersion (e : ObjectCce V) : ObjectCce V :=
  { e with forwardEntry := e.forwardEntry.map fun f => { f with objectVersion := e.commitTs } }

/-- An empty object for a command on a missing one. -/
def createDirtyPayloadFromCommand (e : ObjectCce V) (cmd : ObjectCommand V) : ObjectCce V :=
  { e.setObjectVersion with dirty := .normal cmd.createObject }

/-- A command that changes the object, and the dirty state it leaves. -/
def addTxCommand (e : ObjectCce V) (cmd : ObjectCommand V) (dirty : Dirty V) : ObjectCce V :=
  { e with dirty := dirty, forwardEntry := e.forwardEntry.map fun f => f.addTxCommand cmd }

/-- The dirty status is reset and the write lock released. -/
def discardDirty (e : ObjectCce V) : ObjectCce V := { e with dirty := .nonExistent }

/-- The object as the transaction sees it. -/
def view (e : ObjectCce V) : Option V :=
  match e.dirty with
  | .nonExistent => e.curPayload
  | .uncreated cmd => e.curPayload.bind cmd.commitOn
  | .normal v => some v
  | .deleted => none

/-- The committed payload is replaced and the message to the standbys sent. -/
def commit (e : ObjectCce V) (payload : Option V) (status : RecordStatus) (ts : Nat) :
    ObjectCce V × Option (ForwardRequest V) :=
  let entry := { e.toObjectEntry with curPayload := payload, bufferedCmds := [] }
  ({ toObjectEntry := entry.setCommitTsPayloadStatus ts status, dirty := .nonExistent,
     forwardEntry := none },
   e.forwardEntry.map fun f => { f with commitTs := ts })

/-- `Execute(PostWriteCc)` of the transaction that holds the write lock; 0 aborts. -/
def executePostWriteCc (e : ObjectCce V) (commitTs : Nat) : ObjectCce V × Option (ForwardRequest V) :=
  if 0 < commitTs then
    match e.dirty with
    | .normal v => e.commit (some v) .normal commitTs
    | .deleted => e.commit none .deleted commitTs
    | .uncreated cmd =>
      let payload := e.curPayload.bind cmd.commitOn
      e.commit payload (statusOf payload) commitTs
    | .nonExistent => e.commit e.curPayload e.payloadStatus commitTs
  else ({ e with dirty := .nonExistent, forwardEntry := none }, none)

/-- `commit_ts` of a command that is applied and committed at once. -/
def applyTs (e : ObjectCce V) (clock : Nat) : Nat :=
  if clock ≤ e.commitTs then e.commitTs + 1 else clock

/-- The object has expired and the command is only for existing ones. -/
def retire (e : ObjectCce V) (applyAndCommit : Bool) (clock : Nat) : Applied V :=
  let e := { e with dirty := .deleted }
  if applyAndCommit then
    let entry := { e.toObjectEntry with curPayload := none }
    { cce := { e with
        toObjectEntry := entry.setCommitTsPayloadStatus (e.applyTs clock) .deleted }
      writeLock := false, ttlExpired := true }
  else { cce := e, writeLock := true, ttlExpired := true }

/-- A command that did not change the object; one that blocks or unlocks takes back what
the transaction did and gives up the lock. -/
def leave (e : ObjectCce V) (result : ExecResult) (applyAndCommit expired : Bool) : Applied V :=
  if result = .block ∨ result = .unlock then
    { cce := { e.discardDirty with forwardEntry := none }, writeLock := false, ttlExpired := expired }
  else if applyAndCommit then
    { cce := e.discardDirty, writeLock := false, ttlExpired := expired }
  else { cce := e, writeLock := true, ttlExpired := expired }

/-- A command that is applied and committed at once skips `PostWriteCc`. -/
def applied (e : ObjectCce V) (applyAndCommit expired : Bool) (clock : Nat) : Applied V :=
  if applyAndCommit then
    let (cce, sent) := e.executePostWriteCc (e.applyTs clock)
    { cce := cce, writeLock := false, objectModified := true, ttlExpired := expired, sent := sent }
  else { cce := e, writeLock := true, objectModified := true, ttlExpired := expired }

/-- Executes a command on the dirty object, or on the committed one if it is the first. -/
def execute (e : ObjectCce V) (cmd : ObjectCommand V) (applyAndCommit expired : Bool) (clock : Nat) :
    Applied V :=
  match e.dirty with
  | .normal v =>
    match cmd.executeOn v with
    | .write =>
      (e.addTxCommand cmd (.ofCommit (cmd.commitOn v))).applied applyAndCommit expired clock
    | result => e.leave result applyAndCommit expired
  | _ =>
    match e.payloadStatus, e.curPayload with
    | .normal, some v =>
      match cmd.executeOn v with
      | .write =>
        (e.setObjectVersion.addTxCommand cmd (.uncreated cmd)).applied applyAndCommit expired clock
      | result => e.leave result applyAndCommit expired
    | _, _ => e.leave .fail applyAndCommit expired

/-- Whether a command gets the write lock and is executed. -/
def runs (e : ObjectCce V) (cmd : ObjectCommand V) (expired reset : Bool) : Bool :=
  !e.objectNotExist && cmd.proceedOnExistentObject ||
    e.objectNotExist && cmd.proceedOnNonExistentObject || expired || reset

/-- `Execute(ApplyCc)` of a write command; `writeLock` is whether the transaction holds the
write lock already, `clock` the larger of its timestamp and the shard's clock. -/
def executeApplyCc (e : ObjectCce V) (ttlOf : V → Option Nat) (subscribed : Bool)
    (cmd : ObjectCommand V) (applyAndCommit writeLock : Bool) (now clock : Nat) : Applied V :=
  let expired := e.ttlExpired ttlOf now
  let reset := e.ttlReset ttlOf cmd now
  let e := e.createDirtyPayloadFromPendingCommand
  if !e.runs cmd expired reset then
    { cce := e, writeLock := writeLock && !applyAndCommit }
  else
    let e := e.setForwardEntry subscribed
    if expired && cmd.proceedOnExistentObject && !cmd.proceedOnNonExistentObject then
      e.retire applyAndCommit clock
    else if expired || e.objectNotExist then
      (e.createDirtyPayloadFromCommand cmd).execute cmd applyAndCommit expired clock
    else e.execute cmd applyAndCommit expired clock

/-- The record is known: an object, or deleted. -/
def Known (e : ObjectEntry V) : Prop := e.payloadStatus = statusOf e.curPayload

section
variable {e : ObjectCce V} {cmd : ObjectCommand V} {v : V}

@[simp] theorem createDirty_toObjectEntry :
    e.createDirtyPayloadFromPendingCommand.toObjectEntry = e.toObjectEntry := by
  unfold createDirtyPayloadFromPendingCommand
  split <;> rfl

@[simp] theorem createDirty_forwardEntry :
    e.createDirtyPayloadFromPendingCommand.forwardEntry = e.forwardEntry := by
  unfold createDirtyPayloadFromPendingCommand
  split <;> rfl

@[simp] theorem setForwardEntry_toObjectEntry (subscribed : Bool) :
    (e.setForwardEntry subscribed).toObjectEntry = e.toObjectEntry := by
  unfold setForwardEntry
  split <;> rfl

@[simp] theorem setForwardEntry_dirty (subscribed : Bool) :
    (e.setForwardEntry subscribed).dirty = e.dirty := by
  unfold setForwardEntry
  split <;> rfl

theorem setForwardEntry_view (subscribed : Bool) : (e.setForwardEntry subscribed).view = e.view := by
  unfold setForwardEntry
  split <;> rfl

/-- Materialising the pending command shows the transaction the same object. -/
theorem createDirty_view : e.createDirtyPayloadFromPendingCommand.view = e.view := by
  cases dirty : e.dirty with
  | uncreated cmd =>
    by_cases deletes : cmd.isDelete = true
    · have gone : e.curPayload.bind cmd.commitOn = none := by
        cases e.curPayload with
        | none => rfl
        | some v => exact cmd.deletes deletes v
      simp [createDirtyPayloadFromPendingCommand, view, dirty, deletes, gone]
    · cases found : e.curPayload.bind cmd.commitOn <;>
        simp [createDirtyPayloadFromPendingCommand, view, dirty, deletes, found, Dirty.ofCommit]
  | nonExistent | normal | deleted => simp [createDirtyPayloadFromPendingCommand, view, dirty]

theorem createDirty_dirty (pending : ObjectCommand V) :
    e.createDirtyPayloadFromPendingCommand.dirty ≠ .uncreated pending := by
  intro found
  cases dirty : e.dirty with
  | uncreated cmd =>
    rw [createDirtyPayloadFromPendingCommand, dirty] at found
    simp only at found
    split at found
    · cases found
    · cases result : e.curPayload.bind cmd.commitOn <;> rw [result] at found <;> cases found
  | nonExistent | normal | deleted =>
    rw [createDirtyPayloadFromPendingCommand, dirty] at found
    simp only [dirty] at found
    cases found

theorem objectNotExist_iff (known : Known e.toObjectEntry)
    (created : ∀ pending, e.dirty ≠ .uncreated pending) :
    e.objectNotExist = e.view.isNone := by
  cases dirty : e.dirty with
  | nonExistent =>
    rw [Known] at known
    cases found : e.curPayload <;> simp [objectNotExist, view, dirty, known, found, statusOf]
  | uncreated pending => exact absurd dirty (created pending)
  | normal v => simp [objectNotExist, view, dirty]
  | deleted => simp [objectNotExist, view, dirty]

theorem view_ofCommit {e : ObjectCce V} (payload : Option V) (dirty : e.dirty = .ofCommit payload) :
    e.view = payload := by
  cases payload <;> simp [view, dirty, Dirty.ofCommit]

theorem executePostWriteCc_commit {ts : Nat} (known : Known e.toObjectEntry)
    (newer : e.commitTs < ts) :
    e.executePostWriteCc ts =
      ({ curPayload := e.view, commitTs := ts, payloadStatus := statusOf e.view, bufferedCmds := [],
         dirty := .nonExistent, forwardEntry := none },
       e.forwardEntry.map fun f => { f with commitTs := ts }) := by
  have positive : 0 < ts := by omega
  rw [Known] at known
  rw [executePostWriteCc, if_pos positive]
  cases dirty : e.dirty <;>
    simp [commit, view, dirty, ObjectEntry.setCommitTsPayloadStatus, newer, statusOf, known]

theorem executePostWriteCc_abort :
    e.executePostWriteCc 0 = ({ e with dirty := .nonExistent, forwardEntry := none }, none) := rfl

theorem lt_applyTs {clock : Nat} : e.commitTs < e.applyTs clock := by
  unfold applyTs
  split <;> omega

/-- The object a command is executed on. -/
def OnObject (e : ObjectCce V) (v : V) : Prop :=
  e.dirty = .normal v ∨ e.dirty = .nonExistent ∧ e.curPayload = some v

/-- The entry after a command has changed the object. -/
def changed (e : ObjectCce V) (cmd : ObjectCommand V) : ObjectCce V :=
  match e.dirty with
  | .normal v => e.addTxCommand cmd (.ofCommit (cmd.commitOn v))
  | _ => e.setObjectVersion.addTxCommand cmd (.uncreated cmd)

@[simp] theorem changed_toObjectEntry : (e.changed cmd).toObjectEntry = e.toObjectEntry := by
  unfold changed
  split <;> rfl

theorem changed_view (on : e.OnObject v) : (e.changed cmd).view = cmd.commitOn v := by
  rcases on with dirty | ⟨dirty, payload⟩
  · rw [changed, dirty]
    exact view_ofCommit _ rfl
  · rw [changed, dirty]
    simp [addTxCommand, setObjectVersion, view, payload]

theorem changed_dirty (on : e.OnObject v) : (e.changed cmd).dirty ≠ .nonExistent := by
  rcases on with dirty | ⟨dirty, _⟩
  · rw [changed, dirty]
    cases found : cmd.commitOn v <;> simp [addTxCommand, found, Dirty.ofCommit]
  · rw [changed, dirty]
    simp [addTxCommand]

theorem execute_eq (known : Known e.toObjectEntry) (on : e.OnObject v)
    (applyAndCommit expired : Bool) (clock : Nat) :
    e.execute cmd applyAndCommit expired clock =
      if cmd.executeOn v = .write then (e.changed cmd).applied applyAndCommit expired clock
      else e.leave (cmd.executeOn v) applyAndCommit expired := by
  rcases on with dirty | ⟨dirty, payload⟩
  · rw [execute, changed, dirty]
    cases result : cmd.executeOn v <;> simp [result]
  · have normal : e.payloadStatus = .normal := by
      rw [known, payload]
      rfl
    rw [execute, changed, dirty, normal, payload]
    cases result : cmd.executeOn v <;> simp [result]

theorem createDirty_onObject (exists' : e.view = some v) :
    e.createDirtyPayloadFromPendingCommand.OnObject v := by
  have same : e.createDirtyPayloadFromPendingCommand.view = some v :=
    createDirty_view.trans exists'
  cases dirty : e.createDirtyPayloadFromPendingCommand.dirty with
  | nonExistent =>
    rw [view, dirty] at same
    exact Or.inr ⟨dirty, same⟩
  | uncreated pending => exact absurd dirty (createDirty_dirty pending)
  | normal w =>
    rw [view, dirty] at same
    cases same
    exact Or.inl dirty
  | deleted =>
    rw [view, dirty] at same
    cases same

end

section
variable {e : ObjectCce V} {ttlOf : V → Option Nat} {subscribed : Bool} {cmd : ObjectCommand V}
  {applyAndCommit writeLock : Bool} {now clock : Nat} {v : V}

/-- Whether the command is executed, by the object the transaction sees. -/
def proceeds (e : ObjectCce V) (ttlOf : V → Option Nat) (cmd : ObjectCommand V) (now : Nat) : Bool :=
  e.view.isSome && cmd.proceedOnExistentObject || e.view.isNone && cmd.proceedOnNonExistentObject ||
    e.ttlExpired ttlOf now || e.ttlReset ttlOf cmd now

theorem createDirty_objectNotExist (known : Known e.toObjectEntry) :
    e.createDirtyPayloadFromPendingCommand.objectNotExist = e.view.isNone := by
  rw [← createDirty_view]
  exact objectNotExist_iff (by rwa [createDirty_toObjectEntry]) createDirty_dirty

theorem runs_eq_proceeds (known : Known e.toObjectEntry) :
    e.createDirtyPayloadFromPendingCommand.runs cmd (e.ttlExpired ttlOf now)
      (e.ttlReset ttlOf cmd now) = e.proceeds ttlOf cmd now := by
  rw [runs, createDirty_objectNotExist known, proceeds]
  cases e.view <;> rfl

/-- The entry a command is executed on. -/
def prepared (e : ObjectCce V) (subscribed : Bool) : ObjectCce V :=
  e.createDirtyPayloadFromPendingCommand.setForwardEntry subscribed

@[simp] theorem prepared_toObjectEntry : (e.prepared subscribed).toObjectEntry = e.toObjectEntry := by
  simp [prepared]

theorem prepared_onObject (exists' : e.view = some v) : (e.prepared subscribed).OnObject v := by
  rw [OnObject, prepared, setForwardEntry_dirty, setForwardEntry_toObjectEntry]
  exact createDirty_onObject exists'

theorem prepared_view : (e.prepared subscribed).view = e.view := by
  rw [prepared, setForwardEntry_view, createDirty_view]

theorem prepared_objectNotExist (known : Known e.toObjectEntry) :
    (e.prepared subscribed).objectNotExist = e.view.isNone := by
  rw [← createDirty_objectNotExist known, objectNotExist, prepared, setForwardEntry_dirty,
    setForwardEntry_toObjectEntry]
  rfl

/-- A command that does not proceed only materialises the pending one. -/
theorem executeApplyCc_idle (known : Known e.toObjectEntry)
    (idle : e.proceeds ttlOf cmd now = false) :
    e.executeApplyCc ttlOf subscribed cmd applyAndCommit writeLock now clock =
      { cce := e.createDirtyPayloadFromPendingCommand, writeLock := writeLock && !applyAndCommit } := by
  simp [executeApplyCc, runs_eq_proceeds known, idle]

theorem executeApplyCc_proceeds (known : Known e.toObjectEntry)
    (proceeds : e.proceeds ttlOf cmd now = true) :
    e.executeApplyCc ttlOf subscribed cmd applyAndCommit writeLock now clock =
      if e.ttlExpired ttlOf now && cmd.proceedOnExistentObject && !cmd.proceedOnNonExistentObject then
        (e.prepared subscribed).retire applyAndCommit clock
      else if e.ttlExpired ttlOf now || e.view.isNone then
        ((e.prepared subscribed).createDirtyPayloadFromCommand cmd).execute cmd applyAndCommit
          (e.ttlExpired ttlOf now) clock
      else
        (e.prepared subscribed).execute cmd applyAndCommit (e.ttlExpired ttlOf now) clock := by
  have missing : (e.prepared subscribed).objectNotExist = e.view.isNone :=
    prepared_objectNotExist known
  rw [← missing]
  simp only [executeApplyCc, runs_eq_proceeds known, proceeds, prepared]
  rfl

end

end ObjectCce

end TxService
