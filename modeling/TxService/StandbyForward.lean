import TxService.ObjectTransactions

/-!
# Forwarding an object's commits to a standby

The commands gathered for a message have to do to the committed object what the transaction sees.
A standby that has the version a message is for applies the commands one by one; if commands wait in
the buffered list, the message goes through `TryCommitBufferedCommands`, which starts from an empty
object when the message ignores the previous version and its first command does not overwrite it.
-/

namespace TxService

universe u

variable {V : Type u}

/-- `Execute(KeyObjectStandbyForwardCc)` on the entry of the message's key. -/
def ObjectEntry.executeStandbyForwardCc (fullEntries : Bool) (e : ObjectEntry V)
    (m : ForwardRequest V) : ObjectEntry V :=
  if m.commitTs ≤ e.commitTs then e
  else
    let e :=
      if e.payloadStatus = .unknown ∧ (m.hasOverwrite ∨ m.objectVersion = 1 ∨ fullEntries) then
        e.setCommitTsPayloadStatus 1 .deleted
      else e
    if (m.objectVersion = e.commitTs ∨ m.hasOverwrite) ∧ e.bufferedCmds.isEmpty then
      let applied := { e with curPayload := m.cmdList.foldl TxCommand.commit e.curPayload }
      applied.setCommitTsPayloadStatus m.commitTs (statusOf applied.curPayload)
    else
      e.emplaceAndCommitBufferedTxnCommand
        { objVersion := m.objectVersion, newVersion := m.commitTs
          ignorePreviousVersion := m.hasOverwrite, cmdList := m.cmdList }

namespace ObjectCce

/-- The commands that wait to be sent do to the committed object what the transaction
sees, and the message names the version they are for. -/
structure Mirrored (e : ObjectCce V) : Prop where
  known : Known e.toObjectEntry
  buffered : e.bufferedCmds = []
  begun : e.forwardEntry = none → e.dirty = .nonExistent
  shows : ∀ f, e.forwardEntry = some f →
    f.cmdList.foldl TxCommand.commit e.curPayload = e.view
  version : ∀ f, e.forwardEntry = some f → e.dirty ≠ .nonExistent → f.objectVersion = e.commitTs

section
variable {e : ObjectCce V} {f : ForwardRequest V} {cmd : ObjectCommand V} {v : V}

theorem mirrored_clean (entry : ObjectEntry V) (known : Known entry)
    (buffered : entry.bufferedCmds = []) :
    Mirrored { entry with dirty := .nonExistent, forwardEntry := none } where
  known := known
  buffered := buffered
  begun _ := rfl
  shows := by simp
  version := by simp

theorem createDirty_nonExistent_iff :
    e.createDirtyPayloadFromPendingCommand.dirty = .nonExistent ↔ e.dirty = .nonExistent := by
  unfold createDirtyPayloadFromPendingCommand
  split
  · rename_i cmd pending
    split <;> cases e.curPayload.bind cmd.commitOn <;> simp [pending, Dirty.ofCommit]
  · rfl

theorem Mirrored.createDirty (h : Mirrored e) : Mirrored e.createDirtyPayloadFromPendingCommand where
  known := by
    rw [createDirty_toObjectEntry]
    exact h.known
  buffered := by
    rw [createDirty_toObjectEntry]
    exact h.buffered
  begun := by
    rw [createDirty_forwardEntry, createDirty_nonExistent_iff]
    exact h.begun
  shows := by
    rw [createDirty_forwardEntry, createDirty_toObjectEntry, createDirty_view]
    exact h.shows
  version := by
    rw [createDirty_forwardEntry, createDirty_toObjectEntry, ne_eq, createDirty_nonExistent_iff]
    exact h.version

theorem setForwardEntry_some (forward : e.forwardEntry = some f) : e.setForwardEntry true = e := by
  cases e
  simp_all [setForwardEntry]

/-- With a standby there is a message to add to. -/
theorem Mirrored.prepared (h : Mirrored e) :
    Mirrored (e.prepared true) ∧ ∃ f, (e.prepared true).forwardEntry = some f := by
  have created := h.createDirty
  refine ⟨?_, _, rfl⟩
  cases found : e.createDirtyPayloadFromPendingCommand.forwardEntry with
  | some f =>
    rwa [ObjectCce.prepared, setForwardEntry_some found]
  | none =>
    have clean := created.begun found
    refine ⟨created.known, created.buffered, fun _ => clean, ?_, fun f _ dirty => absurd clean dirty⟩
    intro f forward
    simp only [ObjectCce.prepared, setForwardEntry, found, Option.getD_none, if_true,
      Option.some.injEq] at forward
    subst forward
    rw [prepared_view, ← createDirty_view, view, clean]
    rfl

theorem changed_forwardEntry (cmd : ObjectCommand V) (on : e.OnObject v) (forward : e.forwardEntry = some f)
    (version : e.dirty ≠ .nonExistent → f.objectVersion = e.commitTs) :
    ∃ g, (e.changed cmd).forwardEntry = some g ∧ g.cmdList = f.cmdList ++ [cmd.toTxCommand] ∧
      g.objectVersion = e.commitTs := by
  rcases on with dirty | ⟨dirty, _⟩
  · refine ⟨f.addTxCommand cmd, ?_, rfl, version (by simp [dirty])⟩
    simp [changed, dirty, addTxCommand, forward]
  · refine ⟨{ f with objectVersion := e.commitTs }.addTxCommand cmd, ?_, rfl, rfl⟩
    simp [changed, dirty, addTxCommand, setObjectVersion, forward]

theorem changed_mirrored (known : Known e.toObjectEntry) (buffered : e.bufferedCmds = [])
    (on : e.OnObject v) (forward : e.forwardEntry = some f)
    (version : e.dirty ≠ .nonExistent → f.objectVersion = e.commitTs)
    (same : cmd.commitOn ((f.cmdList.foldl TxCommand.commit e.curPayload).getD cmd.createObject) =
      cmd.commitOn v) : Mirrored (e.changed cmd) := by
  obtain ⟨g, forward', cmds, version'⟩ := changed_forwardEntry cmd on forward version
  refine ⟨?_, ?_, ?_, ?_, ?_⟩
  · rwa [changed_toObjectEntry]
  · rwa [changed_toObjectEntry]
  · rw [forward']
    intro absent
    cases absent
  · intro h eq
    rw [forward'] at eq
    cases eq
    rw [changed_view on, changed_toObjectEntry, cmds, List.foldl_append, ← same]
    rfl
  · intro h eq _
    rw [forward'] at eq
    cases eq
    rwa [changed_toObjectEntry]

/-- The standby that has the committed entry comes to what the transaction sees. -/
theorem Mirrored.follows (h : Mirrored e) (forward : e.forwardEntry = some f)
    (dirty : e.dirty ≠ .nonExistent) {ts : Nat} (newer : e.commitTs < ts) (fullEntries : Bool) :
    e.toObjectEntry.executeStandbyForwardCc fullEntries { f with commitTs := ts } =
      { curPayload := e.view, commitTs := ts, payloadStatus := statusOf e.view, bufferedCmds := [] } := by
  have known : e.payloadStatus ≠ .unknown := by
    rw [h.known, statusOf]
    split <;> simp
  have later : ¬ ts ≤ e.commitTs := by omega
  simp [ObjectEntry.executeStandbyForwardCc, later, known, h.version f forward dirty, h.buffered,
    h.shows f forward, ObjectEntry.setCommitTsPayloadStatus, newer]

end

/-- What a request leaves at the primary, and how the standby can follow. -/
structure Forwarded (fullEntries : Bool) (e : ObjectCce V) (a : Applied V) : Prop where
  mirrored : Mirrored a.cce
  unlocked : a.writeLock = false → a.cce.dirty = .nonExistent
  changed : a.writeLock = true → a.objectModified = true ∨ a.ttlExpired = true ∨
    e.dirty ≠ .nonExistent → a.cce.dirty ≠ .nonExistent
  silent : a.sent = none → a.cce.toObjectEntry = e.toObjectEntry
  follows : ∀ m, a.sent = some m →
    e.toObjectEntry.executeStandbyForwardCc fullEntries m = a.cce.toObjectEntry

section
variable {e f : ObjectCce V} {a : Applied V} {g : ForwardRequest V} {cmd : ObjectCommand V} {v : V}
  {applyAndCommit expired fullEntries : Bool} {clock : Nat}

theorem forwarded_released (mirrored : Mirrored a.cce) (clean : a.cce.dirty = .nonExistent)
    (released : a.writeLock = false) (quiet : a.sent = none)
    (same : a.cce.toObjectEntry = e.toObjectEntry) : Forwarded fullEntries e a where
  mirrored := mirrored
  unlocked _ := clean
  changed := by simp [released]
  silent _ := same
  follows := by simp [quiet]

theorem forwarded_held (mirrored : Mirrored a.cce) (held : a.writeLock = true) (quiet : a.sent = none)
    (same : a.cce.toObjectEntry = e.toObjectEntry)
    (changed : a.objectModified = true ∨ a.ttlExpired = true ∨ e.dirty ≠ .nonExistent →
      a.cce.dirty ≠ .nonExistent) : Forwarded fullEntries e a where
  mirrored := mirrored
  unlocked := by simp [held]
  changed _ := changed
  silent _ := same
  follows := by simp [quiet]

theorem Mirrored.commit (h : Mirrored e) (dirty : e.dirty ≠ .nonExistent) {ts : Nat}
    (newer : e.commitTs < ts) (fullEntries : Bool) :
    Mirrored (e.executePostWriteCc ts).1 ∧ (e.executePostWriteCc ts).1.dirty = .nonExistent ∧
      ∃ m, (e.executePostWriteCc ts).2 = some m ∧
        e.toObjectEntry.executeStandbyForwardCc fullEntries m =
          (e.executePostWriteCc ts).1.toObjectEntry := by
  cases forward : e.forwardEntry with
  | none => exact absurd (h.begun forward) dirty
  | some m =>
    rw [executePostWriteCc_commit h.known newer, forward]
    refine ⟨mirrored_clean _ rfl rfl, rfl, _, rfl, ?_⟩
    exact h.follows forward dirty newer fullEntries

theorem applied_forwarded (same : f.toObjectEntry = e.toObjectEntry) (h : Mirrored f)
    (dirty : f.dirty ≠ .nonExistent) :
    Forwarded fullEntries e (f.applied applyAndCommit expired clock) := by
  cases applyAndCommit with
  | false => exact forwarded_held h rfl rfl same fun _ => dirty
  | true =>
    obtain ⟨mirrored, clean, m, sent, follows⟩ := h.commit dirty (lt_applyTs (e := f)) fullEntries
    refine ⟨mirrored, fun _ => clean, ?_, ?_, ?_⟩
    · intro held
      cases held
    · intro silent
      cases sent.symm.trans silent
    · intro m' sent'
      cases sent.symm.trans sent'
      rw [← same]
      exact follows

theorem leave_forwarded {result : ExecResult} (same : f.toObjectEntry = e.toObjectEntry)
    (known : Known f.toObjectEntry) (buffered : f.bufferedCmds = [])
    (forward : f.forwardEntry = some g)
    (discarded : applyAndCommit = true →
      g.cmdList.foldl TxCommand.commit f.curPayload = f.curPayload)
    (kept : result = .fail ∨ result = .read → applyAndCommit = false →
      expired = false ∧ Mirrored f ∧ (e.dirty ≠ .nonExistent → f.dirty ≠ .nonExistent))
    (idle : result ≠ .write) :
    Forwarded fullEntries e (f.leave result applyAndCommit expired) := by
  unfold leave
  split
  · exact forwarded_released (mirrored_clean _ known buffered) rfl rfl rfl same
  · rename_i running
    split
    · rename_i commits
      refine forwarded_released ⟨known, buffered, fun _ => rfl, ?_, ?_⟩ rfl rfl rfl same
      · intro g' forward'
        cases forward.symm.trans forward'
        exact discarded commits
      · intro _ _ dirty
        exact absurd rfl dirty
    · rename_i holds
      have plain : result = .fail ∨ result = .read := by
        cases result <;> simp_all
      obtain ⟨fresh, mirrored, dirty⟩ := kept plain (by simpa using holds)
      refine forwarded_held mirrored rfl rfl same ?_
      rintro (modified | gone | before)
      · cases modified
      · exact absurd gone (by simp [fresh])
      · exact dirty before

/-- Executing a command on the object it finds or on a new one, where the message so far
leads to what the transaction saw. -/
theorem execute_forwarded (same : f.toObjectEntry = e.toObjectEntry)
    (known : Known f.toObjectEntry) (buffered : f.bufferedCmds = []) (on : f.OnObject v)
    (forward : f.forwardEntry = some g)
    (version : f.dirty ≠ .nonExistent → g.objectVersion = f.commitTs)
    (writes : cmd.executeOn v = .write →
      cmd.commitOn ((g.cmdList.foldl TxCommand.commit f.curPayload).getD cmd.createObject) =
        cmd.commitOn v)
    (discarded : applyAndCommit = true →
      g.cmdList.foldl TxCommand.commit f.curPayload = f.curPayload)
    (kept : cmd.executeOn v = .fail ∨ cmd.executeOn v = .read → applyAndCommit = false →
      expired = false ∧ Mirrored f ∧ (e.dirty ≠ .nonExistent → f.dirty ≠ .nonExistent)) :
    Forwarded fullEntries e (f.execute cmd applyAndCommit expired clock) := by
  rw [execute_eq known on]
  split
  · rename_i write
    have mirrored := changed_mirrored known buffered on forward version (writes write)
    exact applied_forwarded (changed_toObjectEntry.trans same) mirrored (changed_dirty on)
  · rename_i idle
    exact leave_forwarded same known buffered forward discarded kept idle

/-- An expired object is gone for the standby too, and so is what a new object takes the
place of, unless the command takes any object to the same; no empty object is left for a
command that did not write. -/
def Repeats (ttlOf : V → Option Nat) (e : ObjectCce V) (cmd : ObjectCommand V)
    (applyAndCommit : Bool) (now : Nat) : Prop :=
  if e.ttlExpired ttlOf now && cmd.proceedOnExistentObject && !cmd.proceedOnNonExistentObject then
    applyAndCommit = false ∧ e.view = none
  else if e.ttlExpired ttlOf now || e.view.isNone then
    match cmd.executeOn cmd.createObject with
    | .write => cmd.commitOn (e.view.getD cmd.createObject) = cmd.commitOn cmd.createObject
    | .fail | .read => applyAndCommit = true
    | .block | .unlock => True
  else True

theorem prepared_nonExistent_iff :
    (e.prepared true).dirty = .nonExistent ↔ e.dirty = .nonExistent := by
  rw [prepared, setForwardEntry_dirty]
  exact createDirty_nonExistent_iff

/-- The missing object of an entry without a transaction has no time to live. -/
theorem dirty_of_expired {ttlOf : V → Option Nat} {now : Nat} (expired : e.ttlExpired ttlOf now = true)
    (missing : e.view = none) : e.dirty ≠ .nonExistent := by
  intro clean
  rw [view, clean] at missing
  simp only at missing
  simp [ttlExpired, ttl, clean, missing] at expired

section
variable {ttlOf : V → Option Nat} {writeLock : Bool} {now : Nat}

theorem idle_forwarded (h : Mirrored e) (unlocked : writeLock = false → e.dirty = .nonExistent)
    (single : applyAndCommit = true → writeLock = false) :
    Forwarded fullEntries e
      { cce := e.createDirtyPayloadFromPendingCommand, writeLock := writeLock && !applyAndCommit } := by
  cases held : writeLock && !applyAndCommit with
  | false =>
    have free : writeLock = false := by
      cases applyAndCommit with
      | false => simpa using held
      | true => exact single rfl
    exact forwarded_released h.createDirty (createDirty_nonExistent_iff.mpr (unlocked free)) rfl rfl
      createDirty_toObjectEntry
  | true =>
    refine forwarded_held h.createDirty rfl rfl createDirty_toObjectEntry ?_
    rintro (modified | gone | before)
    · cases modified
    · cases gone
    · exact fun clean => before (createDirty_nonExistent_iff.mp clean)

/-- The object has expired and was already gone for the transaction. -/
theorem retire_forwarded (h : Mirrored e) (missing : e.view = none) (dirty : e.dirty ≠ .nonExistent) :
    Forwarded fullEntries e ((e.prepared true).retire false clock) := by
  obtain ⟨mirrored, g, forward⟩ := h.prepared
  refine forwarded_held ⟨mirrored.known, mirrored.buffered, ?_, ?_, ?_⟩ rfl rfl
    prepared_toObjectEntry (by simp [retire])
  · intro absent
    cases forward.symm.trans absent
  · intro g' forward'
    exact (mirrored.shows g' forward').trans (prepared_view.trans missing)
  · intro g' forward' _
    exact mirrored.version g' forward' fun clean => dirty (prepared_nonExistent_iff.mp clean)

theorem create_forwarded (h : Mirrored e) (unlocked : applyAndCommit = true → e.dirty = .nonExistent)
    (writes : cmd.executeOn cmd.createObject = .write →
      cmd.commitOn (e.view.getD cmd.createObject) = cmd.commitOn cmd.createObject)
    (fails : cmd.executeOn cmd.createObject = .fail ∨ cmd.executeOn cmd.createObject = .read →
      applyAndCommit = true) :
    Forwarded fullEntries e
      (((e.prepared true).createDirtyPayloadFromCommand cmd).execute cmd applyAndCommit expired
        clock) := by
  obtain ⟨mirrored, g, forward⟩ := h.prepared
  have seen : g.cmdList.foldl TxCommand.commit (e.prepared true).curPayload = e.view :=
    (mirrored.shows g forward).trans prepared_view
  refine execute_forwarded (g := { g with objectVersion := (e.prepared true).commitTs })
    prepared_toObjectEntry mirrored.known mirrored.buffered created_onObject ?_ (fun _ => rfl) ?_ ?_ ?_
  · simp [createDirtyPayloadFromCommand, setObjectVersion, forward]
  · intro write
    rw [← writes write, ← seen]
    rfl
  · intro commits
    refine seen.trans ?_
    rw [view, unlocked commits]
    simp [createDirtyPayloadFromCommand, setObjectVersion]
  · intro fail holds
    rw [fails fail] at holds
    cases holds

theorem existing_forwarded (h : Mirrored e) (unlocked : applyAndCommit = true → e.dirty = .nonExistent)
    (found : e.view = some v) :
    Forwarded fullEntries e ((e.prepared true).execute cmd applyAndCommit false clock) := by
  obtain ⟨mirrored, g, forward⟩ := h.prepared
  have seen : g.cmdList.foldl TxCommand.commit (e.prepared true).curPayload = e.view :=
    (mirrored.shows g forward).trans prepared_view
  refine execute_forwarded prepared_toObjectEntry mirrored.known mirrored.buffered
    (prepared_onObject found) forward (mirrored.version g forward) ?_ ?_ ?_
  · intro _
    rw [seen, found]
    rfl
  · intro commits
    rw [seen, view, unlocked commits]
    simp
  · intro _ _
    exact ⟨rfl, mirrored, fun before clean => before (prepared_nonExistent_iff.mp clean)⟩

theorem executeApplyCc_forwarded (h : Mirrored e)
    (unlocked : writeLock = false → e.dirty = .nonExistent)
    (single : applyAndCommit = true → writeLock = false)
    (repeats : e.proceeds ttlOf cmd now = true → e.Repeats ttlOf cmd applyAndCommit now) :
    Forwarded fullEntries e
      (e.executeApplyCc ttlOf true cmd applyAndCommit writeLock now clock) := by
  by_cases runs : e.proceeds ttlOf cmd now = true
  · have free : applyAndCommit = true → e.dirty = .nonExistent := fun commits =>
      unlocked (single commits)
    have condition := repeats runs
    rw [executeApplyCc_proceeds h.known runs]
    unfold Repeats at condition
    split
    · rename_i retires
      rw [if_pos retires] at condition
      obtain ⟨rfl, missing⟩ := condition
      have expired : e.ttlExpired ttlOf now = true := by simp_all
      exact retire_forwarded h missing (dirty_of_expired expired missing)
    · rename_i proceeds
      rw [if_neg proceeds] at condition
      split
      · rename_i missing
        rw [if_pos missing] at condition
        apply create_forwarded h free
        · intro write
          rwa [write] at condition
        · rintro (fail | read)
          · rwa [fail] at condition
          · rwa [read] at condition
      · rename_i found
        have fresh : e.ttlExpired ttlOf now = false := by simp_all
        obtain ⟨v, found⟩ : ∃ v, e.view = some v := by
          cases view : e.view with
          | none => simp [view] at found
          | some v => exact ⟨v, rfl⟩
        rw [fresh]
        exact existing_forwarded h free found
  · rw [executeApplyCc_idle h.known (by simpa using runs)]
    exact idle_forwarded h unlocked single

end

end

end ObjectCce

/-- An overwriting command leaves the same object whatever there was. -/
def TxCommand.Overwrites (cmd : TxCommand V) : Prop := ∀ v w, cmd.commitOn v = cmd.commitOn w

namespace ForwardRequest

/-- The flag of the message is that of its commands. -/
def Flagged (m : ForwardRequest V) : Prop := m.hasOverwrite = m.cmdList.any (·.isOverwrite)

/-- The message as the buffered list holds it. -/
def toTxnCmd (m : ForwardRequest V) : TxnCmd V where
  objVersion := m.objectVersion
  newVersion := m.commitTs
  ignorePreviousVersion := m.hasOverwrite
  cmdList := m.cmdList

end ForwardRequest

/-- From an overwriting command on, the object does not depend on what there was. -/
theorem foldl_commit_eq {cmds : List (TxCommand V)} (h : ∃ c ∈ cmds, c.Overwrites)
    (payload payload' : Option V) :
    cmds.foldl TxCommand.commit payload = cmds.foldl TxCommand.commit payload' := by
  induction cmds generalizing payload payload' with
  | nil =>
    obtain ⟨c, hc, -⟩ := h
    cases hc
  | cons c cmds ih =>
    obtain ⟨d, hd, overwrites⟩ := h
    rw [List.foldl_cons, List.foldl_cons]
    rcases List.mem_cons.mp hd with rfl | hd
    · have same : TxCommand.commit payload d = TxCommand.commit payload' d := overwrites _ _
      rw [same]
    · exact ih ⟨d, hd, overwrites⟩ _ _

theorem ForwardRequest.Flagged.commit_toTxnCmd {m : ForwardRequest V} (h : m.Flagged)
    (overwrites : ∀ c ∈ m.cmdList, c.isOverwrite = true → c.Overwrites) (payload : Option V) :
    m.toTxnCmd.commit payload = m.cmdList.foldl TxCommand.commit payload := by
  cases flag : m.hasOverwrite with
  | false =>
    have base : m.toTxnCmd.base payload = payload := by
      unfold TxnCmd.base
      split
      · rfl
      · simp [toTxnCmd, flag]
    rw [TxnCmd.commit, base]
    rfl
  | true =>
    obtain ⟨c, hc, overwriting⟩ := List.any_eq_true.mp (h.symm.trans flag)
    exact foldl_commit_eq ⟨c, hc, overwrites c hc overwriting⟩ _ _

/-- A message for the current version leaves the list at once. -/
theorem ObjectEntry.emplaceAndCommit_current {e : ObjectEntry V} {c : TxnCmd V}
    (known : e.payloadStatus ≠ .unknown) (buffered : e.bufferedCmds = [])
    (version : c.objVersion = e.commitTs) :
    e.emplaceAndCommitBufferedTxnCommand c =
      { e with curPayload := c.commit e.curPayload }.setCommitTsPayloadStatus c.newVersion
        (statusOf (c.commit e.curPayload)) := by
  have emplaced : emplaceTxnCmd e.bufferedCmds c = [c] := by
    simp [emplaceTxnCmd, buffered]
  have committed (payload : Option V) :
      commitInOrder e.commitTs payload [c] = (c.newVersion, c.commit payload, []) := by
    simp [commitInOrder, version]
  simp only [emplaceAndCommitBufferedTxnCommand, emplaced, commitBufferedCommands,
    tryCommitBufferedCommands, committed]
  simp [known, ← buffered]

/-- **Direct apply equals the buffered path.** On an entry whose record is known, a message that is
for the current version and whose flag is that of its commands leaves the same entry either way. -/
theorem ObjectEntry.direct_apply_eq_buffered (fullEntries : Bool) (e : ObjectEntry V)
    (m : ForwardRequest V) (known : e.payloadStatus ≠ .unknown) (buffered : e.bufferedCmds = [])
    (version : m.objectVersion = e.commitTs) (newer : e.commitTs < m.commitTs) (flagged : m.Flagged)
    (overwrites : ∀ c ∈ m.cmdList, c.isOverwrite = true → c.Overwrites) :
    e.executeStandbyForwardCc fullEntries m =
      e.emplaceAndCommitBufferedTxnCommand m.toTxnCmd := by
  rw [emplaceAndCommit_current known buffered version, flagged.commit_toTxnCmd overwrites]
  simp [executeStandbyForwardCc, known, version, buffered, Nat.not_le.mpr newer,
    ForwardRequest.toTxnCmd]

/-- Appending to a list and setting it, in one message. -/
theorem ObjectEntry.direct_apply_eq_buffered_append_set :
    let append : TxCommand (List Nat) := ⟨false, [], fun v => some (v ++ [1])⟩
    let set : TxCommand (List Nat) := ⟨true, [], fun _ => some [5]⟩
    let e : ObjectEntry (List Nat) := ⟨some [7], 3, .normal, []⟩
    let m : ForwardRequest (List Nat) := ⟨3, true, [append, set, append], 5⟩
    e.executeStandbyForwardCc false m = e.emplaceAndCommitBufferedTxnCommand m.toTxnCmd ∧
      (e.executeStandbyForwardCc false m).curPayload = some [5, 1] := by
  intro append set e m
  refine ⟨direct_apply_eq_buffered false e m (by decide) rfl rfl (by decide) rfl ?_, rfl⟩
  intro c hc overwriting
  simp only [m, List.mem_cons, List.not_mem_nil, or_false] at hc
  rcases hc with rfl | rfl | rfl
  · cases overwriting
  · exact fun _ _ => rfl
  · cases overwriting

/-- A message that says it ignores the previous version while its only command appends to it. -/
theorem ObjectEntry.direct_apply_keeps_previous :
    let append : TxCommand (List Nat) := ⟨false, [], fun v => some (v ++ [1])⟩
    let e : ObjectEntry (List Nat) := ⟨some [7], 3, .normal, []⟩
    let m : ForwardRequest (List Nat) := ⟨3, true, [append], 5⟩
    (e.executeStandbyForwardCc false m).curPayload = some [7, 1] ∧
      (e.emplaceAndCommitBufferedTxnCommand m.toTxnCmd).curPayload = some [1] :=
  ⟨rfl, rfl⟩

end TxService
