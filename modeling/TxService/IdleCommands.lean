import TxService.ObjectTransactions

/-!
# Commands that do not write

A command on a missing or expired object is executed on an empty one, which stays behind as the
transaction's object if the command fails or only reads.
-/

namespace TxService

universe u

variable {V : Type u}

namespace ObjectCce

/-- The object, unless it has expired. -/
def live (ttlOf : V → Option Nat) (now : Nat) (payload : Option V) : Option V :=
  payload.filter fun v => !(ttlOf v).any fun t => t < now

section
variable (ttlOf : V → Option Nat) (e : ObjectCce V) (cmd : ObjectCommand V) (now : Nat)

/-- The object has expired, and the command is for existing objects only: it is not executed. -/
def retires : Bool :=
  e.ttlExpired ttlOf now && cmd.proceedOnExistentObject && !cmd.proceedOnNonExistentObject

/-- The command is executed on a new object. -/
def creates : Bool := !e.retires ttlOf cmd now && (e.ttlExpired ttlOf now || e.view.isNone)

/-- The object that `ExecuteOn` is called on. -/
def target : Option V :=
  if e.proceeds ttlOf cmd now = false ∨ e.retires ttlOf cmd now = true then none
  else if e.creates ttlOf cmd now then some cmd.createObject
  else e.view

/-- `ExecuteOn`, if it is called, fails or only reads. -/
def Quiet : Prop :=
  ∀ v, e.target ttlOf cmd now = some v → cmd.executeOn v = .fail ∨ cmd.executeOn v = .read

/-- The transaction sees an expired object where the command finds one, a command that is committed
at once is its first, and no object is made for the command, or only one that is as good as what
was there. -/
@[mk_iff]
structure Harmless (applyAndCommit : Bool) : Prop where
  expired : e.retires ttlOf cmd now = true → live ttlOf now e.view = none
  first : e.retires ttlOf cmd now = false → applyAndCommit = true →
    live ttlOf now e.curPayload = live ttlOf now e.view
  existing : e.creates ttlOf cmd now = true → applyAndCommit = false →
    live ttlOf now (some cmd.createObject) = live ttlOf now e.view

end

section
variable {ttlOf : V → Option Nat} {subscribed : Bool} {e : ObjectCce V} {cmd : ObjectCommand V}
  {applyAndCommit writeLock : Bool} {now clock : Nat} {v : V}

section
variable (known : Known e.toObjectEntry)
include known

theorem executeApplyCc_eq (runs : e.proceeds ttlOf cmd now = true) :
    e.executeApplyCc ttlOf subscribed cmd applyAndCommit writeLock now clock =
      if e.retires ttlOf cmd now then (e.prepared subscribed).retire applyAndCommit clock
      else if e.creates ttlOf cmd now then
        ((e.prepared subscribed).createDirtyPayloadFromCommand cmd).execute cmd applyAndCommit
          (e.ttlExpired ttlOf now) clock
      else (e.prepared subscribed).execute cmd applyAndCommit (e.ttlExpired ttlOf now) clock := by
  rw [executeApplyCc_proceeds known runs]
  cases gone : e.retires ttlOf cmd now with
  | true =>
    rw [retires] at gone
    rw [if_pos gone, if_pos rfl]
  | false =>
    have made : e.creates ttlOf cmd now = (e.ttlExpired ttlOf now || e.view.isNone) := by
      simp [creates, gone]
    rw [retires] at gone
    rw [made, gone]

/-- A command that fails or reads leaves the entry, and the transaction's object unless the command
is committed at once. -/
theorem execute_quiet (on : e.OnObject v)
    (quiet : cmd.executeOn v = .fail ∨ cmd.executeOn v = .read) (expired : Bool) :
    (e.execute cmd applyAndCommit expired clock).cce.toObjectEntry = e.toObjectEntry ∧
      (e.execute cmd applyAndCommit expired clock).cce.view =
        if applyAndCommit then e.curPayload else e.view := by
  rw [execute_eq known on]
  cases applyAndCommit <;> rcases quiet with result | result <;>
    simp [result, leave, discardDirty, view]

theorem retire_quiet :
    Known (e.retire applyAndCommit clock).cce.toObjectEntry ∧
      (e.retire applyAndCommit clock).cce.view = none := by
  cases applyAndCommit with
  | false => exact ⟨known, rfl⟩
  | true =>
    have newer : e.commitTs < { e with dirty := .deleted }.applyTs clock :=
      lt_applyTs (e := { e with dirty := .deleted })
    refine ⟨?_, rfl⟩
    simp [retire, Known, ObjectEntry.setCommitTsPayloadStatus, newer, statusOf]

/-- What a quiet command leaves for the transaction to see. -/
theorem executeApplyCc_quiet (runs : e.proceeds ttlOf cmd now = true)
    (quiet : e.Quiet ttlOf cmd now) :
    let a := e.executeApplyCc ttlOf subscribed cmd applyAndCommit writeLock now clock
    Known a.cce.toObjectEntry ∧
      a.cce.view =
        if e.retires ttlOf cmd now then none
        else if applyAndCommit then e.curPayload
        else if e.creates ttlOf cmd now then some cmd.createObject
        else e.view := by
  intro a
  have prepared : Known (e.prepared subscribed).toObjectEntry := by rwa [prepared_toObjectEntry]
  have apply : a = _ := executeApplyCc_eq known runs
  have executed {f : ObjectCce V} {v : V} (same : f.toObjectEntry = e.toObjectEntry)
      (on : f.OnObject v) (found : e.target ttlOf cmd now = some v)
      (eq : a = f.execute cmd applyAndCommit (e.ttlExpired ttlOf now) clock) :
      Known a.cce.toObjectEntry ∧ a.cce.view = if applyAndCommit then e.curPayload else some v := by
    obtain ⟨kept, shown⟩ := execute_quiet (by rwa [same]) on (quiet v found) (e.ttlExpired ttlOf now)
    rw [eq, kept, shown, same, view_onObject on]
    exact ⟨known, rfl⟩
  cases gone : e.retires ttlOf cmd now with
  | true =>
    rw [gone] at apply
    rw [apply]
    exact retire_quiet prepared
  | false =>
    cases made : e.creates ttlOf cmd now with
    | true =>
      rw [gone, made] at apply
      exact executed (f := (e.prepared subscribed).createDirtyPayloadFromCommand cmd)
        prepared_toObjectEntry created_onObject (by simp [target, runs, gone, made]) apply
    | false =>
      rw [gone, made] at apply
      obtain ⟨v, found⟩ : ∃ v, e.view = some v := by
        cases found : e.view with
        | none => simp [creates, gone, found] at made
        | some v => exact ⟨v, rfl⟩
      rw [found]
      exact executed prepared_toObjectEntry (prepared_onObject found)
        (by simp [target, runs, gone, made, found]) apply

theorem postWrite_payload {ts : Nat} (newer : e.commitTs < ts) :
    (e.executePostWriteCc ts).1.curPayload = e.view := by
  rw [executePostWriteCc_commit known newer]

end

/-- **A command that does not write leaves the transaction's view**, and what `PostWriteCc` commits,
exactly if it is not executed or harmless. -/
theorem quiet_command_iff (subscribed applyAndCommit writeLock : Bool) (clock : Nat)
    (known : Known e.toObjectEntry) (quiet : e.Quiet ttlOf cmd now) :
    let a := e.executeApplyCc ttlOf subscribed cmd applyAndCommit writeLock now clock
    (live ttlOf now a.cce.view = live ttlOf now e.view ∧
      ∀ ts, e.commitTs < ts → a.cce.commitTs < ts →
        live ttlOf now (a.cce.executePostWriteCc ts).1.curPayload =
          live ttlOf now (e.executePostWriteCc ts).1.curPayload) ↔
      (e.proceeds ttlOf cmd now = true → e.Harmless ttlOf cmd now applyAndCommit) := by
  intro a
  have commits (after : Known a.cce.toObjectEntry) :
      (live ttlOf now a.cce.view = live ttlOf now e.view ∧
        ∀ ts, e.commitTs < ts → a.cce.commitTs < ts →
          live ttlOf now (a.cce.executePostWriteCc ts).1.curPayload =
            live ttlOf now (e.executePostWriteCc ts).1.curPayload) ↔
        live ttlOf now a.cce.view = live ttlOf now e.view := by
    refine and_iff_left_of_imp fun same ts newer newer' => ?_
    rwa [postWrite_payload after newer', postWrite_payload known newer]
  cases runs : e.proceeds ttlOf cmd now with
  | false =>
    have idle : a = _ := executeApplyCc_idle known runs
    have after : Known a.cce.toObjectEntry := by rwa [idle, createDirty_toObjectEntry]
    rw [commits after, idle, createDirty_view]
    simp
  | true =>
    obtain ⟨after, shown⟩ : Known a.cce.toObjectEntry ∧ a.cce.view = _ :=
      executeApplyCc_quiet known runs quiet
    rw [commits after, shown, harmless_iff]
    cases gone : e.retires ttlOf cmd now with
    | true => simp [creates, gone, live, eq_comm]
    | false => cases made : e.creates ttlOf cmd now <;> cases applyAndCommit <;> simp

/-- Taking an element that is not there from a list that the transaction has appended to. -/
theorem quiet_command_iff_failing :
    let append : ObjectCommand (List Nat) :=
      ⟨⟨false, [], fun v => some (v ++ [1])⟩, false, true, true, false, fun _ => .write, nofun⟩
    let take : ObjectCommand (List Nat) :=
      ⟨⟨false, [], fun v => some (v.erase 5)⟩, false, true, false, false,
        fun v => if 5 ∈ v then .write else .fail, nofun⟩
    let e : ObjectCce (List Nat) := ⟨⟨some [7], 3, .normal, []⟩, .uncreated append, none⟩
    let a := e.executeApplyCc (fun _ => none) false take false true 0 0
    live (fun _ => none) 0 a.cce.view = some [7, 1] ∧
      live (fun _ => none) 0 (a.cce.executePostWriteCc 4).1.curPayload = some [7, 1] := by
  intro append take e a
  have quiet : e.Quiet (fun _ => none) take 0 := by
    intro v found
    cases found
    exact .inl rfl
  have harmless : e.Harmless (fun _ => none) take 0 false := ⟨nofun, nofun, nofun⟩
  have known : Known e.toObjectEntry := rfl
  obtain ⟨seen, committed⟩ := (quiet_command_iff false false true 0 known quiet).mpr fun _ => harmless
  exact ⟨seen, committed 4 (by decide) (by decide)⟩

/-- The same command on a missing list, as one for which it proceeds: it fails, and the transaction
sees, and commits, an empty list. -/
theorem failed_command_creates_object :
    let take : ObjectCommand (List Nat) :=
      ⟨⟨false, [], fun v => some (v.erase 5)⟩, false, true, true, false,
        fun v => if 5 ∈ v then .write else .fail, nofun⟩
    let e : ObjectCce (List Nat) := ⟨⟨none, 3, .deleted, []⟩, .nonExistent, none⟩
    let a := e.executeApplyCc (fun _ => none) false take false false 0 0
    (Known e.toObjectEntry ∧ e.view = none ∧ take.executeOn take.createObject = .fail) ∧
      a.objectModified = false ∧ a.cce.view = some [] ∧
      (a.cce.executePostWriteCc 4).1.curPayload = some [] :=
  ⟨⟨rfl, rfl, rfl⟩, rfl, rfl, rfl⟩

end

end ObjectCce

end TxService
