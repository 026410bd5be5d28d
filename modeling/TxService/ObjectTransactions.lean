import Mathlib.Data.List.Induction
import TxService.ObjectCommands

/-!
# Transactions on an object

The commands of a committed transaction should do to the object what they do to a copy of it, one
after the other.
-/

namespace TxService

universe u

variable {V : Type u}

namespace ObjectCommand

/-- Executing the command on an object and committing it if it writes. -/
def executed (cmd : ObjectCommand V) (v : V) : Option V :=
  if cmd.executeOn v = .write then cmd.commitOn v else some v

/-- What the command does to a copy of the object. -/
def next (cmd : ObjectCommand V) : Option V → Option V
  | some v => if cmd.proceedOnExistentObject then cmd.executed v else some v
  | none =>
    if cmd.proceedOnNonExistentObject ∧ cmd.executeOn cmd.createObject = .write then
      cmd.commitOn cmd.createObject
    else none

end ObjectCommand

namespace ObjectCce

section
variable {e : ObjectCce V} {cmd : ObjectCommand V} {v : V} {clock : Nat}

theorem view_onObject (on : e.OnObject v) : e.view = some v := by
  rcases on with dirty | ⟨dirty, payload⟩
  · rw [view, dirty]
  · rw [view, dirty, payload]

theorem created_onObject : (e.createDirtyPayloadFromCommand cmd).OnObject cmd.createObject :=
  Or.inl rfl

/-- A command that keeps the lock leaves the committed object and shows what it did. -/
theorem execute_view (known : Known e.toObjectEntry) (on : e.OnObject v)
    (held : (e.execute cmd false false clock).writeLock = true) :
    (e.execute cmd false false clock).cce.toObjectEntry = e.toObjectEntry ∧
      (e.execute cmd false false clock).cce.view = cmd.executed v := by
  rw [execute_eq known on] at held ⊢
  rw [ObjectCommand.executed]
  by_cases write : cmd.executeOn v = .write
  · rw [if_pos write, if_pos write]
    exact ⟨changed_toObjectEntry, changed_view on⟩
  · rw [if_neg write] at held
    rw [if_neg write, if_neg write]
    by_cases released : cmd.executeOn v = .block ∨ cmd.executeOn v = .unlock
    · simp [leave, released] at held
    · simp [leave, released, view_onObject on]

end

section
variable (ttlOf : V → Option Nat) (subscribed : Bool)

/-- A command of a transaction, executed at some time. -/
def apply (a : Applied V) (c : ObjectCommand V × Nat) : Applied V :=
  a.cce.executeApplyCc ttlOf subscribed c.1 false a.writeLock c.2 0

def applyAll (a : Applied V) (cs : List (ObjectCommand V × Nat)) : Applied V :=
  cs.foldl (apply ttlOf subscribed) a

/-- The object does not expire and the transaction keeps the write lock. -/
def Undisturbed (a : Applied V) (c : ObjectCommand V × Nat) : Prop :=
  a.cce.ttlExpired ttlOf c.2 = false ∧ (apply ttlOf subscribed a c).writeLock = true

/-- A command that proceeds on a missing object writes to the one made for it, and one
that runs only since it resets a time to live does not change what it found. -/
def Unharmed (e : ObjectCce V) (c : ObjectCommand V × Nat) : Prop :=
  match e.view with
  | some v =>
    c.1.proceedOnExistentObject = false → e.ttlReset ttlOf c.1 c.2 = true →
      c.1.executeOn v = .write → c.1.commitOn v = some v
  | none =>
    if c.1.proceedOnNonExistentObject then c.1.executeOn c.1.createObject = .write
    else e.ttlReset ttlOf c.1 c.2 = true → c.1.executed c.1.createObject = none

variable {ttlOf subscribed} {a : Applied V} {c : ObjectCommand V × Nat}

/-- The command is executed on the object the transaction sees, or on a new one. -/
theorem apply_executes (subscribed : Bool) (known : Known a.cce.toObjectEntry)
    (fresh : a.cce.ttlExpired ttlOf c.2 = false) (runs : a.cce.proceeds ttlOf c.1 c.2 = true) :
    ∃ f : ObjectCce V, f.toObjectEntry = a.cce.toObjectEntry ∧
      f.OnObject (a.cce.view.getD c.1.createObject) ∧
      apply ttlOf subscribed a c = f.execute c.1 false false 0 := by
  rw [apply, executeApplyCc_proceeds known runs, fresh]
  cases found : a.cce.view with
  | some v =>
    exact ⟨a.cce.prepared subscribed, prepared_toObjectEntry, prepared_onObject found, rfl⟩
  | none =>
    exact ⟨(a.cce.prepared subscribed).createDirtyPayloadFromCommand c.1, prepared_toObjectEntry,
      created_onObject, rfl⟩

theorem apply_view (known : Known a.cce.toObjectEntry)
    (undisturbed : Undisturbed ttlOf subscribed a c) :
    (apply ttlOf subscribed a c).cce.toObjectEntry = a.cce.toObjectEntry ∧
      (apply ttlOf subscribed a c).cce.view =
        if a.cce.proceeds ttlOf c.1 c.2 then c.1.executed (a.cce.view.getD c.1.createObject)
        else a.cce.view := by
  obtain ⟨fresh, held⟩ := undisturbed
  by_cases runs : a.cce.proceeds ttlOf c.1 c.2 = true
  · obtain ⟨f, same, on, eq⟩ := apply_executes subscribed known fresh runs
    rw [eq] at held ⊢
    rw [if_pos runs, ← same]
    exact execute_view (by rwa [same]) on held
  · rw [if_neg runs, apply, executeApplyCc_idle known (by simpa using runs)]
    exact ⟨createDirty_toObjectEntry, createDirty_view⟩

/-- A command does what it does to a copy exactly if it is unharmed. -/
theorem apply_next_iff (known : Known a.cce.toObjectEntry)
    (undisturbed : Undisturbed ttlOf subscribed a c) :
    (apply ttlOf subscribed a c).cce.view = c.1.next a.cce.view ↔ Unharmed ttlOf a.cce c := by
  rw [(apply_view known undisturbed).2, Unharmed, proceeds, undisturbed.1]
  cases a.cce.view with
  | some v =>
    cases proceeds : c.1.proceedOnExistentObject <;>
      cases reset : a.cce.ttlReset ttlOf c.1 c.2 <;>
      simp [ObjectCommand.next, ObjectCommand.executed, proceeds]
  | none =>
    by_cases write : c.1.executeOn c.1.createObject = .write <;>
      cases proceeds : c.1.proceedOnNonExistentObject <;>
      cases reset : a.cce.ttlReset ttlOf c.1 c.2 <;>
      simp [ObjectCommand.next, ObjectCommand.executed, proceeds, write]

/-- The final `PostWriteCc`: with a timestamp it leaves what the commands do to a copy of
the object, and with 0 the committed object. -/
def CommitsInOrder (ttlOf : V → Option Nat) (subscribed : Bool) (a : Applied V)
    (cs : List (ObjectCommand V × Nat)) : Prop :=
  let after := (applyAll ttlOf subscribed a cs).cce
  let object := cs.foldl (fun object c => c.1.next object) a.cce.curPayload
  (∀ ts, a.cce.commitTs < ts →
    let committed := (after.executePostWriteCc ts).1
    committed.curPayload = object ∧ committed.payloadStatus = statusOf object ∧
      committed.commitTs = ts) ∧
  let aborted := (after.executePostWriteCc 0).1
  aborted.curPayload = a.cce.curPayload ∧ aborted.payloadStatus = a.cce.payloadStatus ∧
    aborted.commitTs = a.cce.commitTs

theorem commitsInOrder_iff (known : Known a.cce.toObjectEntry) {cs : List (ObjectCommand V × Nat)}
    (same : (applyAll ttlOf subscribed a cs).cce.toObjectEntry = a.cce.toObjectEntry) :
    CommitsInOrder ttlOf subscribed a cs ↔
      (applyAll ttlOf subscribed a cs).cce.view =
        cs.foldl (fun object c => c.1.next object) a.cce.curPayload := by
  have known' : Known (applyAll ttlOf subscribed a cs).cce.toObjectEntry := by rwa [same]
  constructor
  · rintro ⟨commits, -⟩
    have := (commits (a.cce.commitTs + 1) (by omega)).1
    rwa [executePostWriteCc_commit known' (by rw [same]; omega)] at this
  · intro shown
    refine ⟨?_, ?_⟩
    · intro ts newer
      rw [executePostWriteCc_commit known' (by rwa [same]), shown]
      exact ⟨rfl, rfl, rfl⟩
    · rw [executePostWriteCc_abort, same]
      exact ⟨rfl, rfl, rfl⟩

section
variable {cs : List (ObjectCommand V × Nat)}

theorem applyAll_snoc (xs : List (ObjectCommand V × Nat)) :
    applyAll ttlOf subscribed a (xs ++ [c]) =
      apply ttlOf subscribed (applyAll ttlOf subscribed a xs) c := by
  simp [applyAll]

theorem applyAll_toObjectEntry (known : Known a.cce.toObjectEntry)
    (undisturbed : ∀ xs c ys, cs = xs ++ c :: ys →
      Undisturbed ttlOf subscribed (applyAll ttlOf subscribed a xs) c) :
    (applyAll ttlOf subscribed a cs).cce.toObjectEntry = a.cce.toObjectEntry := by
  induction cs using List.reverseRecOn with
  | nil => rfl
  | append_singleton xs c ih =>
    have same := ih fun zs d ys eq => undisturbed zs d (ys ++ [c]) (by simp [eq])
    rw [applyAll_snoc, (apply_view (by rwa [same]) (undisturbed xs c [] rfl)).1, same]

end

end

/-- A transaction on a committed object that may end after any of its commands does to it
what the commands do to a copy, exactly if no command is harmed. -/
theorem object_transaction_iff (ttlOf : V → Option Nat) (subscribed : Bool) (a : Applied V)
    (cs : List (ObjectCommand V × Nat)) (known : Known a.cce.toObjectEntry)
    (clean : a.cce.dirty = .nonExistent)
    (undisturbed : ∀ xs c ys, cs = xs ++ c :: ys →
      Undisturbed ttlOf subscribed (applyAll ttlOf subscribed a xs) c) :
    (∀ xs ys, cs = xs ++ ys → xs ≠ [] → CommitsInOrder ttlOf subscribed a xs) ↔
      ∀ xs c ys, cs = xs ++ c :: ys → Unharmed ttlOf (applyAll ttlOf subscribed a xs).cce c := by
  have same : ∀ xs ys, cs = xs ++ ys →
      (applyAll ttlOf subscribed a xs).cce.toObjectEntry = a.cce.toObjectEntry := by
    intro xs ys eq
    apply applyAll_toObjectEntry known
    intro zs c ws split
    exact undisturbed zs c (ws ++ ys) (by simp [eq, split])
  have start : a.cce.view = a.cce.curPayload := by rw [view, clean]
  have step : ∀ xs c ys, cs = xs ++ c :: ys →
      ((applyAll ttlOf subscribed a (xs ++ [c])).cce.view =
          c.1.next (applyAll ttlOf subscribed a xs).cce.view ↔
        Unharmed ttlOf (applyAll ttlOf subscribed a xs).cce c) := by
    intro xs c ys eq
    rw [applyAll_snoc]
    exact apply_next_iff (by rwa [same xs _ eq]) (undisturbed xs c ys eq)
  constructor
  · intro commits
    have shown : ∀ xs ys, cs = xs ++ ys → (applyAll ttlOf subscribed a xs).cce.view =
        xs.foldl (fun object c => c.1.next object) a.cce.curPayload := by
      intro xs ys eq
      by_cases first : xs = []
      · subst first
        exact start
      · exact (commitsInOrder_iff known (same xs ys eq)).mp (commits xs ys eq first)
    intro xs c ys eq
    rw [← step xs c ys eq, shown (xs ++ [c]) ys (by simp [eq]), shown xs (c :: ys) eq,
      List.foldl_append]
    rfl
  · rintro unharmed xs ys eq -
    rw [commitsInOrder_iff known (same xs ys eq)]
    induction xs using List.reverseRecOn generalizing ys with
    | nil => exact start
    | append_singleton xs c ih =>
      have eq' : cs = xs ++ c :: ys := by simp [eq]
      rw [(step xs c ys eq').mpr (unharmed xs c ys eq'), ih (c :: ys) eq', List.foldl_append]
      rfl

/-- Appends to a list; `executeOn` is what its execution tells. -/
def push (onMissing : Bool) (result : ExecResult) (n : Nat) : ObjectCommand (List Nat) where
  isOverwrite := false
  createObject := []
  commitOn := fun ns => some (ns ++ [n])
  isDelete := false
  proceedOnExistentObject := true
  proceedOnNonExistentObject := onMissing
  willSetTTL := false
  executeOn := fun _ => result
  deletes := by simp

def deletedAt (ts : Nat) : Applied (List Nat) where
  cce :=
    { curPayload := none, commitTs := ts, payloadStatus := .deleted, bufferedCmds := []
      dirty := .nonExistent, forwardEntry := none }
  writeLock := false

/-- The first command makes the list if its execution tells that it writes; the second is
only for existing lists. -/
def twoPushes (result : ExecResult) : List (ObjectCommand (List Nat) × Nat) :=
  [(push true result 1, 0), (push false .write 2, 0)]

theorem at_twoPushes {result : ExecResult}
    {P : List (ObjectCommand (List Nat) × Nat) → ObjectCommand (List Nat) × Nat → Prop}
    (first : P [] (push true result 1, 0))
    (second : P [(push true result 1, 0)] (push false .write 2, 0)) :
    ∀ xs c ys, twoPushes result = xs ++ c :: ys → P xs c := by
  intro xs c ys eq
  match xs with
  | [] =>
    cases eq
    exact first
  | [_] =>
    cases eq
    exact second
  | _ :: _ :: xs => simp [twoPushes] at eq

theorem twoPushes_commit_in_order :
    CommitsInOrder (fun _ => none) true (deletedAt 3) (twoPushes .write) := by
  refine (object_transaction_iff (fun _ => none) true (deletedAt 3) (twoPushes .write) rfl rfl
    (at_twoPushes ⟨rfl, rfl⟩ ⟨rfl, rfl⟩)).mpr ?_ _ [] (by simp) (by simp [twoPushes])
  refine at_twoPushes ?_ ?_
  · exact (rfl : (push true .write 1).executeOn [] = .write)
  · intro proceeds
    cases proceeds

/-- A command that fails on a missing object leaves the one made for it, and the next
command, which is only for existing objects, writes to it. -/
theorem failed_command_leaves_object :
    (∀ xs c ys, twoPushes .fail = xs ++ c :: ys →
      Undisturbed (fun _ => none) true (applyAll (fun _ => none) true (deletedAt 3) xs) c) ∧
    ¬ CommitsInOrder (fun _ => none) true (deletedAt 3) (twoPushes .fail) := by
  refine ⟨at_twoPushes ⟨rfl, rfl⟩ ⟨rfl, rfl⟩, ?_⟩
  rintro ⟨commits, -⟩
  have := (commits 4 (by decide)).1
  revert this
  decide

end ObjectCce

end TxService
