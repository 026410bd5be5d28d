import TxService.StandbyForward
import TxService.Transition

/-!
# A standby converges to the primary

One key at the primary and at a subscribed standby, over any run of commands, commits and
deliveries. A message waits with the entry the primary had right after the commit.
-/

namespace TxService

open Transition

universe u

variable {V : Type u}

/-- One key at the primary and at a subscribed standby. `successful` is
`HasSuccessfulCommand` of the transaction that holds the write lock. -/
structure Forwarding (V : Type u) where
  primary : ObjectCce V
  locked : Bool
  successful : Bool
  sent : List (ForwardRequest V × ObjectEntry V)
  standby : ObjectEntry V

inductive ForwardAction (V : Type u)
  | apply (cmd : ObjectCommand V) (now : Nat)
  | applyAndCommit (cmd : ObjectCommand V) (now clock : Nat)
  | postWrite (commitTs : Nat)
  | abort
  | recycleKeyLock
  | deliver

namespace Forwarding

/-- Both start with the same entry and no transaction. -/
def start (e : ObjectEntry V) : Forwarding V where
  primary := { e with dirty := .nonExistent, forwardEntry := none }
  locked := false
  successful := false
  sent := []
  standby := e

/-- What the primary leaves after a request, and the message it sent. -/
def after (w : Forwarding V) (cce : ObjectCce V) (message : Option (ForwardRequest V)) :
    Forwarding V :=
  { w with
    primary := cce
    sent := w.sent ++ (message.map fun m => (m, cce.toObjectEntry)).toList }

def applied (w : Forwarding V) (a : Applied V) : Forwarding V :=
  { w.after a.cce a.sent with
    locked := a.writeLock
    successful := a.writeLock && (w.successful || a.objectModified || a.ttlExpired) }

/-- The write lock is released by `PostWriteCc`. -/
def released (w : Forwarding V) (commitTs : Nat) : Forwarding V :=
  let (cce, message) := w.primary.executePostWriteCc commitTs
  { w.after cce message with locked := false, successful := false }

variable (ttlOf : V → Option Nat) (fullEntries : Bool)

def step (w : Forwarding V) : ForwardAction V → Option (Forwarding V)
  | .apply cmd now =>
    some (w.applied (w.primary.executeApplyCc ttlOf true cmd false w.locked now 0))
  | .applyAndCommit cmd now clock =>
    if w.locked then none
    else some (w.applied (w.primary.executeApplyCc ttlOf true cmd true false now clock))
  | .postWrite commitTs =>
    if w.locked ∧ w.primary.commitTs < commitTs then
      some (w.released (if w.successful then commitTs else 0))
    else none
  | .abort => if w.locked then some (w.released 0) else none
  | .recycleKeyLock =>
    if w.locked then none
    else some { w with primary := { w.primary with dirty := .nonExistent, forwardEntry := none } }
  | .deliver =>
    match w.sent with
    | [] => none
    | (m, _) :: rest =>
      some { w with standby := w.standby.executeStandbyForwardCc fullEntries m, sent := rest }

def run (e : ObjectEntry V) (actions : List (ForwardAction V)) : Option (Forwarding V) :=
  actions.foldlM (step ttlOf fullEntries) (start e)

/-- The next message takes the standby to what the primary had right after the commit, and
without messages the standby has what the primary has. -/
def Converges (w : Forwarding V) : Prop :=
  (∀ m snapshot rest, w.sent = (m, snapshot) :: rest →
    let e := w.standby.executeStandbyForwardCc fullEntries m
    e.curPayload = snapshot.curPayload ∧ e.payloadStatus = snapshot.payloadStatus ∧
      e.commitTs = snapshot.commitTs) ∧
  (w.sent = [] →
    w.standby.curPayload = w.primary.curPayload ∧
      w.standby.payloadStatus = w.primary.payloadStatus ∧
      w.standby.commitTs = w.primary.commitTs)

/-- The commands that the standby can repeat from the messages. -/
def Safe (w : Forwarding V) : ForwardAction V → Prop
  | .apply cmd now =>
    w.primary.proceeds ttlOf cmd now = true → w.primary.Repeats ttlOf cmd false now
  | .applyAndCommit cmd now _ =>
    w.primary.proceeds ttlOf cmd now = true → w.primary.Repeats ttlOf cmd true now
  | .postWrite _ | .abort | .recycleKeyLock | .deliver => True

/-- What the messages that wait lead a standby to. -/
def Follows : ObjectEntry V → List (ForwardRequest V × ObjectEntry V) → ObjectEntry V → Prop
  | e, [], last => e = last
  | e, (m, snapshot) :: rest, last =>
    e.executeStandbyForwardCc fullEntries m = snapshot ∧ Follows snapshot rest last

structure Tracked (w : Forwarding V) : Prop where
  mirrored : w.primary.Mirrored
  unlocked : w.locked = false → w.primary.dirty = .nonExistent
  successful : w.successful = true → w.primary.dirty ≠ .nonExistent
  follows : Follows fullEntries w.standby w.sent w.primary.toObjectEntry

section
variable {ttlOf fullEntries} {w t : Forwarding V} {a : Applied V}

theorem follows_snoc {e last next : ObjectEntry V} {m : ForwardRequest V}
    {sent : List (ForwardRequest V × ObjectEntry V)} (h : Follows fullEntries e sent last)
    (applied : last.executeStandbyForwardCc fullEntries m = next) :
    Follows fullEntries e (sent ++ [(m, next)]) next := by
  induction sent generalizing e with
  | nil =>
    cases h
    exact ⟨applied, rfl⟩
  | cons head rest ih => exact ⟨h.1, ih h.2⟩

/-- The primary changes its committed entry only together with a message. -/
theorem Tracked.after (h : Tracked fullEntries w) {cce : ObjectCce V}
    {message : Option (ForwardRequest V)}
    (silent : message = none → cce.toObjectEntry = w.primary.toObjectEntry)
    (follows : ∀ m, message = some m →
      w.primary.toObjectEntry.executeStandbyForwardCc fullEntries m = cce.toObjectEntry) :
    Follows fullEntries w.standby (w.after cce message).sent cce.toObjectEntry := by
  cases message with
  | none =>
    rw [silent rfl, Forwarding.after, Option.map_none, Option.toList_none, List.append_nil]
    exact h.follows
  | some m => exact follows_snoc h.follows (follows m rfl)

theorem Tracked.applied (h : Tracked fullEntries w)
    (forwarded : ObjectCce.Forwarded fullEntries w.primary a) :
    Tracked fullEntries (w.applied a) where
  mirrored := forwarded.mirrored
  unlocked := forwarded.unlocked
  successful := by
    intro successful
    simp only [Forwarding.applied, Bool.and_eq_true, Bool.or_eq_true] at successful
    obtain ⟨held, (before | modified) | expired⟩ := successful
    · exact forwarded.changed held (Or.inr (Or.inr (h.successful before)))
    · exact forwarded.changed held (Or.inl modified)
    · exact forwarded.changed held (Or.inr (Or.inl expired))
  follows := h.after forwarded.silent forwarded.follows

theorem Tracked.aborted (h : Tracked fullEntries w) : Tracked fullEntries (w.released 0) where
  mirrored := ObjectCce.mirrored_clean _ h.mirrored.known h.mirrored.buffered
  unlocked _ := rfl
  successful := by
    intro successful
    cases successful
  follows := h.after (fun _ => rfl) (fun _ sent => by cases sent)

theorem Tracked.committed (h : Tracked fullEntries w) {commitTs : Nat}
    (newer : w.primary.commitTs < commitTs) (successful : w.successful = true) :
    Tracked fullEntries (w.released commitTs) := by
  obtain ⟨mirrored, clean, m, sent, follows⟩ :=
    h.mirrored.commit (h.successful successful) newer fullEntries
  refine ⟨mirrored, fun _ => clean, ?_, h.after ?_ ?_⟩
  · intro successful
    cases successful
  · intro silent
    cases sent.symm.trans silent
  · intro m' sent'
    cases sent.symm.trans sent'
    exact follows

theorem step_tracked {action : ForwardAction V} (h : Tracked fullEntries w)
    (safe : Safe ttlOf w action) (step : step ttlOf fullEntries w action = some t) :
    Tracked fullEntries t := by
  cases action with
  | apply cmd now =>
    cases step
    exact h.applied (ObjectCce.executeApplyCc_forwarded h.mirrored h.unlocked (by simp) safe)
  | applyAndCommit cmd now clock =>
    simp only [Forwarding.step, Option.ite_none_left_eq_some, Option.some.injEq] at step
    obtain ⟨free, rfl⟩ := step
    refine h.applied (ObjectCce.executeApplyCc_forwarded h.mirrored ?_ (fun _ => rfl) safe)
    exact fun _ => h.unlocked (by simpa using free)
  | postWrite commitTs =>
    simp only [Forwarding.step, Option.ite_none_right_eq_some, Option.some.injEq] at step
    obtain ⟨ready, rfl⟩ := step
    split
    · rename_i successful
      exact h.committed ready.2 successful
    · exact h.aborted
  | abort =>
    simp only [Forwarding.step, Option.ite_none_right_eq_some, Option.some.injEq] at step
    obtain ⟨_, rfl⟩ := step
    exact h.aborted
  | recycleKeyLock =>
    simp only [Forwarding.step, Option.ite_none_left_eq_some, Option.some.injEq] at step
    obtain ⟨free, rfl⟩ := step
    have clean := h.unlocked (by simpa using free)
    refine ⟨ObjectCce.mirrored_clean _ h.mirrored.known h.mirrored.buffered, fun _ => rfl, ?_, h.follows⟩
    intro successful
    exact absurd clean (h.successful successful)
  | deliver =>
    simp only [Forwarding.step] at step
    cases sent : w.sent with
    | nil => simp [sent] at step
    | cons head rest =>
      have follows := h.follows
      rw [sent] at follows step
      cases step
      refine ⟨h.mirrored, h.unlocked, h.successful, ?_⟩
      rw [follows.1]
      exact follows.2

theorem Tracked.converges (h : Tracked fullEntries w) : Converges fullEntries w := by
  have follows := h.follows
  constructor
  · intro m snapshot rest sent
    rw [sent] at follows
    rw [follows.1]
    exact ⟨rfl, rfl, rfl⟩
  · intro sent
    rw [sent] at follows
    have same : w.standby = w.primary.toObjectEntry := follows
    rw [same]
    exact ⟨rfl, rfl, rfl⟩

end

/-- The states of a run from a known entry whose commands can all be repeated. -/
def Reached : Forwarding V → Prop :=
  Reachable (fun w => ∃ e : ObjectEntry V, ObjectCce.Known e ∧ e.bufferedCmds = [] ∧ w = start e)
    fun w action t => Safe ttlOf w action ∧ step ttlOf fullEntries w action = some t

/-- In every run whose commands can all be repeated, each message takes the standby to what
the primary had right after the commit, and the last to what it has now. -/
theorem standby_converges (w : Forwarding V) (reached : Reached ttlOf fullEntries w) :
    Converges fullEntries w := by
  have tracked : Tracked fullEntries w := by
    refine reached.invariant ?_ ?_
    · rintro _ ⟨e, known, buffered, rfl⟩
      refine ⟨ObjectCce.mirrored_clean e known buffered, fun _ => rfl, ?_, rfl⟩
      intro successful
      cases successful
    · intro w action t next h
      exact step_tracked h next.1 next.2
  exact tracked.converges

def listAt (ts : Nat) (ns : List Nat) : ObjectEntry (List Nat) :=
  { curPayload := some ns, commitTs := ts, payloadStatus := .normal, bufferedCmds := [] }

theorem push_converges :
    ∃ w, run List.head? false (listAt 3 [9, 1])
        [.applyAndCommit (ObjectCce.push true .write 2) 5 7, .deliver] = some w ∧
      w.standby.curPayload = some [9, 1, 2] ∧ Converges false w := by
  have started : Reached List.head? false (start (listAt 3 [9, 1])) :=
    .start ⟨listAt 3 [9, 1], rfl, rfl, rfl⟩
  have safe : Safe List.head? (start (listAt 3 [9, 1]))
      (.applyAndCommit (ObjectCce.push true .write 2) 5 7) := fun _ => trivial
  have committed := started.next ⟨safe, rfl⟩
  refine ⟨_, rfl, rfl, standby_converges _ _ _ (committed.next (a := .deliver) ?_)⟩
  exact ⟨trivial, rfl⟩

/-- An object that has expired is not retired at the standby: a command that makes a new
one is repeated on the old one, and one that is only for existing objects leaves nothing
to apply, sent or not. -/
theorem expired_object_stays_at_standby :
    (∃ w, run List.head? false (listAt 3 [5, 1])
        [.applyAndCommit (ObjectCce.push true .write 2) 9 7, .deliver] = some w ∧
      w.primary.curPayload = some [2] ∧ w.standby.curPayload = some [5, 1, 2] ∧
      ¬ Converges false w) ∧
    (∃ w, run List.head? false (listAt 3 [5, 1])
        [.applyAndCommit (ObjectCce.push false .write 2) 9 7] = some w ∧
      w.primary.payloadStatus = .deleted ∧ w.standby.payloadStatus = .normal ∧
      ¬ Converges false w) ∧
    ∃ w, run List.head? false (listAt 3 [5, 1])
        [.apply (ObjectCce.push false .write 2) 9, .postWrite 7, .deliver] = some w ∧
      w.primary.payloadStatus = .deleted ∧ w.standby.payloadStatus = .normal ∧
      ¬ Converges false w := by
  refine ⟨⟨_, rfl, rfl, rfl, ?_⟩, ⟨_, rfl, rfl, rfl, ?_⟩, _, rfl, rfl, rfl, ?_⟩
  all_goals
    intro converges
    have same := (converges.2 rfl).1
    revert same
    decide

end Forwarding

end TxService
