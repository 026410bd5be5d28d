import Mathlib.Order.MinMax
import Mathlib.Order.Nat
import TxService.Transition

/-!
# The consistency timestamp of a standby

The primary announces a timestamp with the sequence id each group had reached by then, and the
standby reports the largest timestamp for which it has everything.
-/

namespace TxService

open Transition

/-- `StandbySequenceGroup`. -/
structure StandbySequenceGroup where
  initialSequenceId : Nat
  lastConsistentStandbySequenceId : Nat
  lastStandbyConsistentTs : Nat
  pendingStandbyConsistentTs : List (Nat × Nat)
  subscribed : Bool

/-- A group together with the messages that it has taken under its subscription. -/
structure ReceivingGroup extends StandbySequenceGroup where
  received : List Nat

/-- The announcements of a primary: in each group, the sequence id of a timestamp, which
increases with it. -/
structure Announcements where
  idOf : Nat → Nat → Option Nat
  positive : ∀ g, idOf g 0 = none
  ascending : ∀ g t t' id id', t ≤ t' → idOf g t = some id → idOf g t' = some id' → id ≤ id'

namespace ReceivingGroup

/-- `Subscribe`, of a group that is new or has been used before. -/
def subscribe (initialSeqId : Nat) : ReceivingGroup where
  initialSequenceId := initialSeqId
  lastConsistentStandbySequenceId := initialSeqId - 1
  lastStandbyConsistentTs := 0
  pendingStandbyConsistentTs := []
  subscribed := true
  received := []

/-- The loop over the parked announcements: those up to `last` count. -/
def popPending (last : Nat) : Nat → List (Nat × Nat) → Nat × List (Nat × Nat)
  | ts, [] => (ts, [])
  | ts, p :: pending =>
    if p.1 ≤ last then popPending last (max ts p.2) pending else (ts, p :: pending)

/-- `UpdateLastReceivedStandbySequenceId` on the group of the message. -/
def updateLastReceived (grp : ReceivingGroup) (seqId : Nat) (outOfSync : Bool) : ReceivingGroup :=
  if !grp.subscribed then grp
  else if seqId < grp.initialSequenceId then grp
  else if outOfSync then { grp with subscribed := false }
  else
    let last := max seqId grp.lastConsistentStandbySequenceId
    let popped := popPending last grp.lastStandbyConsistentTs grp.pendingStandbyConsistentTs
    { grp with
      lastConsistentStandbySequenceId := last
      lastStandbyConsistentTs := popped.1
      pendingStandbyConsistentTs := popped.2
      received := seqId :: grp.received }

/-- `UpdateStandbyConsistentTs` on the group of the announcement. -/
def updateConsistentTs (grp : ReceivingGroup) (seqId consistentTs : Nat) : ReceivingGroup :=
  if !grp.subscribed then grp
  else if seqId ≤ grp.lastConsistentStandbySequenceId then
    { grp with lastStandbyConsistentTs := max grp.lastStandbyConsistentTs consistentTs }
  else
    { grp with
      pendingStandbyConsistentTs := grp.pendingStandbyConsistentTs ++ [(seqId, consistentTs)] }

/-- Everything up to the last consistent id has been received, the timestamp of the group
is one that was announced with such an id, and what is parked was announced. -/
structure Consistent (announced : Announcements) (g : Nat) (grp : ReceivingGroup) : Prop where
  received : ∀ m, grp.initialSequenceId ≤ m → m ≤ grp.lastConsistentStandbySequenceId →
    m ∈ grp.received
  reached : ∀ id t, t ≤ grp.lastStandbyConsistentTs → announced.idOf g t = some id →
    id ≤ grp.lastConsistentStandbySequenceId
  parked : ∀ p ∈ grp.pendingStandbyConsistentTs, announced.idOf g p.2 = some p.1

variable {announced : Announcements} {g : Nat} {grp : ReceivingGroup}

theorem Consistent.subscribe {seqId : Nat} (positive : 0 < seqId) :
    (ReceivingGroup.subscribe seqId).Consistent announced g where
  received := by
    intro m start stop
    have : seqId ≤ m := start
    have : m ≤ seqId - 1 := stop
    omega
  reached := by
    intro id t ht h
    rw [Nat.le_zero.mp ht, announced.positive] at h
    cases h
  parked := fun p hp => absurd hp List.not_mem_nil

/-- A timestamp that was announced with an id up to `last` may be taken into the maximum. -/
theorem reached_max {last ts id₀ t₀ : Nat} (h₀ : announced.idOf g t₀ = some id₀) (le : id₀ ≤ last)
    (reached : ∀ id t, t ≤ ts → announced.idOf g t = some id → id ≤ last) :
    ∀ id t, t ≤ max ts t₀ → announced.idOf g t = some id → id ≤ last := by
  intro id t ht h
  rcases le_max_iff.mp ht with ht | ht
  · exact reached id t ht h
  · exact Nat.le_trans (announced.ascending g t t₀ id id₀ ht h h₀) le

theorem popPending_consistent {last ts : Nat} {pending : List (Nat × Nat)}
    (parked : ∀ p ∈ pending, announced.idOf g p.2 = some p.1)
    (reached : ∀ id t, t ≤ ts → announced.idOf g t = some id → id ≤ last) :
    (∀ id t, t ≤ (popPending last ts pending).1 → announced.idOf g t = some id → id ≤ last) ∧
    ∀ p ∈ (popPending last ts pending).2, announced.idOf g p.2 = some p.1 := by
  induction pending generalizing ts with
  | nil => exact ⟨reached, parked⟩
  | cons p rest ih =>
    simp only [popPending]
    split
    · next le =>
      exact ih (fun q hq => parked q (List.mem_cons_of_mem p hq))
        (reached_max (parked p List.mem_cons_self) le reached)
    · exact ⟨reached, parked⟩

theorem Consistent.updateLastReceived (h : grp.Consistent announced g) {seqId : Nat}
    {outOfSync : Bool} (inOrder : outOfSync = false → grp.subscribed = true →
      seqId ≤ grp.lastConsistentStandbySequenceId + 1) :
    (grp.updateLastReceived seqId outOfSync).Consistent announced g := by
  unfold ReceivingGroup.updateLastReceived
  split
  · exact h
  · next subscribed =>
    split
    · exact h
    · cases outOfSync with
      | true => exact ⟨h.received, h.reached, h.parked⟩
      | false =>
        have next := inOrder rfl (by simpa using subscribed)
        have le := Nat.le_max_right seqId grp.lastConsistentStandbySequenceId
        obtain ⟨reached, parked⟩ := popPending_consistent h.parked
          (fun id t ht ha => Nat.le_trans (h.reached id t ht ha) le)
        refine ⟨fun m start stop => ?_, reached, parked⟩
        have stop : m ≤ max seqId grp.lastConsistentStandbySequenceId := stop
        by_cases here : m = seqId
        · exact here ▸ List.mem_cons_self
        · exact List.mem_cons_of_mem _ (h.received m start (by omega))

theorem Consistent.updateConsistentTs (h : grp.Consistent announced g) {seqId ts : Nat}
    (sent : announced.idOf g ts = some seqId) :
    (grp.updateConsistentTs seqId ts).Consistent announced g := by
  unfold ReceivingGroup.updateConsistentTs
  split
  · exact h
  · split
    · next le => exact ⟨h.received, reached_max sent le h.reached, h.parked⟩
    · refine ⟨h.received, h.reached, fun p hp => ?_⟩
      rcases List.mem_append.mp hp with hp | hp
      · exact h.parked p hp
      · rw [List.mem_singleton.mp hp]
        exact sent

end ReceivingGroup

/-- `standby_sequence_grps_` of a shard. -/
structure StandbyShard where
  groups : List (Nat × ReceivingGroup)

inductive StandbyEvent where
  | subscribe (seqGrp seqId : Nat)
  | receive (seqGrp seqId : Nat) (outOfSync : Bool)
  | announce (seqGrp seqId consistentTs : Nat)
  | resetStandbySequence

/-- What the primary sends: sequence ids start at 1, and announcements are its own. -/
def Announcements.Sends (announced : Announcements) : StandbyEvent → Prop
  | .subscribe _ seqId => 0 < seqId
  | .announce seqGrp seqId consistentTs => announced.idOf seqGrp consistentTs = some seqId
  | .receive _ _ _ | .resetStandbySequence => True

namespace StandbyShard

def initial : StandbyShard := ⟨[]⟩

/-- `standby_sequence_grps_.at`, which throws when there is no such group. -/
def update (s : StandbyShard) (seqGrp : Nat) (f : ReceivingGroup → ReceivingGroup) :
    Option StandbyShard :=
  if seqGrp ∈ s.groups.map Prod.fst then
    some ⟨s.groups.map fun e => if e.1 = seqGrp then (e.1, f e.2) else e⟩
  else none

/-- `SubsribeToPrimaryNode`. -/
def subscribe (s : StandbyShard) (seqGrp seqId : Nat) : StandbyShard :=
  (s.update seqGrp fun _ => .subscribe seqId).getD
    ⟨(seqGrp, ReceivingGroup.subscribe seqId) :: s.groups⟩

def step (s : StandbyShard) : StandbyEvent → Option StandbyShard
  | .subscribe seqGrp seqId => some (s.subscribe seqGrp seqId)
  | .receive seqGrp seqId outOfSync => s.update seqGrp (·.updateLastReceived seqId outOfSync)
  | .announce seqGrp seqId consistentTs => s.update seqGrp (·.updateConsistentTs seqId consistentTs)
  | .resetStandbySequence => some ⟨[]⟩

/-- The message does not run ahead of one that its group still misses. -/
def InOrder (s : StandbyShard) : StandbyEvent → Prop
  | .receive seqGrp seqId false => ∀ e ∈ s.groups, e.1 = seqGrp → e.2.subscribed = true →
      seqId ≤ e.2.lastConsistentStandbySequenceId + 1
  | _ => True

variable {announced : Announcements} {s t : StandbyShard}

def Consistent (announced : Announcements) (s : StandbyShard) : Prop :=
  ∀ e ∈ s.groups, e.2.Consistent announced e.1

theorem Consistent.update {seqGrp : Nat} {f : ReceivingGroup → ReceivingGroup}
    (h : s.Consistent announced) (ht : s.update seqGrp f = some t)
    (keeps : ∀ e ∈ s.groups, e.1 = seqGrp → (f e.2).Consistent announced e.1) :
    t.Consistent announced := by
  unfold StandbyShard.update at ht
  split at ht
  · cases ht
    intro e he
    obtain ⟨e', he', rfl⟩ := List.mem_map.mp he
    split
    · next here => exact keeps e' he' here
    · exact h e' he'
  · cases ht

theorem Consistent.subscribe {seqGrp seqId : Nat} (h : s.Consistent announced)
    (positive : 0 < seqId) : (s.subscribe seqGrp seqId).Consistent announced := by
  unfold StandbyShard.subscribe
  cases e : s.update seqGrp fun _ => .subscribe seqId with
  | some t => exact h.update e fun _ _ _ => .subscribe positive
  | none =>
    intro e he
    rcases List.mem_cons.mp he with rfl | he
    · exact .subscribe positive
    · exact h e he

theorem Consistent.step {a : StandbyEvent} (h : s.Consistent announced) (ht : s.step a = some t)
    (sent : announced.Sends a) (inOrder : s.InOrder a) : t.Consistent announced := by
  cases a with
  | subscribe seqGrp seqId =>
    cases ht
    exact h.subscribe sent
  | receive seqGrp seqId outOfSync =>
    rw [StandbyShard.step] at ht
    refine h.update ht fun e he here => (h e he).updateLastReceived fun inSync => ?_
    subst inSync
    exact inOrder e he here
  | announce seqGrp seqId ts =>
    rw [StandbyShard.step] at ht
    refine h.update ht fun e he here => (h e he).updateConsistentTs ?_
    exact here ▸ sent
  | resetStandbySequence =>
    cases ht
    exact fun e he => absurd he List.not_mem_nil

end StandbyShard

end TxService
