import TxService.BufferedCommands
import TxService.Transition

/-!
# Replayed commands converge

The records of a chain of commands arrive in any order and any number of times, and the store may
answer with any version of the chain before, between or after them.
-/

namespace TxService

open Transition (Reachable)

universe u
variable {V : Type u}

/-- The log of one key. What a command that ignores the previous version leaves
does not depend on the object it finds. -/
structure CommandChain (V : Type u) where
  start : ObjectVersion V
  cmds : List (TxnCmd V)
  linked : Consecutive start.version cmds
  selfContained : ∀ c ∈ cmds, c.ignorePreviousVersion = true → ∀ p q, c.commit p = c.commit q

/-- A key while its log is replayed. -/
structure ReplayState (V : Type u) where
  entry : ObjectEntry V
  /-- How many commands of the chain are in the store's record, until it is filled in. -/
  fetch : Option Nat
  leader : Bool
  /-- The versions made by the commands delivered so far. -/
  delivered : List Nat

inductive ReplayEvent (V : Type u) where
  | deliver (c : TxnCmd V)
  | backFill
  | lead

namespace CommandChain

variable (chain : CommandChain V)

def committed (n : Nat) : ObjectVersion V := chain.start.after (chain.cmds.take n)

def exec (schemaTs : Nat) (w : ReplayState V) : ReplayEvent V → ReplayState V
  | .deliver c =>
    { w with entry := w.entry.executeReplayLogCc c, delivered := c.newVersion :: w.delivered }
  | .backFill =>
    match w.fetch with
    | none => w
    | some n =>
      { w with
        entry := w.entry.backFill schemaTs w.leader (chain.committed n).version
          (statusOf (chain.committed n).payload) (chain.committed n).payload
        fetch := none }
  | .lead => { w with leader := true }

/-- A node takes the lead when the log has been replayed: what arrives after that
has arrived before. -/
def Enabled (w : ReplayState V) : ReplayEvent V → Prop
  | .deliver c => c ∈ chain.cmds ∧ (w.leader = true → c.newVersion ∈ w.delivered)
  | .backFill | .lead => True

def Step (schemaTs : Nat) (w : ReplayState V) (a : ReplayEvent V) (w' : ReplayState V) : Prop :=
  chain.Enabled w a ∧ w' = chain.exec schemaTs w a

/-- The entry holds the chain's first version, or is new and waits for the store. -/
def Initial (w : ReplayState V) : Prop :=
  w.delivered = [] ∧
    (w.entry = chain.start.entry [] ∨ w.entry = .initial ∧ w.fetch.isSome = true)

def Reached (schemaTs : Nat) : ReplayState V → Prop :=
  Reachable chain.Initial (chain.Step schemaTs)

theorem Reached.exec {chain : CommandChain V} {schemaTs : Nat} {w : ReplayState V}
    (h : chain.Reached schemaTs w) (a : ReplayEvent V) (enabled : chain.Enabled w a) :
    chain.Reached schemaTs (chain.exec schemaTs w a) :=
  h.next ⟨enabled, rfl⟩

/-- The entry is at the version that some commands of the chain end in, and the
next one has not arrived. -/
structure SettledAt (e : ObjectEntry V) (delivered : List Nat) (done rest : List (TxnCmd V)) :
    Prop where
  split : chain.cmds = done ++ rest
  entry : e = (chain.start.after done).entry (arrived delivered rest)
  next : ∀ c ∈ rest.head?, c.newVersion ∉ delivered
  plain : ∀ c ∈ rest, c.newVersion ∈ delivered → c.ignorePreviousVersion = false

structure Awaiting (w : ReplayState V) : Prop where
  status : w.entry.payloadStatus = .unknown
  commitTs : w.entry.commitTs = 0
  payload : w.fetch.isSome = true → w.entry.curPayload = none
  buffered : w.entry.bufferedCmds = arrived w.delivered chain.cmds
  plain : ∀ c ∈ chain.cmds, c.newVersion ∈ w.delivered → c.ignorePreviousVersion = false

inductive Replaying (w : ReplayState V) : Prop
  | settled {done rest : List (TxnCmd V)} :
      chain.SettledAt w.entry w.delivered done rest → Replaying w
  | awaiting : chain.Awaiting w → Replaying w
  | cutShort {c : TxnCmd V} :
      w.leader = true → c ∈ chain.cmds → c.newVersion ∉ w.delivered → Replaying w

variable {chain} {e : ObjectEntry V} {delivered : List Nat} {done rest xs ys : List (TxnCmd V)}
  {c : TxnCmd V} {w : ReplayState V}

theorem linked_rest (split : chain.cmds = done ++ rest) :
    Consecutive (chain.start.after done).version rest :=
  Consecutive.drop_front (split ▸ chain.linked)

/-- Committing what has arrived, from an entry that holds a version of the chain. -/
theorem commitBufferedCommands_arrived (split : chain.cmds = done ++ rest)
    (payload : e.curPayload = (chain.start.after done).payload)
    (buffered : e.bufferedCmds = arrived delivered rest)
    (plain : ∀ c ∈ rest, c.newVersion ∈ delivered → c.ignorePreviousVersion = false) :
    ∃ now later, rest = now ++ later ∧
      (∀ c ∈ later.head?, c.newVersion ∉ delivered) ∧
      e.commitBufferedCommands (chain.start.after done).version =
        { e with
          curPayload := (chain.start.after (done ++ now)).payload
          bufferedCmds := arrived delivered later }.setCommitTsPayloadStatus
            (chain.start.after (done ++ now)).version
            (statusOf (chain.start.after (done ++ now)).payload) := by
  obtain ⟨now, later, eq, stop, reached⟩ :=
    commitInOrder_arrived (chain.start.after done) (linked_rest split) plain
  refine ⟨now, later, eq, stop, ?_⟩
  simp only [ObjectEntry.commitBufferedCommands, ObjectEntry.tryCommitBufferedCommands, payload,
    buffered, reached, ObjectVersion.after_append]

theorem newer_entry {t : ObjectVersion V} (newer : e.commitTs < t.version) :
    ({ e with curPayload := t.payload, bufferedCmds := rest }.setCommitTsPayloadStatus t.version
      (statusOf t.payload)) = t.entry rest := by
  simp [ObjectEntry.setCommitTsPayloadStatus, newer, ObjectVersion.entry]

theorem same_entry {t : ObjectVersion V} {waiting : List (TxnCmd V)} (h : e = t.entry waiting) :
    ({ e with curPayload := t.payload, bufferedCmds := rest }.setCommitTsPayloadStatus t.version
      (statusOf t.payload)) = t.entry rest := by
  simp [ObjectEntry.setCommitTsPayloadStatus, h, ObjectVersion.entry]

theorem committed_newer (split : chain.cmds = done ++ c :: xs ++ ys) :
    (chain.start.after done).version < (chain.start.after (done ++ c :: xs)).version := by
  have linked : Consecutive (chain.start.after done).version (c :: xs ++ ys) :=
    linked_rest (by simpa using split)
  have below := linked.front_below List.mem_cons_self
  have above := linked.above List.mem_cons_self
  rw [ObjectVersion.after_append]
  omega

/-- A command that ignores the previous version settles any entry it is new to. -/
theorem overwrite_settles (split : chain.cmds = done ++ (xs ++ c :: ys))
    (buffered : e.bufferedCmds = arrived delivered (xs ++ c :: ys))
    (overwrites : c.ignorePreviousVersion = true) (older : e.commitTs < c.newVersion)
    (plain : ∀ d ∈ xs ++ c :: ys, d.newVersion ∈ delivered → d.ignorePreviousVersion = false) :
    ∃ done rest, chain.SettledAt (e.emplaceAndCommitBufferedTxnCommand c)
      (c.newVersion :: delivered) done rest := by
  have linked := linked_rest split
  have here : c ∈ chain.cmds := by simp [split]
  have new : c.newVersion ∉ delivered := fun dup => by
    simpa [overwrites] using plain c (by simp) dup
  have other : ∀ d ∈ ys, d.newVersion ≠ c.newVersion := fun d hd =>
    Nat.ne_of_gt (linked.around.2 d hd)
  have later : chain.cmds = (done ++ xs ++ [c]) ++ ys := by simp [split]
  -- The command leaves the same object here as it does after its predecessors.
  have next : chain.start.after (done ++ xs ++ [c]) = ⟨c.newVersion, c.commit e.curPayload⟩ := by
    rw [ObjectVersion.after_append]
    exact congrArg _ (chain.selfContained c here overwrites _ _)
  have plainLater : ∀ d ∈ ys, d.newVersion ∈ c.newVersion :: delivered →
      d.ignorePreviousVersion = false := fun d hd hv =>
    plain d (by simp [hd]) ((List.mem_cons.mp hv).resolve_left (other d hd))
  obtain ⟨now, rest, rfl, stop, reached⟩ := commitInOrder_arrived _ (linked_rest later) plainLater
  have newer : e.commitTs < (chain.start.after (done ++ xs ++ [c] ++ now)).version := by
    have := (linked_rest later).version_le_after
    rw [ObjectVersion.after_append]
    rw [next] at this ⊢
    exact Nat.lt_of_lt_of_le older this
  refine ⟨done ++ xs ++ [c] ++ now, rest, by simp [split], ?_, stop, ?_⟩
  · rw [← newer_entry newer]
    rw [arrived_other other, next] at reached
    simp only [ObjectEntry.emplaceAndCommitBufferedTxnCommand, overwrites, Bool.true_or, if_true,
      ObjectEntry.commitBufferedCommands, ObjectEntry.tryCommitBufferedCommands, buffered,
      emplace_overwrite linked overwrites new, commitInOrder_overwrite _ _ overwrites, reached,
      ObjectVersion.after_append, next]
  · intro d hd
    exact plainLater d (List.mem_append_right _ hd)

/-- Committing what has arrived settles an entry that is at a version of the chain. -/
theorem commit_settles (split : chain.cmds = done ++ rest)
    (plain : ∀ d ∈ rest, d.newVersion ∈ delivered → d.ignorePreviousVersion = false) :
    ∃ done' rest', chain.SettledAt
      (((chain.start.after done).entry (arrived delivered rest)).commitBufferedCommands
        (chain.start.after done).version) delivered done' rest' := by
  obtain ⟨now, later, rfl, stop, reached⟩ := commitBufferedCommands_arrived
    (e := (chain.start.after done).entry (arrived delivered rest)) split rfl rfl plain
  refine ⟨done ++ now, later, by simp [split], ?_, stop, fun d hd =>
    plain d (List.mem_append_right _ hd)⟩
  rw [reached]
  cases now with
  | nil =>
    rw [List.append_nil]
    exact same_entry rfl
  | cons d now => exact newer_entry (committed_newer (by simpa using split))

theorem statusOf_known (payload : Option V) : statusOf payload ≠ .unknown := by
  cases payload <;> simp [statusOf]

theorem plain_deliver {v : Nat} (linked : Consecutive v (xs ++ c :: ys))
    (here : c.ignorePreviousVersion = false)
    (plain : ∀ d ∈ xs ++ c :: ys, d.newVersion ∈ delivered → d.ignorePreviousVersion = false) :
    ∀ d ∈ xs ++ c :: ys, d.newVersion ∈ c.newVersion :: delivered →
      d.ignorePreviousVersion = false := by
  intro d hd hv
  obtain ⟨before, after⟩ := linked.around
  cases List.mem_cons.mp hv with
  | inr hv => exact plain d hd hv
  | inl same =>
    cases List.mem_append.mp hd with
    | inl hd =>
      have := before d hd
      omega
    | inr hd =>
      cases hd with
      | head => exact here
      | tail _ hd =>
        have := after d hd
        omega

/-- A delivery of a command that is already in the entry's version is discarded. -/
theorem SettledAt.discard (h : chain.SettledAt e delivered done rest) (hc : c ∈ done) :
    chain.SettledAt (e.executeReplayLogCc c) (c.newVersion :: delivered) done rest := by
  have linked : Consecutive chain.start.version (done ++ rest) := h.split ▸ chain.linked
  have below := linked.front_below hc
  have other : ∀ d ∈ rest, d.newVersion ≠ c.newVersion := by
    intro d hd
    have := linked.drop_front.above hd
    omega
  have guard : ¬ e.commitTs < c.newVersion := by
    rw [h.entry]
    exact Nat.not_lt.mpr below
  constructor
  · exact h.split
  · rw [arrived_other other, ObjectEntry.executeReplayLogCc, if_neg guard]
    exact h.entry
  · intro d hd hv
    have mem := other d (List.mem_of_mem_head? hd)
    exact h.next d hd ((List.mem_cons.mp hv).resolve_left mem)
  · intro d hd hv
    exact h.plain d hd ((List.mem_cons.mp hv).resolve_left (other d hd))

theorem SettledAt.deliver (h : chain.SettledAt e delivered done rest) (hc : c ∈ chain.cmds) :
    ∃ done rest, chain.SettledAt (e.executeReplayLogCc c) (c.newVersion :: delivered) done rest := by
  rw [h.split, List.mem_append] at hc
  cases hc with
  | inl hc => exact ⟨done, rest, h.discard hc⟩
  | inr hc =>
    have linked := linked_rest h.split
    have guard : e.commitTs < c.newVersion := by
      have := linked.above hc
      rw [h.entry]
      exact Nat.lt_of_le_of_lt this.1 this.2
    obtain ⟨xs, ys, rfl⟩ := List.append_of_mem hc
    have buffered : e.bufferedCmds = arrived delivered (xs ++ c :: ys) := by rw [h.entry]; rfl
    rw [ObjectEntry.executeReplayLogCc, if_pos guard]
    by_cases overwrites : c.ignorePreviousVersion = true
    · exact overwrite_settles h.split buffered overwrites guard h.plain
    · rw [Bool.not_eq_true] at overwrites
      have known : (e.payloadStatus != .unknown) = true := by
        rw [h.entry, bne_iff_ne]
        exact statusOf_known _
      have emplaced := congrArg (fun l => { e with bufferedCmds := emplaceTxnCmd l c }) buffered
      simp only [emplace_arrived linked overwrites] at emplaced
      simp only [ObjectEntry.emplaceAndCommitBufferedTxnCommand, overwrites, known, Bool.or_true,
        if_true, emplaced]
      rw [h.entry]
      exact commit_settles h.split (plain_deliver linked overwrites h.plain)

theorem Awaiting.deliver (h : chain.Awaiting w) (hc : c ∈ chain.cmds) (schemaTs : Nat) :
    chain.Replaying (chain.exec schemaTs w (.deliver c)) := by
  obtain ⟨xs, ys, split⟩ := List.append_of_mem hc
  have linked : Consecutive chain.start.version (xs ++ c :: ys) := split ▸ chain.linked
  have guard : w.entry.commitTs < c.newVersion := by
    have := chain.linked.above hc
    have := h.commitTs
    omega
  have buffered := h.buffered
  have plain := h.plain
  rw [split] at buffered plain
  have executed : w.entry.executeReplayLogCc c = w.entry.emplaceAndCommitBufferedTxnCommand c :=
    if_pos guard
  by_cases overwrites : c.ignorePreviousVersion = true
  · have whole : chain.cmds = [] ++ (xs ++ c :: ys) := split
    obtain ⟨done, rest, settled⟩ := overwrite_settles whole buffered overwrites guard plain
    apply Replaying.settled
    rw [← executed] at settled
    exact settled
  · rw [Bool.not_eq_true] at overwrites
    have emplaced : w.entry.executeReplayLogCc c =
        { w.entry with bufferedCmds := arrived (c.newVersion :: w.delivered) chain.cmds } := by
      simp [executed, ObjectEntry.emplaceAndCommitBufferedTxnCommand, overwrites, h.status,
        ObjectEntry.setCommitTsPayloadStatus, h.commitTs, buffered, split,
        emplace_arrived linked overwrites]
    apply Replaying.awaiting
    constructor
    all_goals simp only [exec, emplaced]
    · exact h.status
    · exact h.commitTs
    · exact h.payload
    · rw [split]
      exact plain_deliver linked overwrites plain

end CommandChain

end TxService
