import TxService.CommandReplay

/-!
# Replay converges

The store's answer settles an entry that waits for it, and comes too late for
any other. So in every run the entry is settled or waiting, and once every
command has arrived it is at the end of the chain.
-/

namespace TxService

open Transition (Reachable)

universe u
variable {V : Type u}

namespace CommandChain

variable {chain : CommandChain V} {e : ObjectEntry V} {delivered : List Nat}
  {done rest xs ys : List (TxnCmd V)} {c : TxnCmd V} {w : ReplayState V}

/-- The entry with the store's record in it, before the commands after it are committed. -/
def filled (w : ReplayState V) (t : ObjectVersion V) (later : List (TxnCmd V)) : ObjectEntry V :=
  { w.entry.setCommitTsPayloadStatus t.version (statusOf t.payload) with
    curPayload := t.payload
    bufferedCmds := arrived w.delivered later }

/-- `BackFill` drops the commands that are in the record already. -/
theorem drop_stored (delivered : List Nat) (split : chain.cmds = done ++ rest) :
    (arrived delivered chain.cmds).dropWhile
        (fun c => decide (c.objVersion < (chain.start.after done).version)) =
      arrived delivered rest := by
  have linked : Consecutive chain.start.version (done ++ rest) := split ▸ chain.linked
  rw [split, arrived_append]
  apply And.right
  apply split_sorted
  · intro c hc
    have below := linked.front_below (mem_arrived.mp hc).1
    have above := linked.above (List.mem_append_left _ (mem_arrived.mp hc).1)
    exact decide_eq_true (by omega)
  · intro c hc
    have above := linked.drop_front.above (mem_arrived.mp hc).1
    exact decide_eq_false (by omega)

/-- Nothing is left in the list when every command has arrived. -/
theorem nothing_missing (split : chain.cmds = done ++ rest)
    (next : ∀ c ∈ rest.head?, c.newVersion ∉ delivered)
    (all : ∀ c ∈ chain.cmds, c.newVersion ∈ delivered) : rest = [] := by
  cases rest with
  | nil => rfl
  | cons c rest => exact absurd (all c (by simp [split])) (next c rfl)

theorem Awaiting.fill (h : chain.Awaiting w) (split : chain.cmds = done ++ rest) :
    ∃ now later, rest = now ++ later ∧ (∀ c ∈ later.head?, c.newVersion ∉ w.delivered) ∧
      (filled w (chain.start.after done) rest).commitBufferedCommands
          (chain.start.after done).version =
        if now = [] then filled w (chain.start.after done) later
        else (chain.start.after (done ++ now)).entry (arrived w.delivered later) := by
  have plain : ∀ c ∈ rest, c.newVersion ∈ w.delivered → c.ignorePreviousVersion = false :=
    fun c hc => h.plain c (by simp [split, hc])
  obtain ⟨now, later, eq, stop, reached⟩ := commitBufferedCommands_arrived
    (e := filled w (chain.start.after done) rest) split rfl rfl plain
  have version : (filled w (chain.start.after done) rest).commitTs =
      (chain.start.after done).version := by
    simp only [filled, ObjectEntry.setCommitTsPayloadStatus, h.commitTs]
    split
    · rfl
    · simp only [h.commitTs]
      omega
  refine ⟨now, later, eq, stop, ?_⟩
  rw [reached]
  cases now with
  | nil =>
    rw [if_pos rfl, List.append_nil, ObjectEntry.setCommitTsPayloadStatus, if_neg (by simp [version])]
    rfl
  | cons d now =>
    rw [if_neg (by simp)]
    apply newer_entry
    rw [version]
    exact committed_newer (by simpa [eq] using split)

/-- With the record in it the entry is settled, or, when even the record is at
timestamp zero, waits as before. -/
theorem Awaiting.filled_replaying (h : chain.Awaiting w) (split : chain.cmds = done ++ rest)
    (next : ∀ c ∈ rest.head?, c.newVersion ∉ w.delivered) :
    chain.Replaying
      { w with entry := filled w (chain.start.after done) rest, fetch := none } := by
  by_cases zero : (chain.start.after done).version = 0
  · have none_done : done = [] := by
      cases done with
      | nil => rfl
      | cons c done =>
        have linked : Consecutive chain.start.version (c :: done ++ rest) := split ▸ chain.linked
        have := linked.front_below List.mem_cons_self
        have := linked.above List.mem_cons_self
        omega
    subst none_done
    have kept : w.entry.setCommitTsPayloadStatus (chain.start.after []).version
        (statusOf (chain.start.after []).payload) = w.entry :=
      if_neg (by rw [zero]; omega)
    apply Replaying.awaiting
    constructor
    all_goals simp only [filled, kept]
    · exact h.status
    · exact h.commitTs
    · simp
    · rw [split]
      rfl
    · exact h.plain
  · have newer : w.entry.commitTs < (chain.start.after done).version := by
      have := h.commitTs
      omega
    apply Replaying.settled
    constructor
    · exact split
    · simp only [filled, ObjectEntry.setCommitTsPayloadStatus, if_pos newer]
      rfl
    · exact next
    · exact fun c hc => h.plain c (by simp [split, hc])

theorem Awaiting.backFill_entry (h : chain.Awaiting w) {n : Nat} (fetch : w.fetch = some n)
    (schemaTs : Nat) :
    w.entry.backFill schemaTs w.leader (chain.committed n).version
        (statusOf (chain.committed n).payload) (chain.committed n).payload =
      if 1 < (chain.committed n).version ∧ (chain.committed n).version < schemaTs then w.entry
      else
        let committed := (filled w (chain.committed n)
          (chain.cmds.drop n)).commitBufferedCommands (chain.committed n).version
        if w.leader then { committed with bufferedCmds := [] } else committed := by
  have known := statusOf_known (chain.committed n).payload
  have dropped := drop_stored w.delivered (List.take_append_drop n chain.cmds).symm
  have empty := h.payload (by rw [fetch]; rfl)
  simp only [ObjectEntry.backFill, if_neg known, h.status, if_true, filled,
    ObjectEntry.setCommitTsPayloadStatus_curPayload,
    ObjectEntry.setCommitTsPayloadStatus_bufferedCmds, h.buffered, empty, Option.or_none]
  rw [committed, dropped]

theorem clear_nothing {leader : Bool} (h : leader = true → e.bufferedCmds = []) :
    (if leader = true then { e with bufferedCmds := [] } else e) = e := by
  split
  · rename_i leads
    rw [← h leads]
  · rfl

theorem Awaiting.backFill (h : chain.Awaiting w) {n : Nat} (fetch : w.fetch = some n)
    (whole : w.leader = true → ∀ c ∈ chain.cmds, c.newVersion ∈ w.delivered) (schemaTs : Nat) :
    chain.Replaying (chain.exec schemaTs w .backFill) := by
  have split : chain.cmds = chain.cmds.take n ++ chain.cmds.drop n :=
    (List.take_append_drop n chain.cmds).symm
  simp only [exec, fetch, h.backFill_entry fetch]
  split
  · exact .awaiting ⟨h.status, h.commitTs, by simp, h.buffered, h.plain⟩
  · obtain ⟨now, later, eq, stop, reached⟩ := h.fill split
    have later_split : chain.cmds = (chain.cmds.take n ++ now) ++ later := by
      rw [List.append_assoc, ← eq]
      exact split
    have buffered : ((filled w (chain.committed n) (chain.cmds.drop n)).commitBufferedCommands
        (chain.committed n).version).bufferedCmds = arrived w.delivered later := by
      rw [committed, reached]
      split <;> rfl
    rw [clear_nothing fun leads => by
      rw [buffered, nothing_missing later_split stop (whole leads)]; rfl]
    rw [committed, reached]
    by_cases stays : now = []
    · subst stays
      rw [if_pos rfl]
      exact h.filled_replaying (by simpa using later_split) stop
    · rw [if_neg stays]
      apply Replaying.settled
      constructor
      · exact later_split
      · rfl
      · exact stop
      · exact fun c hc => h.plain c (by rw [later_split]; exact List.mem_append_right _ hc)

theorem SettledAt.backFill (h : chain.SettledAt e delivered done rest) (schemaTs : Nat)
    (leader : Bool) (commitTs : Nat) (status : RecordStatus) (record : Option V) :
    e.backFill schemaTs leader commitTs status record = e := by
  have known : e.payloadStatus ≠ .unknown := by
    rw [h.entry]
    exact statusOf_known _
  simp only [ObjectEntry.backFill, if_neg known, ite_self]

theorem initial_replaying (h : chain.Initial w) : chain.Replaying w := by
  obtain ⟨none_delivered, start | ⟨start, fetch⟩⟩ := h
  · apply Replaying.settled
    constructor
    · exact (List.nil_append chain.cmds).symm
    · rw [start, none_delivered, arrived_none]
      rfl
    all_goals simp [none_delivered]
  · apply Replaying.awaiting
    constructor
    all_goals simp [start, none_delivered, ObjectEntry.initial, arrived_none]

theorem step_replaying {schemaTs : Nat} {a : ReplayEvent V} {w' : ReplayState V}
    (step : chain.Step schemaTs w a w') (h : chain.Replaying w) : chain.Replaying w' := by
  obtain ⟨enabled, rfl⟩ := step
  cases a with
  | deliver c =>
    cases h with
    | settled settled =>
      obtain ⟨done, rest, settled⟩ := settled.deliver enabled.1
      exact .settled settled
    | awaiting awaiting => exact awaiting.deliver enabled.1 schemaTs
    | cutShort leads hd missing =>
      refine .cutShort leads hd fun hv => ?_
      cases List.mem_cons.mp hv with
      | inl same => exact missing (same ▸ enabled.2 leads)
      | inr hv => exact missing hv
  | lead =>
    cases h with
    | settled settled => exact .settled settled
    | awaiting awaiting =>
      exact .awaiting ⟨awaiting.status, awaiting.commitTs, awaiting.payload, awaiting.buffered,
        awaiting.plain⟩
    | cutShort _ hd missing => exact .cutShort rfl hd missing
  | backFill =>
    cases fetch : w.fetch with
    | none =>
      simp only [exec, fetch]
      exact h
    | some n =>
      cases h with
      | settled settled =>
        simp only [exec, fetch, settled.backFill]
        exact .settled settled
      | awaiting awaiting =>
        by_cases whole : w.leader = true → ∀ c ∈ chain.cmds, c.newVersion ∈ w.delivered
        · exact awaiting.backFill fetch whole schemaTs
        · simp only [Classical.not_imp, not_forall] at whole
          obtain ⟨leads, c, hc, missing⟩ := whole
          simp only [exec, fetch]
          exact .cutShort leads hc missing
      | cutShort leads hd missing =>
        simp only [exec, fetch]
        exact .cutShort leads hd missing

/-- Once every command has arrived, in whatever order and however often, and the
entry is known, it is at the end of the chain with nothing left to wait for. -/
theorem replay_converges {schemaTs : Nat} (h : chain.Reached schemaTs w)
    (all : ∀ c ∈ chain.cmds, c.newVersion ∈ w.delivered)
    (known : w.entry.payloadStatus ≠ .unknown) :
    w.entry = (chain.start.after chain.cmds).entry [] := by
  have replaying := Reachable.invariant h (fun _ => initial_replaying)
    (fun _ _ _ => step_replaying)
  cases replaying with
  | settled settled =>
    have none_left := nothing_missing settled.split settled.next all
    have split := settled.split
    rw [none_left, List.append_nil] at split
    rw [settled.entry, none_left, split]
    rfl
  | awaiting awaiting => exact absurd awaiting.status known
  | cutShort _ hc missing => exact absurd (all _ hc) missing

/-- A counter's log: it goes up, is made anew, and goes up again. -/
def increment : TxCommand Nat := ⟨false, 0, fun n => some (n + 1)⟩

def counterCmd (version : Nat) (ignorePreviousVersion : Bool) : TxnCmd Nat :=
  ⟨version, version + 1, ignorePreviousVersion, [increment]⟩

def counterLog : CommandChain Nat where
  start := ⟨1, none⟩
  cmds := [counterCmd 1 false, counterCmd 2 true, counterCmd 3 false]
  linked := .cons rfl (by decide) (.cons rfl (by decide) (.cons rfl (by decide) (.nil _)))
  selfContained := by
    intro c hc overwrites p q
    simp only [List.mem_cons, List.not_mem_nil, or_false] at hc
    rcases hc with rfl | rfl | rfl
    · cases overwrites
    · rfl
    · cases overwrites

/-- The last record arrives first, the store answers before the second one. -/
def scattered : ReplayState Nat :=
  [.deliver (counterCmd 3 false), .deliver (counterCmd 1 false), .backFill,
    .deliver (counterCmd 1 false), .deliver (counterCmd 2 true)].foldl
    (counterLog.exec 0) ⟨.initial, some 0, false, []⟩

theorem replay_converges_scattered :
    scattered.entry.payloadStatus ≠ .unknown ∧
      scattered.entry = (counterLog.start.after counterLog.cmds).entry [] := by
  have start : counterLog.Reached 0 ⟨.initial, some 0, false, []⟩ := .start ⟨rfl, .inr ⟨rfl, rfl⟩⟩
  have first := start.exec (.deliver (counterCmd 3 false)) ⟨by simp [counterLog], nofun⟩
  have second := first.exec (.deliver (counterCmd 1 false)) ⟨by simp [counterLog], nofun⟩
  have third := second.exec .backFill trivial
  have fourth := third.exec (.deliver (counterCmd 1 false)) ⟨by simp [counterLog], nofun⟩
  have reached : counterLog.Reached 0 scattered :=
    fourth.exec (.deliver (counterCmd 2 true)) ⟨by simp [counterLog], nofun⟩
  have all : ∀ c ∈ counterLog.cmds, c.newVersion ∈ scattered.delivered := by
    simp [counterLog, scattered, exec, counterCmd]
  exact ⟨by decide, replay_converges reached all (by decide)⟩

end CommandChain

end TxService
