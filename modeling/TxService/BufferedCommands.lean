import TxService.Protocol

/-!
# Buffered commands of an object entry

A command names the version it applies to, so one that arrives early waits in a list sorted by the
version it makes, until its predecessor or a record from the store arrives.
-/

namespace TxService

universe u

/-- `TxCommand` of `tx_command.h`, by what it does: the object it makes when there
is none, and the object it leaves, none when it deletes it. -/
structure TxCommand (V : Type u) where
  isOverwrite : Bool
  createObject : V
  commitOn : V → Option V

/-- The commands of one transaction on one object. -/
structure TxnCmd (V : Type u) where
  objVersion : Nat
  newVersion : Nat
  ignorePreviousVersion : Bool
  cmdList : List (TxCommand V)

structure ObjectEntry (V : Type u) where
  curPayload : Option V
  commitTs : Nat
  payloadStatus : RecordStatus
  bufferedCmds : List (TxnCmd V)

variable {V : Type u}

def TxCommand.commit (payload : Option V) (cmd : TxCommand V) : Option V :=
  cmd.commitOn (payload.getD cmd.createObject)

namespace TxnCmd

/-- A transaction that ignores the previous version starts from an empty object,
unless its first command overwrites the object anyway. -/
def base (c : TxnCmd V) (payload : Option V) : Option V :=
  match c.cmdList with
  | [] => payload
  | first :: _ => if c.ignorePreviousVersion && !first.isOverwrite then none else payload

def commit (c : TxnCmd V) (payload : Option V) : Option V :=
  c.cmdList.foldl TxCommand.commit (c.base payload)

end TxnCmd

/-- `std::lower_bound` splits the sorted list in two at the new version. -/
def emplaceTxnCmd (txnCmdList : List (TxnCmd V)) (c : TxnCmd V) : List (TxnCmd V) :=
  let before := txnCmdList.takeWhile fun d => decide (d.newVersion < c.newVersion)
  let lb := txnCmdList.dropWhile fun d => decide (d.newVersion < c.newVersion)
  if lb.head?.map TxnCmd.newVersion = some c.newVersion then txnCmdList
  else if c.ignorePreviousVersion then c :: lb
  else before ++ c :: lb

/-- The loop of `TryCommitBufferedCommands`: the version and the payload it reaches,
and the commands it leaves in the list. -/
def commitInOrder (curVer : Nat) (payload : Option V) :
    List (TxnCmd V) → Nat × Option V × List (TxnCmd V)
  | [] => (curVer, payload, [])
  | c :: rest =>
    let curVer := if c.ignorePreviousVersion then c.objVersion else curVer
    if c.objVersion ≠ curVer then (curVer, payload, c :: rest)
    else commitInOrder c.newVersion (c.commit payload) rest

def statusOf (payload : Option V) : RecordStatus :=
  if payload.isNone then .deleted else .normal

namespace ObjectEntry

/-- A new entry: nothing is known of the key. -/
def initial : ObjectEntry V := ⟨none, 0, .unknown, []⟩

def setCommitTsPayloadStatus (e : ObjectEntry V) (ts : Nat) (status : RecordStatus) :
    ObjectEntry V :=
  if e.commitTs < ts then { e with commitTs := ts, payloadStatus := status } else e

@[simp] theorem setCommitTsPayloadStatus_curPayload (e : ObjectEntry V) (ts : Nat)
    (status : RecordStatus) : (e.setCommitTsPayloadStatus ts status).curPayload = e.curPayload := by
  unfold setCommitTsPayloadStatus
  split <;> rfl

@[simp] theorem setCommitTsPayloadStatus_bufferedCmds (e : ObjectEntry V) (ts : Nat)
    (status : RecordStatus) :
    (e.setCommitTsPayloadStatus ts status).bufferedCmds = e.bufferedCmds := by
  unfold setCommitTsPayloadStatus
  split <;> rfl

def tryCommitBufferedCommands (e : ObjectEntry V) (curVer : Nat) : ObjectEntry V × Nat :=
  let (curVer, payload, rest) := commitInOrder curVer e.curPayload e.bufferedCmds
  ({ e with curPayload := payload, bufferedCmds := rest }, curVer)

/-- What both callers of `TryCommitBufferedCommands` do with the version it reaches. -/
def commitBufferedCommands (e : ObjectEntry V) (curVer : Nat) : ObjectEntry V :=
  let (committed, curVer) := e.tryCommitBufferedCommands curVer
  committed.setCommitTsPayloadStatus curVer (statusOf committed.curPayload)

def emplaceAndCommitBufferedTxnCommand (e : ObjectEntry V) (c : TxnCmd V) : ObjectEntry V :=
  let emplaced := { e with bufferedCmds := emplaceTxnCmd e.bufferedCmds c }
  if c.ignorePreviousVersion || e.payloadStatus != .unknown then
    emplaced.commitBufferedCommands e.commitTs
  else emplaced.setCommitTsPayloadStatus e.commitTs e.payloadStatus

/-- `Execute(ReplayLogCc)` on the entry of the command's key. -/
def executeReplayLogCc (e : ObjectEntry V) (c : TxnCmd V) : ObjectEntry V :=
  if e.commitTs < c.newVersion then e.emplaceAndCommitBufferedTxnCommand c else e

/-- `BackFill` of a record from the store; a leader drops what is still waiting. -/
def backFill (e : ObjectEntry V) (schemaTs : Nat) (leader : Bool) (commitTs : Nat)
    (status : RecordStatus) (record : Option V) : ObjectEntry V :=
  if 1 < commitTs ∧ commitTs < schemaTs then e
  else if status = .unknown then e
  else if e.payloadStatus = .unknown then
    let filled := e.setCommitTsPayloadStatus commitTs status
    let committed := { filled with
      curPayload := record.or filled.curPayload
      bufferedCmds := filled.bufferedCmds.dropWhile fun c => decide (c.objVersion < commitTs)
      }.commitBufferedCommands commitTs
    if leader then { committed with bufferedCmds := [] } else committed
  else e

end ObjectEntry

theorem ObjectEntry.commitBufferedCommands_eq (e : ObjectEntry V) (curVer : Nat) :
    e.commitBufferedCommands curVer =
      let r := commitInOrder curVer e.curPayload e.bufferedCmds
      { e with curPayload := r.2.1, bufferedCmds := r.2.2 }.setCommitTsPayloadStatus r.1
        (statusOf r.2.1) :=
  rfl

theorem commitInOrder_cons (curVer : Nat) (payload : Option V) (c : TxnCmd V)
    (cmds : List (TxnCmd V)) :
    commitInOrder curVer payload (c :: cmds) =
      if c.ignorePreviousVersion = false ∧ c.objVersion ≠ curVer then (curVer, payload, c :: cmds)
      else commitInOrder c.newVersion (c.commit payload) cmds := by
  cases overwrites : c.ignorePreviousVersion <;> simp [commitInOrder, overwrites]

theorem emplaceTxnCmd_subset (cmds : List (TxnCmd V)) (c : TxnCmd V) :
    emplaceTxnCmd cmds c ⊆ c :: cmds := by
  have back : cmds.dropWhile (fun d => decide (d.newVersion < c.newVersion)) ⊆ cmds :=
    (List.dropWhile_sublist _).subset
  have front : cmds.takeWhile (fun d => decide (d.newVersion < c.newVersion)) ⊆ cmds :=
    (List.takeWhile_sublist _).subset
  unfold emplaceTxnCmd
  simp only
  split
  · exact List.subset_cons_self c cmds
  · split
    · exact List.cons_subset_cons c back
    · apply List.append_subset.mpr
      exact ⟨List.subset_cons_of_subset c front, List.cons_subset_cons c back⟩

structure ObjectVersion (V : Type u) where
  version : Nat
  payload : Option V

namespace ObjectVersion

def next (s : ObjectVersion V) (c : TxnCmd V) : ObjectVersion V :=
  ⟨c.newVersion, c.commit s.payload⟩

/-- The version that committing the commands in order ends in. -/
def after (s : ObjectVersion V) (cmds : List (TxnCmd V)) : ObjectVersion V :=
  cmds.foldl next s

/-- An entry that holds this version and waits for the predecessors of some commands. -/
def entry (s : ObjectVersion V) (waiting : List (TxnCmd V)) : ObjectEntry V :=
  ⟨s.payload, s.version, statusOf s.payload, waiting⟩

theorem after_append (s : ObjectVersion V) (xs ys : List (TxnCmd V)) :
    s.after (xs ++ ys) = (s.after xs).after ys :=
  List.foldl_append

end ObjectVersion

/-- Commands that lead from one version to the next. -/
inductive Consecutive : Nat → List (TxnCmd V) → Prop
  | nil (v : Nat) : Consecutive v []
  | cons {v : Nat} {c : TxnCmd V} {cmds : List (TxnCmd V)} :
      c.objVersion = v → v < c.newVersion → Consecutive c.newVersion cmds → Consecutive v (c :: cmds)

namespace Consecutive

variable {v : Nat} {cmds xs ys : List (TxnCmd V)} {c : TxnCmd V}

theorem above (h : Consecutive v cmds) (hc : c ∈ cmds) :
    v ≤ c.objVersion ∧ c.objVersion < c.newVersion := by
  induction h with
  | nil => cases hc
  | cons eq lt _ ih =>
    cases hc with
    | head => omega
    | tail _ hc =>
      have := ih hc
      omega

variable {s : ObjectVersion V}

theorem drop_front (h : Consecutive s.version (xs ++ ys)) :
    Consecutive (s.after xs).version ys := by
  induction xs generalizing s with
  | nil => exact h
  | cons x xs ih =>
    cases h with
    | cons _ _ rest => exact ih (s := s.next _) rest

theorem version_le_after (h : Consecutive s.version (xs ++ ys)) :
    s.version ≤ (s.after xs).version := by
  induction xs generalizing s with
  | nil => exact Nat.le_refl _
  | cons x xs ih =>
    cases h with
    | cons _ lt rest => exact Nat.le_trans (Nat.le_of_lt lt) (ih (s := s.next _) rest)

theorem front_below (h : Consecutive s.version (xs ++ ys)) (hc : c ∈ xs) :
    c.newVersion ≤ (s.after xs).version := by
  induction xs generalizing s with
  | nil => cases hc
  | cons x xs ih =>
    cases h with
    | cons _ _ rest =>
      cases hc with
      | head => exact version_le_after (s := s.next _) rest
      | tail _ hc => exact ih (s := s.next _) rest hc

theorem around (h : Consecutive v (xs ++ c :: ys)) :
    (∀ d ∈ xs, d.newVersion < c.newVersion) ∧ ∀ d ∈ ys, c.newVersion < d.newVersion := by
  have later : Consecutive (ObjectVersion.after ⟨v, none⟩ xs).version (c :: ys) := h.drop_front
  constructor
  · intro d hd
    have := h.front_below (s := ⟨v, none⟩) hd
    have := later.above List.mem_cons_self
    omega
  · intro d hd
    cases later with
    | cons _ _ rest =>
      have := rest.above hd
      omega

end Consecutive

/-- The commands of a chain that have been delivered, by the versions they make. -/
def arrived (delivered : List Nat) (cmds : List (TxnCmd V)) : List (TxnCmd V) :=
  cmds.filter fun c => decide (c.newVersion ∈ delivered)

section
variable {v : Nat} {delivered : List Nat} {xs ys cmds : List (TxnCmd V)} {c : TxnCmd V}

@[simp] theorem mem_arrived : c ∈ arrived delivered cmds ↔ c ∈ cmds ∧ c.newVersion ∈ delivered := by
  simp [arrived]

theorem arrived_append :
    arrived delivered (xs ++ ys) = arrived delivered xs ++ arrived delivered ys :=
  List.filter_append ..

theorem arrived_none : arrived [] cmds = [] := by
  simp [arrived]

theorem arrived_cons_self (h : c.newVersion ∈ delivered) :
    arrived delivered (c :: cmds) = c :: arrived delivered cmds := by
  simp [arrived, h]

theorem arrived_cons_missing (h : c.newVersion ∉ delivered) :
    arrived delivered (c :: cmds) = arrived delivered cmds := by
  simp [arrived, h]

theorem arrived_other (h : ∀ d ∈ cmds, d.newVersion ≠ v) :
    arrived (v :: delivered) cmds = arrived delivered cmds := by
  apply List.filter_congr
  intro d hd
  simp [h d hd]

theorem split_sorted {p : TxnCmd V → Bool} (front : ∀ d ∈ xs, p d = true)
    (back : ∀ d ∈ ys, p d = false) :
    (xs ++ ys).takeWhile p = xs ∧ (xs ++ ys).dropWhile p = ys := by
  rw [List.takeWhile_append_of_pos front, List.dropWhile_append_of_pos front]
  cases ys with
  | nil => simp
  | cons y ys => simp [back y List.mem_cons_self]

/-- Where `EmplaceTxnCmd` finds the place of a command of the chain. -/
theorem lower_bound_arrived (delivered : List Nat) (h : Consecutive v (xs ++ c :: ys)) :
    (arrived delivered (xs ++ c :: ys)).takeWhile (fun d => decide (d.newVersion < c.newVersion)) =
        arrived delivered xs ∧
      (arrived delivered (xs ++ c :: ys)).dropWhile
          (fun d => decide (d.newVersion < c.newVersion)) =
        arrived delivered (c :: ys) := by
  obtain ⟨before, after⟩ := h.around
  rw [arrived_append]
  apply split_sorted
  · intro d hd
    exact decide_eq_true (before d (mem_arrived.mp hd).1)
  · intro d hd
    apply decide_eq_false
    cases (mem_arrived.mp hd).1 with
    | head => omega
    | tail _ hd =>
      have := after d hd
      omega

/-- A command that has not arrived finds no command of its version in the list. -/
theorem no_duplicate (h : Consecutive v (xs ++ c :: ys)) (new : c.newVersion ∉ delivered) :
    (arrived delivered (c :: ys)).head?.map TxnCmd.newVersion ≠ some c.newVersion := by
  rw [arrived_cons_missing new]
  intro same
  obtain ⟨d, hd, eq⟩ := Option.map_eq_some_iff.mp same
  have := h.around.2 d (mem_arrived.mp (List.mem_of_mem_head? hd)).1
  omega

theorem emplace_arrived (h : Consecutive v (xs ++ c :: ys)) (plain : c.ignorePreviousVersion = false) :
    emplaceTxnCmd (arrived delivered (xs ++ c :: ys)) c =
      arrived (c.newVersion :: delivered) (xs ++ c :: ys) := by
  obtain ⟨front, back⟩ := lower_bound_arrived delivered h
  simp only [emplaceTxnCmd, front, back, plain]
  by_cases dup : c.newVersion ∈ delivered
  · have same : arrived (c.newVersion :: delivered) (xs ++ c :: ys) =
        arrived delivered (xs ++ c :: ys) := by
      apply List.filter_congr
      intro d _
      by_cases eq : d.newVersion = c.newVersion
      · simp [eq, dup]
      · simp [eq]
    simp [arrived_cons_self dup, same]
  · obtain ⟨before, after⟩ := h.around
    rw [if_neg (no_duplicate h dup), arrived_append, arrived_cons_self List.mem_cons_self,
      arrived_other fun d hd => Nat.ne_of_lt (before d hd),
      arrived_other fun d hd => Nat.ne_of_gt (after d hd), arrived_cons_missing dup]
    rfl

theorem emplace_overwrite (h : Consecutive v (xs ++ c :: ys))
    (overwrites : c.ignorePreviousVersion = true) (new : c.newVersion ∉ delivered) :
    emplaceTxnCmd (arrived delivered (xs ++ c :: ys)) c = c :: arrived delivered ys := by
  obtain ⟨_, back⟩ := lower_bound_arrived delivered h
  simp only [emplaceTxnCmd, back, overwrites, if_neg (no_duplicate h new), if_true]
  rw [arrived_cons_missing new]

/-- A command that ignores the previous version is committed from any version. -/
theorem commitInOrder_overwrite (curVer : Nat) (payload : Option V)
    (overwrites : c.ignorePreviousVersion = true) :
    commitInOrder curVer payload (c :: cmds) =
      commitInOrder c.newVersion (c.commit payload) cmds := by
  simp [commitInOrder, overwrites]

/-- The loop commits the commands up to the first that has not arrived. -/
theorem commitInOrder_arrived (s : ObjectVersion V) (h : Consecutive s.version cmds)
    (plain : ∀ c ∈ cmds, c.newVersion ∈ delivered → c.ignorePreviousVersion = false) :
    ∃ now later, cmds = now ++ later ∧
      (∀ c ∈ later.head?, c.newVersion ∉ delivered) ∧
      commitInOrder s.version s.payload (arrived delivered cmds) =
        ((s.after now).version, (s.after now).payload, arrived delivered later) := by
  induction cmds generalizing s with
  | nil => exact ⟨[], [], rfl, by simp, rfl⟩
  | cons c cmds ih =>
    cases h with
    | cons eq lt rest =>
      by_cases hc : c.newVersion ∈ delivered
      · obtain ⟨now, later, rfl, stop, reached⟩ :=
          ih (s.next c) rest fun d hd => plain d (List.mem_cons_of_mem _ hd)
        refine ⟨c :: now, later, rfl, stop, ?_⟩
        rw [arrived_cons_self hc, commitInOrder]
        simp only [plain c List.mem_cons_self hc, eq, Bool.false_eq_true, if_false, ne_eq,
          not_true_eq_false]
        exact reached
      · refine ⟨[], c :: cmds, rfl, by simpa using hc, ?_⟩
        cases waiting : arrived delivered (c :: cmds) with
        | nil => rfl
        | cons d ds =>
          -- The next one to commit has not arrived, so the list starts beyond it.
          have hd : d ∈ arrived delivered cmds := by
            rw [← arrived_cons_missing hc, waiting]
            exact List.mem_cons_self
          obtain ⟨mem, here⟩ := mem_arrived.mp hd
          have beyond := rest.above mem
          have gap : d.objVersion ≠ s.version := by omega
          rw [commitInOrder]
          simp only [plain d (List.mem_cons_of_mem _ mem) here, Bool.false_eq_true, if_false]
          rw [if_pos gap]
          rfl

end

end TxService
