import TxService.Transition

/-!
# The oldest snapshot of a shard

A shard keeps the smallest start timestamp of its snapshot transactions, which is only looked for
again when five seconds have passed. It decides which versions are recycled.
-/

namespace TxService

open Transition

universe u

variable {T : Type u}

/-- `UINT64_MAX`. -/
def maxStartTs : Nat := 18446744073709551615

/-- The part of `CcShard` about snapshot transactions; `now` is `Now()`. -/
structure SnapshotShard (T : Type u) where
  now : Nat
  activeSiTxs : List (T × Nat)
  minSiTxStartTs : Nat
  lastScanTxsTs : Nat

namespace SnapshotShard

def updateLocalMinSiTxStartTs (s : SnapshotShard T) : SnapshotShard T :=
  if s.activeSiTxs.length = 0 then { s with minSiTxStartTs := s.now, lastScanTxsTs := s.now }
  else if s.now - s.lastScanTxsTs < 5000000 then s
  else
    { s with
      minSiTxStartTs := s.activeSiTxs.foldl (fun minTs tx => min tx.2 minTs) maxStartTs
      lastScanTxsTs := s.now }

def localMinSiTxStartTs (s : SnapshotShard T) : Nat :=
  if 0 < s.activeSiTxs.length then s.minSiTxStartTs else s.now

def clearActiveSiTxs (s : SnapshotShard T) : SnapshotShard T :=
  { s with activeSiTxs := [], minSiTxStartTs := s.now }

section
variable [DecidableEq T]

def addActiveSiTx (txn : T) (startTs : Nat) (s : SnapshotShard T) : SnapshotShard T :=
  let s :=
    if s.activeSiTxs.any fun tx => tx.1 = txn then s
    else { s with activeSiTxs := (txn, startTs) :: s.activeSiTxs }
  if s.activeSiTxs.length = 1 then { s with minSiTxStartTs := startTs, lastScanTxsTs := s.now }
  else s.updateLocalMinSiTxStartTs

def removeActiveSiTx (txn : T) (s : SnapshotShard T) : SnapshotShard T :=
  { s with activeSiTxs := s.activeSiTxs.filter fun tx => tx.1 ≠ txn }.updateLocalMinSiTxStartTs

end

/-- The kept timestamp is not after the start of an active transaction. -/
def Below (s : SnapshotShard T) : Prop := ∀ tx ∈ s.activeSiTxs, s.minSiTxStartTs ≤ tx.2

variable {s : SnapshotShard T}

theorem foldl_min_le (txs : List (T × Nat)) (start : Nat) :
    txs.foldl (fun minTs tx => min tx.2 minTs) start ≤ start ∧
      ∀ tx ∈ txs, txs.foldl (fun minTs tx => min tx.2 minTs) start ≤ tx.2 := by
  induction txs generalizing start with
  | nil => exact ⟨Nat.le_refl _, fun _ mem => absurd mem List.not_mem_nil⟩
  | cons tx txs ih =>
    obtain ⟨first, rest⟩ := ih (min tx.2 start)
    rw [List.foldl_cons]
    refine ⟨Nat.le_trans first (Nat.min_le_right _ _), ?_⟩
    intro tx' mem
    rcases List.mem_cons.mp mem with rfl | mem
    · exact Nat.le_trans first (Nat.min_le_left _ _)
    · exact rest tx' mem

/-- Looking for the smallest timestamp does not change who is active. -/
theorem updateLocalMinSiTxStartTs_keeps (s : SnapshotShard T) :
    s.updateLocalMinSiTxStartTs.activeSiTxs = s.activeSiTxs ∧
      s.updateLocalMinSiTxStartTs.now = s.now := by
  rw [updateLocalMinSiTxStartTs]
  split
  · exact ⟨rfl, rfl⟩
  split
  · exact ⟨rfl, rfl⟩
  · exact ⟨rfl, rfl⟩

theorem Below.updateLocalMinSiTxStartTs (h : Below s) : Below s.updateLocalMinSiTxStartTs := by
  rw [SnapshotShard.updateLocalMinSiTxStartTs]
  split
  · rename_i nobody
    intro tx mem
    rw [List.length_eq_zero_iff.mp nobody] at mem
    cases mem
  split
  · exact h
  · exact (foldl_min_le s.activeSiTxs maxStartTs).2

/-- What the shard would report is neither after the clock nor after the start of an active
transaction. -/
theorem Below.localMin_le (h : Below s) (started : ∀ tx ∈ s.activeSiTxs, tx.2 ≤ s.now) :
    s.localMinSiTxStartTs ≤ s.now ∧ ∀ tx ∈ s.activeSiTxs, s.localMinSiTxStartTs ≤ tx.2 := by
  rw [localMinSiTxStartTs]
  cases active : s.activeSiTxs with
  | nil => exact ⟨Nat.le_refl _, fun _ mem => absurd mem List.not_mem_nil⟩
  | cons first rest =>
    have mem : first ∈ s.activeSiTxs := active ▸ List.mem_cons_self
    have nonempty : 0 < (first :: rest).length := Nat.succ_pos _
    rw [if_pos nonempty, ← active]
    exact ⟨Nat.le_trans (h first mem) (started first mem), h⟩

section
variable [DecidableEq T] {txn : T} {startTs : Nat}

theorem addActiveSiTx_keeps (startTs : Nat) (new : ∀ tx ∈ s.activeSiTxs, tx.1 ≠ txn) :
    (s.addActiveSiTx txn startTs).activeSiTxs = (txn, startTs) :: s.activeSiTxs ∧
      (s.addActiveSiTx txn startTs).now = s.now := by
  have absent : ¬(s.activeSiTxs.any fun tx => tx.1 = txn) = true := by
    simp only [List.any_eq_true, decide_eq_true_eq, not_exists, not_and]
    exact new
  simp only [addActiveSiTx, if_neg absent]
  split
  · exact ⟨rfl, rfl⟩
  · exact updateLocalMinSiTxStartTs_keeps _

/-- The kept timestamp stays below if transactions come in the order of their start. -/
theorem Below.addActiveSiTx (h : Below s) (new : ∀ tx ∈ s.activeSiTxs, tx.1 ≠ txn)
    (ordered : ∀ tx ∈ s.activeSiTxs, tx.2 ≤ startTs) : Below (s.addActiveSiTx txn startTs) := by
  have absent : ¬(s.activeSiTxs.any fun tx => tx.1 = txn) = true := by
    simp only [List.any_eq_true, decide_eq_true_eq, not_exists, not_and]
    exact new
  simp only [SnapshotShard.addActiveSiTx, if_neg absent]
  cases active : s.activeSiTxs with
  | nil =>
    intro tx mem
    cases List.mem_singleton.mp mem
    exact Nat.le_refl _
  | cons first rest =>
    rw [if_neg (by simp)]
    refine Below.updateLocalMinSiTxStartTs ?_
    intro tx mem
    rw [← active] at mem
    rcases List.mem_cons.mp mem with rfl | mem
    · have before : first ∈ s.activeSiTxs := active ▸ List.mem_cons_self
      exact Nat.le_trans (h first before) (ordered first before)
    · exact h tx mem

theorem removeActiveSiTx_keeps (s : SnapshotShard T) (txn : T) :
    (∀ tx ∈ (s.removeActiveSiTx txn).activeSiTxs, tx ∈ s.activeSiTxs) ∧
      (s.removeActiveSiTx txn).now = s.now := by
  obtain ⟨active, now⟩ := updateLocalMinSiTxStartTs_keeps
    { s with activeSiTxs := s.activeSiTxs.filter fun tx => tx.1 ≠ txn }
  refine ⟨fun tx mem => ?_, now⟩
  rw [removeActiveSiTx, active] at mem
  exact (List.mem_filter.mp mem).1

theorem Below.removeActiveSiTx (h : Below s) : Below (s.removeActiveSiTx txn) := by
  refine Below.updateLocalMinSiTxStartTs ?_
  intro tx mem
  exact h tx (List.mem_filter.mp mem).1

end

end SnapshotShard

/-- A shard, the clock at the previous statistics run and what the run reported. -/
structure SnapshotStats (T : Type u) where
  shard : SnapshotShard T
  statsTs : Nat
  reported : Nat

inductive SnapshotAction (T : Type u)
  | add (txn : T) (startTs : Nat)
  | remove (txn : T)
  | clear
  | advance (ts : Nat)
  | stats

namespace SnapshotStats

variable [DecidableEq T]

def exec (w : SnapshotStats T) : SnapshotAction T → SnapshotStats T
  | .add txn startTs => { w with shard := w.shard.addActiveSiTx txn startTs }
  | .remove txn => { w with shard := w.shard.removeActiveSiTx txn }
  | .clear => { w with shard := w.shard.clearActiveSiTxs }
  | .advance ts => { w with shard := { w.shard with now := ts } }
  | .stats => { w with statsTs := w.shard.now, reported := w.shard.localMinSiTxStartTs }

def Initial (w : SnapshotStats T) : Prop :=
  w.shard.activeSiTxs = [] ∧ w.shard.minSiTxStartTs = 1 ∧ w.shard.lastScanTxsTs = 0 ∧
    w.statsTs = 0 ∧ w.reported = 0

/-- Transaction numbers are new, a start timestamp is not before the previous statistics run, and the
clock does not go back. -/
def Enabled (w : SnapshotStats T) : SnapshotAction T → Prop
  | .add txn startTs => (∀ tx ∈ w.shard.activeSiTxs, tx.1 ≠ txn) ∧ w.statsTs ≤ startTs
  | .advance ts => w.shard.now ≤ ts
  | _ => True

/-- `NewTxn` takes the start timestamp from the clock and adds the transaction right away, so the
timestamp is not after the clock and not before the start of a transaction added earlier. -/
def InOrder (w : SnapshotStats T) : SnapshotAction T → Prop
  | .add _ startTs => startTs ≤ w.shard.now ∧ ∀ tx ∈ w.shard.activeSiTxs, tx.2 ≤ startTs
  | _ => True

def Reached : SnapshotStats T → Prop :=
  Reachable Initial fun w a w' => w.Enabled a ∧ w' = w.exec a

def ReachedInOrder : SnapshotStats T → Prop :=
  Reachable Initial fun w a w' => (w.Enabled a ∧ w.InOrder a) ∧ w' = w.exec a

structure Sound (w : SnapshotStats T) : Prop where
  below : w.shard.Below
  started : ∀ tx ∈ w.shard.activeSiTxs, tx.2 ≤ w.shard.now
  stats : w.reported ≤ w.statsTs
  clock : w.statsTs ≤ w.shard.now
  reported : ∀ tx ∈ w.shard.activeSiTxs, w.reported ≤ tx.2

variable {w : SnapshotStats T}

theorem Sound.exec (h : Sound w) {a : SnapshotAction T} (enabled : w.Enabled a)
    (ordered : w.InOrder a) : Sound (w.exec a) := by
  cases a with
  | add txn startTs =>
    obtain ⟨new, recent⟩ := enabled
    obtain ⟨past, order⟩ := ordered
    obtain ⟨active, now⟩ := SnapshotShard.addActiveSiTx_keeps startTs new
    refine ⟨h.below.addActiveSiTx new order, ?_, h.stats, ?_, ?_⟩
    · intro tx mem
      simp only [SnapshotStats.exec, active, now] at mem ⊢
      rcases List.mem_cons.mp mem with rfl | mem
      · exact past
      · exact h.started tx mem
    · simp only [SnapshotStats.exec, now]
      exact h.clock
    · intro tx mem
      simp only [SnapshotStats.exec, active] at mem ⊢
      rcases List.mem_cons.mp mem with rfl | mem
      · exact Nat.le_trans h.stats recent
      · exact h.reported tx mem
  | remove txn =>
    obtain ⟨fewer, same⟩ := SnapshotShard.removeActiveSiTx_keeps w.shard txn
    refine ⟨h.below.removeActiveSiTx, ?_, h.stats, ?_, fun tx mem => h.reported tx (fewer tx mem)⟩
    · intro tx mem
      simp only [SnapshotStats.exec, same]
      exact h.started tx (fewer tx mem)
    · simp only [SnapshotStats.exec, same]
      exact h.clock
  | clear =>
    refine ⟨?_, ?_, h.stats, h.clock, ?_⟩ <;>
      exact fun _ mem => absurd mem List.not_mem_nil
  | advance ts =>
    exact ⟨h.below, fun tx mem => Nat.le_trans (h.started tx mem) enabled, h.stats,
      Nat.le_trans h.clock enabled, h.reported⟩
  | stats =>
    obtain ⟨clock, active⟩ := h.below.localMin_le h.started
    exact ⟨h.below, h.started, clock, Nat.le_refl _, active⟩

theorem ReachedInOrder.sound (h : ReachedInOrder w) : Sound w := by
  refine Reachable.invariant h ?_ ?_
  · rintro w ⟨active, -, -, stats, reported⟩
    have nobody : ∀ tx ∈ w.shard.activeSiTxs, False := by
      rw [active]
      exact fun _ mem => absurd mem List.not_mem_nil
    refine ⟨fun tx mem => (nobody tx mem).elim, fun tx mem => (nobody tx mem).elim, ?_, ?_,
      fun tx mem => (nobody tx mem).elim⟩
    · rw [reported]
      exact Nat.zero_le _
    · rw [stats]
      exact Nat.zero_le _
  · rintro w a w' ⟨⟨enabled, ordered⟩, rfl⟩ sound
    exact sound.exec enabled ordered

theorem ReachedInOrder.exec (h : ReachedInOrder w) (a : SnapshotAction T) (enabled : w.Enabled a)
    (ordered : w.InOrder a) : ReachedInOrder (w.exec a) := h.next ⟨⟨enabled, ordered⟩, rfl⟩

/-- Neither what the shard would report nor what it reported last is after the start of an active
transaction. -/
theorem reported_le_active (h : ReachedInOrder w) :
    ∀ tx ∈ w.shard.activeSiTxs, w.shard.localMinSiTxStartTs ≤ tx.2 ∧ w.reported ≤ tx.2 :=
  fun tx mem => ⟨(h.sound.below.localMin_le h.sound.started).2 tx mem, h.sound.reported tx mem⟩

def idle (now : Nat) : SnapshotStats Nat := ⟨⟨now, [], 1, 0⟩, 0, 0⟩

/-- Two transactions; the first is removed after the statistics run, and five seconds later the shard
looks for the smallest timestamp again. -/
def twoActive : SnapshotStats Nat :=
  [.add 1 100, .advance 150, .add 2 150, .stats, .advance 5000200, .remove 1].foldl exec (idle 100)

theorem reported_le_active_two :
    twoActive.shard.activeSiTxs = [(2, 150)] ∧ twoActive.shard.localMinSiTxStartTs = 150 ∧
      twoActive.reported = 100 ∧
      ∀ tx ∈ twoActive.shard.activeSiTxs,
        twoActive.shard.localMinSiTxStartTs ≤ tx.2 ∧ twoActive.reported ≤ tx.2 := by
  have start : ReachedInOrder (idle 100) := .start ⟨rfl, rfl, rfl, rfl, rfl⟩
  have first := start.exec (.add 1 100) ⟨nofun, by decide⟩ ⟨by decide, nofun⟩
  have later := first.exec (.advance 150) (by change 100 ≤ 150; decide) trivial
  have second := later.exec (.add 2 150) ⟨by decide, by decide⟩ ⟨by decide, by decide⟩
  have counted := second.exec .stats trivial trivial
  have passed := counted.exec (.advance 5000200) (by change 150 ≤ 5000200; decide) trivial
  have removed := passed.exec (.remove 1) trivial trivial
  exact ⟨by decide, by decide, by decide, reported_le_active removed⟩

/-- A transaction with an earlier start is added second, and the shard goes on reporting the start of
the first. -/
theorem later_added_starts_earlier :
    ∃ w : SnapshotStats Nat, Reached w ∧ ∃ tx ∈ w.shard.activeSiTxs,
      ¬w.shard.localMinSiTxStartTs ≤ tx.2 := by
  have start : Reached (idle 200) := .start ⟨rfl, rfl, rfl, rfl, rfl⟩
  have first : Reached ((idle 200).exec (.add 1 100)) :=
    start.next (a := .add 1 100) ⟨⟨nofun, by decide⟩, rfl⟩
  have second : Reached (((idle 200).exec (.add 1 100)).exec (.add 2 90)) :=
    first.next (a := .add 2 90) ⟨⟨by decide, by decide⟩, rfl⟩
  exact ⟨_, second, (2, 90), by decide, by decide⟩

end SnapshotStats

end TxService
