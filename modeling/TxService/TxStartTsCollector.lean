import Mathlib.Data.List.FinRange
import Mathlib.Logic.Function.Basic
import TxService.SnapshotWatermark
import TxService.VersionedEntry

/-!
# Recycling versions across the cluster

`TxStartTsCollector` asks the leader of every node group for its oldest snapshot and keeps the
previous answer of one that does not reply. Versions below the least answer are recycled. It runs in a
thread of its own, so it may overtake a transaction that has its start and is not registered yet.
-/

namespace TxService

open Transition

universe u v

/-- A shard, and the transaction its thread is starting: `NewTx` has read the clock, `AddActiveSiTx`
comes next. Statistics are taken by other threads, also in between, and a transaction is overtaken if
they have reported a later time than its start before it is added. -/
structure SnapshotCore (T : Type u) where
  stats : SnapshotStats T
  starting : Option (T × Nat)
  overtaken : List T

inductive CoreAction (T : Type u)
  | newTx (txn : T)
  | addActiveSiTx
  | removeActiveSiTx (txn : T)
  | clearActiveSiTxs
  | advance (ts : Nat)
  | stats

/-- The shards of the leaders of the node groups, which stay the leaders, the collector of one node and
a cc entry there, with all versions it ever had. `replies` are the answers of `GetMinTxStartTs`, which
may be received late or never. -/
structure TxStartTsCollector (ngCnt coreCnt : Nat) (T : Type u) (V : Type v) where
  shards : Fin ngCnt × Fin coreCnt → SnapshotCore T
  minStartTsMap : Fin ngCnt → Nat
  minStartTs : Nat
  replies : List (Fin ngCnt × Nat)
  entry : CcEntry V
  history : List (VersionRecord V)

inductive CollectorAction (ngCnt coreCnt : Nat) (T : Type u) (V : Type v)
  | shard (at_ : Fin ngCnt × Fin coreCnt) (action : CoreAction T)
  | answer (ng : Fin ngCnt)
  | receive (ng : Fin ngCnt) (ts : Nat)
  | collect
  | recycle
  | commit (commitTs : Nat) (isDel : Bool) (payload : Option V)

/-- The loops of `StatsLocalActiveSiTxs` and `CollectMinTxStartTs`. -/
def minOf {n : Nat} (ts : Fin n → Nat) : Nat :=
  ((List.finRange n).map fun i => (i, ts i)).foldl (fun minTs it => min it.2 minTs) maxStartTs

theorem minOf_le {n : Nat} (ts : Fin n → Nat) (i : Fin n) : minOf ts ≤ ts i :=
  (SnapshotShard.foldl_min_le _ maxStartTs).2 (i, ts i) (List.mem_map_of_mem (List.mem_finRange i))

namespace SnapshotCore

variable {T : Type u} {w : SnapshotCore T} {ts : Nat}

section
variable [DecidableEq T]

def exec (w : SnapshotCore T) : CoreAction T → SnapshotCore T
  | .newTx txn => { w with starting := some (txn, w.stats.shard.now) }
  | .addActiveSiTx =>
    match w.starting with
    | none => w
    | some (txn, startTs) =>
      { stats := w.stats.exec (.add txn startTs)
        starting := none
        overtaken := if startTs < w.stats.reported then txn :: w.overtaken else w.overtaken }
  | .removeActiveSiTx txn => { w with stats := w.stats.exec (.remove txn) }
  | .clearActiveSiTxs => { w with stats := w.stats.exec .clear }
  | .advance ts => { w with stats := w.stats.exec (.advance ts) }
  | .stats => { w with stats := w.stats.exec .stats }

end

def Initial (w : SnapshotCore T) : Prop :=
  w.stats.Initial ∧ 0 < w.stats.shard.now ∧ w.starting = none ∧ w.overtaken = []

/-- Transaction numbers are new, and the clock does not go back. The thread of the shard does nothing
else while it starts a transaction. -/
def Enabled (w : SnapshotCore T) : CoreAction T → Prop
  | .newTx txn => w.starting = none ∧ (∀ tx ∈ w.stats.shard.activeSiTxs, tx.1 ≠ txn) ∧
      txn ∉ w.overtaken
  | .removeActiveSiTx _ | .clearActiveSiTxs => w.starting = none
  | .advance ts => w.stats.shard.now ≤ ts
  | .addActiveSiTx | .stats => True

/-- No transaction of the shard, also none to come, has a snapshot before the timestamp, unless it was
or will be overtaken: that takes statistics of a shard without an active transaction. -/
structure After (ts : Nat) (w : SnapshotCore T) : Prop where
  seen : ts ≤ max 1 w.stats.statsTs
  starting : ∀ tx ∈ w.starting,
    ts ≤ tx.2 ∨ w.stats.shard.activeSiTxs = [] ∧ tx.2 < w.stats.reported
  active : ∀ tx ∈ w.stats.shard.activeSiTxs, tx.1 ∉ w.overtaken → ts ≤ tx.2

theorem After.mono (h : After ts w) {ts' : Nat} (le : ts' ≤ ts) : After ts' w where
  seen := Nat.le_trans le h.seen
  starting tx mem := (h.starting tx mem).imp_left (Nat.le_trans le)
  active tx mem inTime := Nat.le_trans le (h.active tx mem inTime)

/-- What the shard keeps is below every active transaction, what it reported below those that were
not overtaken, and the one that is starting comes after them. -/
structure Sound (w : SnapshotCore T) : Prop where
  positive : 0 < w.stats.shard.now
  below : w.stats.shard.Below
  started : ∀ tx ∈ w.stats.shard.activeSiTxs, tx.2 ≤ w.stats.shard.now
  reported : After w.stats.reported w
  clock : w.stats.statsTs ≤ w.stats.shard.now
  starting : ∀ tx ∈ w.starting, 0 < tx.2 ∧ tx.2 ≤ w.stats.shard.now ∧
    ∀ tx' ∈ w.stats.shard.activeSiTxs, tx'.1 ≠ tx.1 ∧ tx'.2 ≤ tx.2

theorem Initial.after (h : Initial w) (le : ts ≤ 1) : After ts w := by
  constructor
  · exact Nat.le_trans le (Nat.le_max_left _ _)
  · rw [h.2.2.1]
    exact nofun
  · rw [h.1.1]
    exact fun _ mem => absurd mem List.not_mem_nil

theorem Initial.sound (h : Initial w) : Sound w := by
  have initial := h
  obtain ⟨⟨active, -, -, stats, reported⟩, positive, nothing, -⟩ := h
  have nobody : ∀ tx, tx ∉ w.stats.shard.activeSiTxs := by
    rw [active]
    exact fun _ => List.not_mem_nil
  constructor
  · exact positive
  · exact fun tx mem => absurd mem (nobody tx)
  · exact fun tx mem => absurd mem (nobody tx)
  · rw [reported]
    exact initial.after (Nat.zero_le 1)
  · rw [stats]
    exact Nat.zero_le _
  · rw [nothing]
    exact nofun

section
variable [DecidableEq T]

omit [DecidableEq T] in
theorem After.le_now (h : After ts w) (sound : Sound w) : ts ≤ w.stats.shard.now :=
  Nat.le_trans h.seen (Nat.max_le.mpr ⟨sound.positive, sound.clock⟩)

/-- A transaction that is added in time comes after all that was reported so far. -/
theorem After.addActiveSiTx (h : After ts w) (sound : Sound w) : After ts (w.exec .addActiveSiTx) := by
  simp only [SnapshotCore.exec]
  split
  · exact h
  · rename_i txn startTs starting
    obtain ⟨-, -, later⟩ := sound.starting (txn, startTs) starting
    have active := (SnapshotShard.addActiveSiTx_keeps startTs fun tx mem => (later tx mem).1).1
    refine ⟨h.seen, nofun, fun tx mem inTime => ?_⟩
    simp only [SnapshotStats.exec, active] at mem inTime
    rcases List.mem_cons.mp mem with rfl | old
    · rcases h.starting (txn, startTs) starting with before | ⟨-, late⟩
      · exact before
      · rw [if_pos late] at inTime
        exact absurd List.mem_cons_self inTime
    · apply h.active tx old
      split at inTime
      · exact fun late => inTime (List.mem_cons_of_mem _ late)
      · exact inTime

theorem After.exec (h : After ts w) (sound : Sound w) {a : CoreAction T} (enabled : w.Enabled a) :
    After ts (w.exec a) := by
  cases a with
  | newTx txn =>
    refine { h with starting := ?_ }
    rintro tx ⟨⟩
    exact Or.inl (h.le_now sound)
  | addActiveSiTx => exact h.addActiveSiTx sound
  | removeActiveSiTx txn =>
    obtain ⟨fewer, -⟩ := SnapshotShard.removeActiveSiTx_keeps w.stats.shard txn
    refine ⟨h.seen, fun tx starting => ?_, fun tx mem => h.active tx (fewer tx mem)⟩
    cases enabled.symm.trans starting
  | clearActiveSiTxs =>
    refine ⟨h.seen, fun tx starting => ?_, fun _ mem => absurd mem List.not_mem_nil⟩
    cases enabled.symm.trans starting
  | advance ts => exact ⟨h.seen, h.starting, h.active⟩
  | stats =>
    refine ⟨Nat.le_trans (h.le_now sound) (Nat.le_max_right _ _), fun tx mem => ?_, h.active⟩
    apply (h.starting tx mem).imp_right
    rintro ⟨nobody, late⟩
    have clock : w.stats.shard.localMinSiTxStartTs = w.stats.shard.now := by
      rw [SnapshotShard.localMinSiTxStartTs, nobody]
      rfl
    exact ⟨nobody, Nat.lt_of_lt_of_le late (Nat.le_trans (sound.reported.le_now sound) clock.ge)⟩

theorem Sound.addActiveSiTx (h : Sound w) : Sound (w.exec .addActiveSiTx) := by
  have reported := h.reported.addActiveSiTx h
  simp only [SnapshotCore.exec] at reported ⊢
  split
  · exact h
  · rename_i txn startTs starting
    obtain ⟨-, past, later⟩ := h.starting (txn, startTs) starting
    have new tx (mem : tx ∈ w.stats.shard.activeSiTxs) : tx.1 ≠ txn := (later tx mem).1
    obtain ⟨active, now⟩ := SnapshotShard.addActiveSiTx_keeps startTs new
    constructor
    · exact Nat.lt_of_lt_of_eq h.positive now.symm
    · exact h.below.addActiveSiTx new fun tx mem => (later tx mem).2
    · intro tx mem
      simp only [SnapshotStats.exec, active, now] at mem ⊢
      rcases List.mem_cons.mp mem with rfl | old
      · exact past
      · exact h.started tx old
    · rw [starting] at reported
      exact reported
    · exact Nat.le_trans h.clock now.ge
    · rintro _ ⟨⟩

/-- What the shard reports next: without an active transaction it is the clock, which is after the
start of the one that is starting. -/
theorem Sound.stats_after (h : Sound w) :
    After w.stats.shard.localMinSiTxStartTs (w.exec .stats) := by
  obtain ⟨clock, below⟩ := h.below.localMin_le h.started
  refine ⟨Nat.le_trans clock (Nat.le_max_right _ _), fun tx mem => ?_, fun tx mem _ => below tx mem⟩
  cases active : w.stats.shard.activeSiTxs with
  | nil => exact (Nat.lt_or_ge tx.2 _).symm.imp_right fun late => ⟨active, late⟩
  | cons first rest =>
    have there : first ∈ w.stats.shard.activeSiTxs := active ▸ List.mem_cons_self
    exact Or.inl (Nat.le_trans (below first there) ((h.starting tx mem).2.2 first there).2)

theorem Sound.exec (h : Sound w) {a : CoreAction T} (enabled : w.Enabled a) : Sound (w.exec a) := by
  cases a with
  | newTx txn =>
    refine { h with reported := h.reported.exec h (a := .newTx txn) enabled, starting := ?_ }
    rintro tx ⟨⟩
    exact ⟨h.positive, Nat.le_refl _, fun tx' mem => ⟨enabled.2.1 tx' mem, h.started tx' mem⟩⟩
  | addActiveSiTx => exact h.addActiveSiTx
  | removeActiveSiTx txn =>
    obtain ⟨fewer, now⟩ := SnapshotShard.removeActiveSiTx_keeps w.stats.shard txn
    constructor
    · exact Nat.lt_of_lt_of_eq h.positive now.symm
    · exact h.below.removeActiveSiTx
    · exact fun tx mem => Nat.le_trans (h.started tx (fewer tx mem)) now.ge
    · exact h.reported.exec h (a := .removeActiveSiTx txn) enabled
    · exact Nat.le_trans h.clock now.ge
    · intro tx starting
      cases enabled.symm.trans starting
  | clearActiveSiTxs =>
    have nobody : ∀ tx, tx ∉ (w.exec .clearActiveSiTxs).stats.shard.activeSiTxs :=
      fun _ => List.not_mem_nil
    refine ⟨h.positive, fun tx mem => absurd mem (nobody tx), fun tx mem => absurd mem (nobody tx),
      h.reported.exec h (a := .clearActiveSiTxs) enabled, h.clock, ?_⟩
    intro tx starting
    cases enabled.symm.trans starting
  | advance ts =>
    have onward : w.stats.shard.now ≤ ts := enabled
    refine ⟨Nat.lt_of_lt_of_le h.positive onward, h.below,
      fun tx mem => Nat.le_trans (h.started tx mem) onward,
      h.reported.exec h (a := .advance ts) enabled,
      Nat.le_trans h.clock onward, fun tx mem => ?_⟩
    obtain ⟨positive, past, later⟩ := h.starting tx mem
    exact ⟨positive, Nat.le_trans past onward, later⟩
  | stats =>
    exact ⟨h.positive, h.below, h.started, h.stats_after, Nat.le_refl _, h.starting⟩

end

end SnapshotCore

open SnapshotCore

theorem CcEntry.kickOut_represents {V : Type v} {e : CcEntry V} {history : List (VersionRecord V)}
    {watermark : Nat} (h : Represents e history watermark) (r : Nat) :
    Represents (e.kickOutArchiveRecords r) history (max watermark r) := by
  have current := (kickOut_current e r).1
  refine ⟨?_, h.sorted, by rw [current, h.newest], (kickOut_isPrefix e r).sublist.trans h.sublist, ?_⟩
  · rw [show (e.kickOutArchiveRecords r).payloadStatus = e.payloadStatus from
      congrArg VersionRecord.payloadStatus current]
    exact h.known
  · intro ts le
    rw [kickOut_latest (Nat.le_trans (Nat.le_max_right _ _) le)]
    exact h.visible ts (Nat.le_trans (Nat.le_max_left _ _) le)

namespace TxStartTsCollector

variable {ngCnt coreCnt : Nat} {T : Type u} {V : Type v} [DecidableEq T]
  {c : TxStartTsCollector ngCnt coreCnt T V}

/-- A leader answers with what its shards reported last, each at its own time. -/
def exec (c : TxStartTsCollector ngCnt coreCnt T V) :
    CollectorAction ngCnt coreCnt T V → TxStartTsCollector ngCnt coreCnt T V
  | .shard at_ a => { c with shards := Function.update c.shards at_ ((c.shards at_).exec a) }
  | .answer ng =>
    { c with replies := (ng, minOf fun core => (c.shards (ng, core)).stats.reported) :: c.replies }
  | .receive ng ts => { c with minStartTsMap := Function.update c.minStartTsMap ng ts }
  | .collect => { c with minStartTs := minOf c.minStartTsMap }
  | .recycle => { c with entry := c.entry.kickOutArchiveRecords c.minStartTs }
  | .commit commitTs isDel payload =>
    let commit := ⟨c.minStartTs, commitTs, isDel, payload⟩
    { c with entry := c.entry.commit commit, history := commit.version :: c.history }

omit [DecidableEq T] in
/-- After `Init`, with a known version in the entry. -/
def Initial (c : TxStartTsCollector ngCnt coreCnt T V) : Prop :=
  (∀ at_, (c.shards at_).Initial) ∧ (∀ ng, c.minStartTsMap ng = 1) ∧ c.minStartTs = 1 ∧
    c.replies = [] ∧ c.entry.payloadStatus ≠ .unknown ∧ c.entry.archives.getD [] = [] ∧
    c.history = [c.entry.current]

omit [DecidableEq T] in
/-- A shard moves as it does alone, and an entry is committed to in the order of time. -/
def Enabled (c : TxStartTsCollector ngCnt coreCnt T V) : CollectorAction ngCnt coreCnt T V → Prop
  | .shard at_ a => (c.shards at_).Enabled a
  | .receive ng ts => (ng, ts) ∈ c.replies
  | .commit commitTs _ _ => c.entry.commitTs < commitTs
  | _ => True

def Reached : TxStartTsCollector ngCnt coreCnt T V → Prop :=
  Reachable Initial fun c a c' => c.Enabled a ∧ c' = c.exec a

theorem Reached.exec (h : Reached c) (a : CollectorAction ngCnt coreCnt T V) (enabled : c.Enabled a) :
    Reached (c.exec a) := h.next ⟨enabled, rfl⟩

structure Safe (c : TxStartTsCollector ngCnt coreCnt T V) : Prop where
  sound : ∀ at_, Sound (c.shards at_)
  replies : ∀ r ∈ c.replies, ∀ core, After r.2 (c.shards (r.1, core))
  answers : ∀ ng core, After (c.minStartTsMap ng) (c.shards (ng, core))
  published : ∀ at_, After c.minStartTs (c.shards at_)
  recycled : ∃ watermark, (∀ at_, After watermark (c.shards at_)) ∧
    c.entry.Represents c.history watermark

theorem Safe.exec (h : Safe c) {a : CollectorAction ngCnt coreCnt T V} (enabled : c.Enabled a) :
    Safe (c.exec a) := by
  obtain ⟨watermark, below, represents⟩ := h.recycled
  have both at_ : After (max watermark c.minStartTs) (c.shards at_) := by
    rcases Nat.le_total watermark c.minStartTs with le | le
    · rw [Nat.max_eq_right le]
      exact h.published at_
    · rw [Nat.max_eq_left le]
      exact below at_
  cases a with
  | shard at_ a =>
    have moved {ts : Nat} {other} (after : After ts (c.shards other)) :
        After ts ((c.exec (.shard at_ a)).shards other) := by
      simp only [TxStartTsCollector.exec, Function.update_apply]
      split
      · rename_i same
        subst same
        exact after.exec (h.sound _) enabled
      · exact after
    refine ⟨?_, fun r got core => moved (h.replies r got core), fun ng core => moved (h.answers ng core),
      fun other => moved (h.published other), watermark, fun other => moved (below other), represents⟩
    intro other
    simp only [TxStartTsCollector.exec, Function.update_apply]
    split
    · exact (h.sound at_).exec enabled
    · exact h.sound other
  | answer ng =>
    refine ⟨h.sound, ?_, h.answers, h.published, watermark, below, represents⟩
    intro r got core
    rcases List.mem_cons.mp got with rfl | got
    · exact (h.sound (ng, core)).reported.mono (minOf_le _ core)
    · exact h.replies r got core
  | receive ng ts =>
    refine ⟨h.sound, h.replies, ?_, h.published, watermark, below, represents⟩
    intro ng' core
    simp only [TxStartTsCollector.exec, Function.update_apply]
    split
    · rename_i same
      exact same ▸ h.replies _ enabled core
    · exact h.answers ng' core
  | collect =>
    exact ⟨h.sound, h.replies, h.answers, fun at_ => (h.answers at_.1 at_.2).mono (minOf_le _ at_.1),
      watermark, below, represents⟩
  | recycle =>
    exact ⟨h.sound, h.replies, h.answers, h.published, _, both, CcEntry.kickOut_represents represents _⟩
  | commit commitTs isDel payload =>
    exact ⟨h.sound, h.replies, h.answers, h.published, _, both,
      CcEntry.commit_represents (c := ⟨c.minStartTs, commitTs, isDel, payload⟩) represents enabled⟩

theorem Reached.safe (h : Reached c) : Safe c := by
  refine Reachable.invariant h ?_ ?_
  · rintro c ⟨shards, answers, published, replies, known, fresh, history⟩
    refine ⟨fun at_ => (shards at_).sound, ?_, fun ng core => (shards _).after (answers ng).le,
      fun at_ => (shards at_).after published.le,
      0, fun at_ => (shards at_).after (Nat.zero_le 1), ?_⟩
    · rw [replies]
      exact fun _ mem => absurd mem List.not_mem_nil
    · rw [history]
      exact CcEntry.initial_represents known fresh
  · rintro c a c' ⟨enabled, rfl⟩ safe
    exact safe.exec enabled

/-- Whichever answers were lost or late, versions are not recycled after the start of an active
transaction anywhere, unless statistics of its shard overtook its registration. -/
theorem globalMin_le_active (h : Reached c) (at_ : Fin ngCnt × Fin coreCnt) :
    ∀ tx ∈ (c.shards at_).stats.shard.activeSiTxs, tx.1 ∉ (c.shards at_).overtaken →
      c.minStartTs ≤ tx.2 :=
  (h.safe.published at_).active

/-- An active transaction that was not overtaken, and whose start a version precedes, reads the newest
one up to its start of all versions ever committed, whatever was recycled. -/
theorem active_reads_newest (h : Reached c) {at_ : Fin ngCnt × Fin coreCnt} {tx : T × Nat}
    (active : tx ∈ (c.shards at_).stats.shard.activeSiTxs) (inTime : tx.1 ∉ (c.shards at_).overtaken)
    (lastReadTs : Nat) (precedes : ∃ first ∈ c.history, first.commitTs ≤ tx.2) :
    ∃ v ∈ c.history, v.commitTs ≤ tx.2 ∧
      (∀ u ∈ c.history, u.commitTs ≤ tx.2 → u.commitTs ≤ v.commitTs) ∧
      (c.entry.mvccGet tx.2 lastReadTs).1 = v.answer := by
  obtain ⟨watermark, below, represents⟩ := h.safe.recycled
  obtain ⟨v, found⟩ : ∃ v, latest c.history tx.2 = some v := by
    obtain ⟨first, old, before⟩ := precedes
    apply Option.isSome_iff_exists.mp
    rw [latest, List.find?_isSome]
    exact ⟨first, old, decide_eq_true before⟩
  obtain ⟨mem, le⟩ := latest_some found
  refine ⟨v, mem, le, latest_is_largest represents.sorted found, ?_⟩
  rw [CcEntry.mvccGet_eq_latest _ _ _ represents.known,
    represents.visible tx.2 ((below at_).active tx active inTime), found]

def versionFifty : TxStartTsCollector 1 1 Nat Nat :=
  ⟨fun _ => ⟨SnapshotStats.idle 100, none, []⟩, fun _ => 1, 1, [], ⟨some 7, 50, .normal, 0, none⟩,
    [⟨some 7, 50, .normal⟩]⟩

/-- A transaction starts at 100, after the second version, is registered a little later and reported.
The commit of the third version recycles the first. -/
def recycling : TxStartTsCollector 1 1 Nat Nat :=
  [.commit 80 false (some 8), .shard (0, 0) (.newTx 1), .shard (0, 0) (.advance 120),
    .shard (0, 0) .addActiveSiTx, .shard (0, 0) .stats, .answer 0, .receive 0 100, .collect,
    .commit 150 false (some 9)].foldl exec versionFifty

theorem recycling_reached : Reached recycling := by
  have start : Reached versionFifty :=
    .start ⟨fun _ => ⟨⟨rfl, rfl, rfl, rfl, rfl⟩, (by decide : 0 < 100), rfl, rfl⟩, fun _ => rfl, rfl,
      rfl, by decide, rfl, rfl⟩
  have committed := start.exec (.commit 80 false (some 8)) (by change 50 < 80; decide)
  have begun := committed.exec (.shard (0, 0) (.newTx 1)) ⟨rfl, nofun, nofun⟩
  have later := begun.exec (.shard (0, 0) (.advance 120)) (by change 100 ≤ 120; decide)
  have added := later.exec (.shard (0, 0) .addActiveSiTx) trivial
  have counted := added.exec (.shard (0, 0) .stats) trivial
  have received := (counted.exec (.answer 0) trivial).exec (.receive 0 100) List.mem_cons_self
  exact (received.exec .collect trivial).exec (.commit 150 false (some 9)) (by change 80 < 150; decide)

theorem recycling_active : (1, 100) ∈ (recycling.shards (0, 0)).stats.shard.activeSiTxs := by decide

theorem globalMin_le_active_recycling : 1 < recycling.minStartTs ∧ recycling.minStartTs ≤ 100 :=
  ⟨by decide, globalMin_le_active recycling_reached (0, 0) (1, 100) recycling_active (by decide)⟩

theorem active_reads_newest_recycling :
    recycling.entry.archives = some [⟨some 8, 80, .normal⟩] ∧
      ∃ v ∈ recycling.history, v.commitTs ≤ 100 ∧
        (∀ u ∈ recycling.history, u.commitTs ≤ 100 → u.commitTs ≤ v.commitTs) ∧
        (recycling.entry.mvccGet 100 0).1 = v.answer :=
  ⟨by decide, active_reads_newest recycling_reached recycling_active (by decide) 0
    ⟨⟨some 7, 50, .normal⟩, by decide, by decide⟩⟩

-- statistics are taken while the transaction is not registered yet, and it is overtaken
example :
    let c := [.shard (0, 0) (.newTx 1), .shard (0, 0) (.advance 120), .shard (0, 0) .stats,
      .shard (0, 0) .addActiveSiTx, .answer 0, .receive 0 120, .collect].foldl exec versionFifty
    (1, 100) ∈ (c.shards (0, 0)).stats.shard.activeSiTxs ∧ (c.shards (0, 0)).overtaken = [1] ∧
      c.minStartTs = 120 := by
  decide

end TxStartTsCollector

end TxService
