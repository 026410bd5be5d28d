import Mathlib.Data.Fintype.Card
import TxService.FiniteTable
import TxService.RemoteKeys
import TxService.Transition

/-!
# Remote keys over whole runs

In a run in which no check is answered `BlockQueue` for a key that still waits, and no final
response arrives while the timeout thread has the result, every remote key is completed once.
-/

namespace TxService

open Transition

universe u

namespace AcquireWriteOp
variable {ι : Type u} [DecidableEq ι]

/-- A check that is answered `BlockQueue` finds the key completed already, and no final
response arrives while the timeout thread has the result. -/
def Timely (w : AcquireWriteOp ι) : AcquireEvent ι → Prop
  | .deliverAnswer i => (w.nodes i).answers.head? = some .blockQueue → w.resultByTimeout = false →
      (w.keys i).remoteHdResultSet = true
  | .deliverFinal _ => w.resultByTimeout = false
  | _ => True

def Tracked (w : AcquireWriteOp ι) : Prop := ∀ i, (w.keys i).Tracks (w.nodes i)

variable {w : AcquireWriteOp ι} {i : ι} {n : AcquireOnNode}

theorem Tracked.setNode (h : w.Tracked) (hn : (w.keys i).Tracks n) : (w.setNode i n).Tracked := by
  intro j
  show (w.keys j).Tracks (Function.update w.nodes i n j)
  by_cases here : j = i
  · rw [here, Function.update_self]
    exact hn
  · rw [Function.update_of_ne here]
    exact h j

theorem Tracked.setKey (h : w.Tracked) {k : RemoteKeyResult} (hk : k.Tracks n) :
    ((w.setKey i k).setNode i n).Tracked := by
  intro j
  show (Function.update w.keys i k j).Tracks (Function.update w.nodes i n j)
  by_cases here : j = i
  · rw [here, Function.update_self, Function.update_self]
    exact hk
  · rw [Function.update_of_ne here, Function.update_of_ne here]
    exact h j

/-- A message for a key: handled, or rejected while the timeout thread has the result. -/
theorem Tracked.handle (h : w.Tracked) {k : RemoteKeyResult}
    (handled : w.resultByTimeout = false → k.Tracks n)
    (rejected : w.resultByTimeout = true → (w.keys i).Tracks n) :
    ((w.handle i k).setNode i n).Tracked := by
  unfold AcquireWriteOp.handle
  split
  · next held => exact h.setNode (rejected held)
  · next free => exact h.setKey (handled (by simpa using free))

theorem Tracked.step {w t : AcquireWriteOp ι} {a : AcquireEvent ι} (h : w.Tracked)
    (ht : w.step a = some t) (timely : w.Timely a) : t.Tracked := by
  cases a with
  | block i term =>
    simp only [AcquireWriteOp.step, block] at ht
    split at ht
    · cases ht
    · cases ht
      exact h.setNode ((h i).frame (h i).checked rfl rfl rfl rfl)
  | resolve i r =>
    simp only [AcquireWriteOp.step, resolve] at ht
    split at ht
    · next unsent =>
      cases ht
      exact h.setNode ((h i).resolve unsent fun _ => by rintro ⟨⟩)
    · next unsent =>
      cases ht
      exact h.setNode ((h i).resolve unsent fun _ => by rintro ⟨⟩)
    · cases ht
  | runCheck i termChanged =>
    simp only [AcquireWriteOp.step, runCheck] at ht
    split at ht
    · cases ht
    · next checks some_ =>
      cases ht
      have address := (h i).checked (Or.inl (by rw [some_]; exact Nat.succ_pos checks))
      exact h.setNode ((h i).frame (fun _ => address) rfl rfl rfl rfl)
  | deliverAck i =>
    simp only [AcquireWriteOp.step, deliverAck] at ht
    split at ht
    · cases ht
    · next term acks _ =>
      cases ht
      have kept : (w.keys i).Tracks { w.nodes i with acks := acks } :=
        (h i).frame (h i).checked rfl rfl rfl rfl
      exact h.handle (fun _ => kept.ack term) (fun _ => kept)
  | deliverFinal i =>
    obtain ⟨r, hr, rfl⟩ := Option.map_eq_some_iff.mp ht
    have free : w.resultByTimeout = false := timely
    refine h.handle (fun _ => ?_) (fun held => absurd (free.symm.trans held) (by decide))
    rw [free, Bool.false_or]
    exact (h i).final hr
  | deliverAnswer i =>
    simp only [AcquireWriteOp.step, deliverAnswer] at ht
    split at ht
    · cases ht
    · next status answers hs =>
      cases ht
      have address := (h i).checked (Or.inr (by rw [hs]; exact List.cons_ne_nil _ _))
      refine h.handle (fun free => (h i).answer hs fun queued => ?_) (fun _ => ?_)
      · exact timely (by rw [hs, queued]; rfl) free
      · exact (h i).frame (fun _ => address) rfl rfl rfl rfl
  | setResultByTimeoutThread =>
    cases ht
    exact h
  | unsetByTimeoutThread =>
    simp only [AcquireWriteOp.step, sendChecks] at ht
    split at ht
    · cases ht
      intro i
      show (w.keys i).Tracks (if _ then _ else w.nodes i)
      split
      · next asked => exact (h i).frame (fun _ => by omega) rfl rfl rfl rfl
      · exact h i
    · cases ht

/-- The key is completed at most once, exactly once when its final response is there, and the
final response is ignored only if the wait for the key has ended with an error. -/
def CompletedOnce (w : AcquireWriteOp ι) (i : ι) : Prop :=
  (w.keys i).refDecs ≤ 1 ∧ (w.keys i).ackDecs ≤ 1 ∧
  ((w.nodes i).finalArrived = true → (w.keys i).refDecs = 1 ∧ (w.keys i).ackDecs = 1) ∧
  ((w.nodes i).finalIgnored = true → (w.keys i).failed = true)

omit [DecidableEq ι] in
theorem Tracked.completedOnce (h : w.Tracked) (i : ι) :
    w.CompletedOnce i := by
  refine ⟨?_, ?_, fun e => (h i).closed ((h i).arrived e), fun e => ((h i).ignored e).2⟩
  · cases e : (w.keys i).remoteHdResultSet with
    | false => exact ((h i).open_ref e).trans_le (Nat.zero_le 1)
    | true => exact ((h i).closed e).1.le
  · cases e : (w.keys i).remoteHdResultSet with
    | false =>
      rw [(h i).open_ack e]
      split
      · exact Nat.zero_le 1
      · exact Nat.le_refl 1
    | true => exact ((h i).closed e).2.le

/-- A `BlockQueue` answer that comes after the key was completed, or while the timeout thread
has the result, changes nothing. -/
theorem deliverAnswer_blockQueue {w t : AcquireWriteOp ι}
    (queued : (w.nodes i).answers.head? = some .blockQueue) (timely : w.Timely (.deliverAnswer i))
    (ht : w.step (.deliverAnswer i) = some t) :
    t.keys = w.keys ∧ t.refCnt = w.refCnt ∧ t.remoteAckCnt = w.remoteAckCnt := by
  simp only [AcquireWriteOp.step, deliverAnswer] at ht
  split at ht
  · cases ht
  · cases ht
    unfold handle
    split
    · exact ⟨rfl, rfl, rfl⟩
    · next free =>
      have set := timely queued (by simpa using free)
      unfold RemoteKeyResult.onCheckResponse
      rw [if_pos set]
      refine ⟨Function.update_eq_self i w.keys, ?_, ?_⟩
      · show w.refCnt - ((w.keys i).refDecs - (w.keys i).refDecs) = w.refCnt
        omega
      · show w.remoteAckCnt - ((w.keys i).ackDecs - (w.keys i).ackDecs) = w.remoteAckCnt
        omega

section Counters
variable [Fintype ι]

/-- One request for every remote key has been sent. -/
def initial : AcquireWriteOp ι where
  keys _ := .initial
  nodes _ := .initial
  refCnt := Fintype.card ι
  remoteAckCnt := Fintype.card ι
  resultByTimeout := false

/-- What is missing from the counters was taken for the keys. -/
def Counted (w : AcquireWriteOp ι) : Prop :=
  w.refCnt + ∑ i, ((w.keys i).refDecs : Int) = Fintype.card ι ∧
    w.remoteAckCnt + ∑ i, ((w.keys i).ackDecs : Int) = Fintype.card ι

theorem Counted.setKey {w : AcquireWriteOp ι} (h : w.Counted) (i : ι) (k : RemoteKeyResult) :
    (w.setKey i k).Counted := by
  have ref := sum_update_add (fun k => (k.refDecs : Int)) w.keys i k
  have ack := sum_update_add (fun k => (k.ackDecs : Int)) w.keys i k
  obtain ⟨href, hack⟩ := h
  constructor
  · show w.refCnt - (k.refDecs - (w.keys i).refDecs) +
      ∑ j, ((Function.update w.keys i k j).refDecs : Int) = Fintype.card ι
    omega
  · show w.remoteAckCnt - (k.ackDecs - (w.keys i).ackDecs) +
      ∑ j, ((Function.update w.keys i k j).ackDecs : Int) = Fintype.card ι
    omega

theorem Counted.handle {w : AcquireWriteOp ι} (h : w.Counted) (i : ι) (k : RemoteKeyResult) :
    (w.handle i k).Counted := by
  unfold AcquireWriteOp.handle
  split
  · exact h
  · exact h.setKey i k

theorem Counted.step {w t : AcquireWriteOp ι} {a : AcquireEvent ι} (h : w.Counted)
    (ht : w.step a = some t) : t.Counted := by
  cases a with
  | block i term =>
    simp only [AcquireWriteOp.step, block] at ht
    split at ht
    · cases ht
    · cases ht
      exact h
  | resolve i r =>
    simp only [AcquireWriteOp.step, resolve] at ht
    split at ht
    · cases ht
      exact h
    · cases ht
      exact h
    · cases ht
  | runCheck i termChanged =>
    simp only [AcquireWriteOp.step, runCheck] at ht
    split at ht
    · cases ht
    · cases ht
      exact h
  | deliverAck i =>
    simp only [AcquireWriteOp.step, deliverAck] at ht
    split at ht
    · cases ht
    · cases ht
      exact h.handle i _
  | deliverFinal i =>
    obtain ⟨r, -, rfl⟩ := Option.map_eq_some_iff.mp ht
    exact h.handle i _
  | deliverAnswer i =>
    simp only [AcquireWriteOp.step, deliverAnswer] at ht
    split at ht
    · cases ht
    · cases ht
      exact h.handle i _
  | setResultByTimeoutThread =>
    cases ht
    exact h
  | unsetByTimeoutThread =>
    simp only [AcquireWriteOp.step, sendChecks] at ht
    split at ht
    · cases ht
      exact h
    · cases ht

/-- In a run in which no check is answered `BlockQueue` for a key that still waits and no final
response meets the timeout thread, every key is completed once, by its own answer. -/
theorem remote_acquire_completed_once {as : List (AcquireEvent ι)} {w : AcquireWriteOp ι}
    (run : Run (fun w a t => w.step a = some t ∧ w.Timely a) initial as w) :
    (∀ i, w.CompletedOnce i) ∧ w.Counted ∧
    ∀ i t, (w.nodes i).answers.head? = some .blockQueue → w.Timely (.deliverAnswer i) →
      w.step (.deliverAnswer i) = some t →
      t.keys = w.keys ∧ t.refCnt = w.refCnt ∧ t.remoteAckCnt = w.remoteAckCnt := by
  have counted : (initial : AcquireWriteOp ι).Counted := by
    constructor <;> simp [initial, RemoteKeyResult.initial]
  have both : w.Tracked ∧ w.Counted := by
    refine run.history (P := fun _ w => w.Tracked ∧ w.Counted) ⟨fun i => .initial, counted⟩ ?_
    exact fun _ w a t hstep h => ⟨h.1.step hstep.1 hstep.2, h.2.step hstep.1⟩
  exact ⟨both.1.completedOnce, both.2, fun i t => deliverAnswer_blockQueue⟩

end Counters

/-- Two keys wait when the operation times out. The node of the second has a new term, which the check
finds out; the first is granted before the answer that it is queued arrives. -/
def checkedTwice : List (AcquireEvent Bool) :=
  [.block false 1, .block true 1, .deliverAck false, .deliverAck true, .setResultByTimeoutThread,
    .unsetByTimeoutThread, .runCheck false false, .runCheck true true, .deliverAnswer true,
    .resolve false (.granted 1 7 5), .deliverFinal false, .deliverAnswer false]

instance (w : AcquireWriteOp ι) (a : AcquireEvent ι) : Decidable (w.Timely a) := by
  unfold Timely
  split <;> infer_instance

def timelyStep (w : AcquireWriteOp ι) (a : AcquireEvent ι) : Option (AcquireWriteOp ι) :=
  if w.Timely a then w.step a else none

theorem remote_acquire_checked :
    ∃ w : AcquireWriteOp Bool, checkedTwice.foldlM timelyStep initial = some w ∧
      (w.nodes false).finalArrived = true ∧ (w.keys true).failed = true ∧ w.refCnt = 0 ∧
      ∀ i, w.CompletedOnce i := by
  have reached : checkedTwice.foldlM timelyStep initial = some _ := rfl
  have run := Run.of_foldlM timelyStep
    (fun _ _ _ next => (Option.ite_none_right_eq_some.mp next).symm) reached
  exact ⟨_, reached, rfl, rfl, rfl, (remote_acquire_completed_once run).1⟩

/-- The check of a key that still waits is answered `BlockQueue`; the grant that follows is
ignored and the key is never completed. -/
theorem remote_acquire_grant_ignored :
    ∃ w : AcquireWriteOp Unit,
      [AcquireEvent.block () 1, .deliverAck (), .setResultByTimeoutThread, .unsetByTimeoutThread,
        .runCheck () false, .deliverAnswer (), .resolve () (.granted 1 7 5),
        .deliverFinal ()].foldlM AcquireWriteOp.step initial = some w ∧
      (w.nodes ()).finalArrived = true ∧ (w.nodes ()).finalIgnored = true ∧
      (w.keys ()).failed = false ∧ w.refCnt = 1 ∧ ¬ w.CompletedOnce () := by
  refine ⟨_, rfl, rfl, rfl, rfl, rfl, fun h => ?_⟩
  exact absurd (h.2.2.1 rfl).1 (by decide)

end AcquireWriteOp

end TxService
