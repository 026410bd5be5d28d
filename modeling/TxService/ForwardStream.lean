import Mathlib.Logic.Function.Basic
import TxService.Transition

/-!
# The forward stream of a primary shard

A shard numbers the messages it forwards and keeps the last `txservice_max_standby_lag` of them in
a ring of reused entries, from which a standby that missed one is served.
-/

namespace TxService

open Transition

universe u

/-- `KeyObjectStandbyForwardRequest`: its number, and what it forwards. -/
structure StandbyForwardRequest (C : Type u) where
  forwardSeqId : Option Nat
  outOfSync : Bool
  payload : Option C

/-- `StandbyForwardEntry`; a sequence id of `UINT64_MAX` is `none`. -/
structure StandbyForwardEntry (C : Type u) where
  inUse : Bool
  sequenceId : Option Nat
  msg : StandbyForwardRequest C

/-- An entry of `subscribed_standby_nodes_`, with the messages that were sent under this
subscription and whether another core has ended it. A last sent id of `UINT64_MAX` is `none`. -/
structure Subscriber (C : Type u) where
  nodeId : Nat
  lastSentSeqId : Option Nat
  standbyNodeTerm : Int
  startSeqId : Nat
  stream : List (StandbyForwardRequest C)
  unsubscribed : Bool

/-- The forwarding state of a shard, and what it has forwarded under each id. -/
structure PrimaryShard (C : Type u) where
  fwdVec : Nat → StandbyForwardEntry C
  fwdVecSize : Nat
  nextForwardIdx : Nat
  nextForwardSequenceId : Nat
  fwdedMsgBuffer : Nat → Option Nat
  subscribed : List (Subscriber C)
  retryInUse : Bool
  forwarded : Nat → Option C

variable {C : Type u}

namespace StandbyForwardEntry

def fresh : StandbyForwardEntry C := ⟨false, none, ⟨none, false, none⟩⟩

/-- `Reset`. -/
def reset (_ : StandbyForwardEntry C) : StandbyForwardEntry C := ⟨true, none, ⟨none, false, none⟩⟩

def fill (e : StandbyForwardEntry C) (payload : C) : StandbyForwardEntry C :=
  { e with msg := { e.msg with payload := some payload } }

/-- `Free`. -/
def free (e : StandbyForwardEntry C) : StandbyForwardEntry C := { e with inUse := false }

end StandbyForwardEntry

inductive ForwardEvent (C : Type u) where
  | getNext
  | write (idx : Nat) (payload : C)
  | free (idx : Nat)
  | forward (idx : Nat) (succ : Nat → Bool)
  | resend (succ : Nat → Nat → Bool)
  | addSubscribed (nodeId startSeqId : Nat) (standbyNodeTerm : Int)
  | unsubscribe (nodeId : Nat) (standbyNodeTerm : Int)

namespace PrimaryShard

def initial (lag : Nat) : PrimaryShard C where
  fwdVec _ := .fresh
  fwdVecSize := lag
  nextForwardIdx := 0
  nextForwardSequenceId := 1
  fwdedMsgBuffer _ := none
  subscribed := []
  retryInUse := false
  forwarded _ := none

section
variable (lag : Nat)

/-- The entry is free, and no standby that is still served can need it. -/
def available (s : PrimaryShard C) (idx : Nat) : Bool :=
  !(s.fwdVec idx).inUse &&
    match (s.fwdVec idx).sequenceId with
    | none => true
    | some seqId => decide (lag ≤ s.nextForwardSequenceId - seqId)

/-- The loop of `GetNextStandbyForwardEntry`, with `cnt` turns left. -/
def findAvailable (s : PrimaryShard C) : Nat → Nat → Option Nat
  | 0, _ => none
  | cnt + 1, idx =>
    if s.available lag idx then some idx
    else s.findAvailable cnt (if s.fwdVecSize ≤ idx + 1 then 0 else idx + 1)

/-- The vector grows by half. -/
def grow (s : PrimaryShard C) : PrimaryShard C :=
  { s with
    fwdVec := fun idx => if s.fwdVecSize ≤ idx then .fresh else s.fwdVec idx
    fwdVecSize := s.fwdVecSize * 3 / 2 }

/-- The entry at the index is handed out. -/
def take (s : PrimaryShard C) (idx : Nat) : PrimaryShard C :=
  { s with
    fwdVec := Function.update s.fwdVec idx (s.fwdVec idx).reset
    nextForwardIdx := if idx + 1 = s.fwdVecSize then 0 else idx + 1 }

/-- `GetNextStandbyForwardEntry`; `at` throws when the vector has not grown. -/
def getNextStandbyForwardEntry (s : PrimaryShard C) : Option (PrimaryShard C) :=
  match s.findAvailable lag s.fwdVecSize s.nextForwardIdx with
  | some idx => some (s.take idx)
  | none => if s.fwdVecSize < s.grow.fwdVecSize then some (s.grow.take s.fwdVecSize) else none

/-- The owner of an entry fills its request. -/
def write (s : PrimaryShard C) (idx : Nat) (payload : C) : PrimaryShard C :=
  { s with fwdVec := Function.update s.fwdVec idx ((s.fwdVec idx).fill payload) }

/-- The owner of an entry has nothing to forward. -/
def free (s : PrimaryShard C) (idx : Nat) : PrimaryShard C :=
  { s with fwdVec := Function.update s.fwdVec idx (s.fwdVec idx).free }

/-- The loop of `ForwardStandbyMessage`: only a standby that has everything before is sent
the message. -/
def sendTo (seqId : Nat) (msg : StandbyForwardRequest C) (succ : Nat → Bool) (sub : Subscriber C) :
    Subscriber C :=
  if sub.lastSentSeqId = some (seqId - 1) ∧ succ sub.nodeId then
    { sub with lastSentSeqId := some seqId, stream := sub.stream ++ [msg] }
  else sub

/-- `ForwardStandbyMessage`; `succ` says which sends succeed. -/
def forwardStandbyMessage (s : PrimaryShard C) (idx : Nat) (succ : Nat → Bool) : PrimaryShard C :=
  let seqId := s.nextForwardSequenceId
  let msg : StandbyForwardRequest C := { (s.fwdVec idx).msg with forwardSeqId := some seqId }
  { s with
    nextForwardSequenceId := seqId + 1
    fwdVec := Function.update s.fwdVec idx ⟨false, some seqId, msg⟩
    fwdedMsgBuffer := Function.update s.fwdedMsgBuffer (seqId % lag) (some idx)
    subscribed := s.subscribed.map (sendTo seqId msg succ)
    retryInUse := s.retryInUse ||
      s.subscribed.any fun sub => !(sub.lastSentSeqId == some (seqId - 1) && succ sub.nodeId)
    forwarded := Function.update s.forwarded seqId (s.fwdVec idx).msg.payload }

/-- The buffered message of this number, if the entry at its place still has it. -/
def buffered (s : PrimaryShard C) (seqId : Nat) : Option (StandbyForwardRequest C) :=
  (s.fwdedMsgBuffer (seqId % lag)).bind fun idx =>
    if (s.fwdVec idx).inUse = false ∧ (s.fwdVec idx).sequenceId = some seqId then
      some (s.fwdVec idx).msg
    else none

def outOfSyncMessage (seqId : Nat) : StandbyForwardRequest C := ⟨some seqId, true, none⟩

/-- The loop over the messages that a standby has not been sent. -/
def resendTo (s : PrimaryShard C) (succ : Nat → Bool) : Nat → Subscriber C → Subscriber C
  | 0, sub => sub
  | left + 1, sub =>
    match sub.lastSentSeqId with
    | none => sub
    | some seqId =>
      if seqId < s.nextForwardSequenceId - 1 then
        match s.buffered lag (seqId + 1) with
        | some msg =>
          if succ (seqId + 1) then
            s.resendTo succ left
              { sub with lastSentSeqId := some (seqId + 1), stream := sub.stream ++ [msg] }
          else sub
        | none =>
          { sub with
            lastSentSeqId := none
            stream := sub.stream ++ [outOfSyncMessage (s.nextForwardSequenceId - 1)] }
      else sub

/-- `ResendFailedForwardMessages`, run by the retry request, which stays in use until
nothing is left to send. -/
def resendFailedForwardMessages (s : PrimaryShard C) (succ : Nat → Nat → Bool) : PrimaryShard C :=
  let subscribed := s.subscribed.map fun sub => s.resendTo lag (succ sub.nodeId) 500 sub
  { s with
    subscribed := subscribed
    retryInUse := subscribed.any fun sub =>
      sub.lastSentSeqId.any fun seqId => seqId < s.nextForwardSequenceId - 1 }

/-- `AddSubscribedStandby`. -/
def addSubscribedStandby (s : PrimaryShard C) (nodeId startSeqId : Nat) (standbyNodeTerm : Int) :
    PrimaryShard C :=
  let sub : Subscriber C :=
    ⟨nodeId, some (startSeqId - 1), standbyNodeTerm, startSeqId, [], false⟩
  if nodeId ∈ s.subscribed.map Subscriber.nodeId then
    { s with subscribed := s.subscribed.map fun old =>
        if old.nodeId = nodeId ∧ old.standbyNodeTerm < standbyNodeTerm then sub else old }
  else { s with subscribed := sub :: s.subscribed }

/-- The task that another core dispatches when it has told the standby that it is out of
sync. -/
def unsubscribe (s : PrimaryShard C) (nodeId : Nat) (standbyNodeTerm : Int) : PrimaryShard C :=
  { s with subscribed := s.subscribed.map fun old =>
      if old.nodeId = nodeId ∧ old.standbyNodeTerm ≤ standbyNodeTerm then
        { old with lastSentSeqId := none, unsubscribed := true }
      else old }

end

def step (lag : Nat) (s : PrimaryShard C) : ForwardEvent C → Option (PrimaryShard C)
  | .getNext => s.getNextStandbyForwardEntry lag
  | .write idx payload => some (s.write idx payload)
  | .free idx => some (s.free idx)
  | .forward idx succ => some (s.forwardStandbyMessage lag idx succ)
  | .resend succ => if s.retryInUse then some (s.resendFailedForwardMessages lag succ) else none
  | .addSubscribed nodeId start term => some (s.addSubscribedStandby nodeId start term)
  | .unsubscribe nodeId term => some (s.unsubscribe nodeId term)

/-- Only the owner of an entry, which has got it and not given it back, touches it, and
sequence ids start at 1. -/
def Permits (s : PrimaryShard C) : ForwardEvent C → Prop
  | .write idx _ | .free idx | .forward idx _ => (s.fwdVec idx).inUse = true
  | .addSubscribed _ startSeqId _ => 0 < startSeqId
  | .getNext | .resend _ | .unsubscribe _ _ => True

/-- What was forwarded under a number. -/
def message (s : PrimaryShard C) (seqId : Nat) : StandbyForwardRequest C :=
  ⟨some seqId, false, s.forwarded seqId⟩

/-- The `n` messages from a number on. -/
def messages (s : PrimaryShard C) (start n : Nat) : List (StandbyForwardRequest C) :=
  (List.range' start n).map s.message

end PrimaryShard

/-- What was sent under the subscription are the forwarded messages from its start on,
without a gap: up to the last sent one while the subscription lasts, and after that nothing
but the message that says so. -/
def Subscriber.InStep (s : PrimaryShard C) (sub : Subscriber C) : Prop :=
  ∃ n, (n = 0 ∨ sub.startSeqId + n ≤ s.nextForwardSequenceId) ∧
    match sub.lastSentSeqId with
    | some last => last + 1 = sub.startSeqId + n ∧ sub.stream = s.messages sub.startSeqId n
    | none =>
      (sub.stream = s.messages sub.startSeqId n ∧ sub.unsubscribed = true) ∨
      ∃ id, sub.stream = s.messages sub.startSeqId n ++ [PrimaryShard.outOfSyncMessage id]

/-- Messages with consecutive numbers from the start of the subscription on, each as it was
forwarded, with an out-of-sync message only at the end. -/
def Subscriber.Consecutive (s : PrimaryShard C) (sub : Subscriber C)
    (received : List (StandbyForwardRequest C)) : Prop :=
  ∃ n, received = s.messages sub.startSeqId n ∨
    ∃ id, received = s.messages sub.startSeqId n ++ [PrimaryShard.outOfSyncMessage id]

end TxService
