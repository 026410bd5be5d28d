import Mathlib.Logic.Function.Basic

/-!
# Remote lock requests of an acquire-write operation

A blocked request is acknowledged first; when the operation times out, the coordinator asks whether
it is still queued. The stream threads handle the answers in any order.
-/

namespace TxService

universe u

inductive AckStatus where
  | blockQueue
  | finished
  | errorTerm
  deriving DecidableEq

/-- `AcquireResponse`; an acknowledgement and a grant carry the address of the cc entry with
the term of its node. -/
inductive AcquireResponse where
  | ack (term : Nat)
  | granted (term valiTs commitTs : Nat)
  | error
  deriving DecidableEq

/-- `AcquireKeyResult` of a remote key, with how often the two counters of the operation were
decremented for it and whether its wait ended with an error. -/
structure RemoteKeyResult where
  term : Int
  lastValiTs : Nat
  commitTs : Nat
  remoteHdResultSet : Bool
  ackDecs : Nat
  refDecs : Nat
  failed : Bool
  deriving DecidableEq

namespace RemoteKeyResult

/-- `Reset`. -/
def initial : RemoteKeyResult := ⟨-1, 0, 0, false, 0, 0, false⟩

/-- The address is set by the first message that brings it, which also counts as the
acknowledgement. -/
def acknowledge (k : RemoteKeyResult) (term : Nat) : RemoteKeyResult :=
  if k.term < 0 then { k with term := term, ackDecs := k.ackDecs + 1 } else k

/-- The handler of `AcquireResponse`. -/
def onAcquireResponse (k : RemoteKeyResult) (r : AcquireResponse) : RemoteKeyResult :=
  if k.remoteHdResultSet then k
  else match r with
    | .error =>
      { k with
        ackDecs := if k.term < 0 then k.ackDecs + 1 else k.ackDecs
        remoteHdResultSet := true
        refDecs := k.refDecs + 1
        failed := true }
    | .granted term valiTs commitTs =>
      { k.acknowledge term with
        lastValiTs := valiTs
        commitTs := commitTs
        remoteHdResultSet := true
        refDecs := k.refDecs + 1 }
    | .ack term => { k.acknowledge term with lastValiTs := 0, commitTs := 0 }

/-- The handler of `BlockedCcReqCheckResponse`: the flag is set for every status. -/
def onCheckResponse (k : RemoteKeyResult) (status : AckStatus) : RemoteKeyResult :=
  if k.remoteHdResultSet then k
  else match status with
    | .blockQueue => { k with remoteHdResultSet := true }
    | .finished | .errorTerm =>
      { k with remoteHdResultSet := true, refDecs := k.refDecs + 1, failed := true }

end RemoteKeyResult

/-- A request on its remote node and the messages under way for it: whether it waits in the
lock queue, its acknowledgements, its final response, checks and answers to checks; and whether
the final response has arrived and was ignored. -/
structure AcquireOnNode where
  inQueue : Bool
  acks : List Nat
  final : Option AcquireResponse
  finalSent : Bool
  checks : Nat
  answers : List AckStatus
  finalArrived : Bool
  finalIgnored : Bool

def AcquireOnNode.initial : AcquireOnNode := ⟨false, [], none, false, 0, [], false, false⟩

/-- The state of the operation: `resultByTimeout` is `result_status_ == -1`. -/
structure AcquireWriteOp (ι : Type u) where
  keys : ι → RemoteKeyResult
  nodes : ι → AcquireOnNode
  refCnt : Int
  remoteAckCnt : Int
  resultByTimeout : Bool

inductive AcquireEvent (ι : Type u) where
  | block (i : ι) (term : Nat)
  | resolve (i : ι) (r : AcquireResponse)
  | runCheck (i : ι) (termChanged : Bool)
  | deliverAck (i : ι)
  | deliverFinal (i : ι)
  | deliverAnswer (i : ι)
  | setResultByTimeoutThread
  | unsetByTimeoutThread

namespace AcquireWriteOp
variable {ι : Type u} [DecidableEq ι]

/-- A handler has replaced the result of a key; the counters have gone down with it. -/
def setKey (w : AcquireWriteOp ι) (i : ι) (k : RemoteKeyResult) : AcquireWriteOp ι :=
  { w with
    keys := Function.update w.keys i k
    refCnt := w.refCnt - (k.refDecs - (w.keys i).refDecs)
    remoteAckCnt := w.remoteAckCnt - (k.ackDecs - (w.keys i).ackDecs) }

def setNode (w : AcquireWriteOp ι) (i : ι) (n : AcquireOnNode) : AcquireWriteOp ι :=
  { w with nodes := Function.update w.nodes i n }

/-- A stream thread handles a message, unless the timeout thread has the result. -/
def handle (w : AcquireWriteOp ι) (i : ι) (k : RemoteKeyResult) : AcquireWriteOp ι :=
  if w.resultByTimeout then w else w.setKey i k

/-- The remote node has queued the request and acknowledges it. -/
def block (w : AcquireWriteOp ι) (i : ι) (term : Nat) : Option (AcquireWriteOp ι) :=
  let n := w.nodes i
  if n.finalSent then none
  else some (w.setNode i { n with inQueue := true, acks := n.acks ++ [term] })

/-- The remote node sends the final response. -/
def resolve (w : AcquireWriteOp ι) (i : ι) (r : AcquireResponse) : Option (AcquireWriteOp ι) :=
  let n := w.nodes i
  match n.finalSent, r with
  | false, .granted .. | false, .error =>
    some (w.setNode i { n with inQueue := false, final := some r, finalSent := true })
  | _, _ => none

/-- `RemoteBlockReqCheckCc`. -/
def runCheck (w : AcquireWriteOp ι) (i : ι) (termChanged : Bool) : Option (AcquireWriteOp ι) :=
  let n := w.nodes i
  match n.checks with
  | 0 => none
  | checks + 1 =>
    let status :=
      if termChanged then .errorTerm else if n.inQueue then .blockQueue else .finished
    some (w.setNode i { n with checks := checks, answers := n.answers ++ [status] })

def deliverAck (w : AcquireWriteOp ι) (i : ι) : Option (AcquireWriteOp ι) :=
  let n := w.nodes i
  match n.acks with
  | [] => none
  | term :: acks =>
    some ((w.handle i ((w.keys i).onAcquireResponse (.ack term))).setNode i { n with acks := acks })

def deliverFinal (w : AcquireWriteOp ι) (i : ι) : Option (AcquireWriteOp ι) :=
  let n := w.nodes i
  n.final.map fun r =>
    (w.handle i ((w.keys i).onAcquireResponse r)).setNode i
      { n with
        final := none
        finalArrived := true
        finalIgnored := w.resultByTimeout || (w.keys i).remoteHdResultSet }

def deliverAnswer (w : AcquireWriteOp ι) (i : ι) : Option (AcquireWriteOp ι) :=
  let n := w.nodes i
  match n.answers with
  | [] => none
  | status :: answers =>
    some ((w.handle i ((w.keys i).onCheckResponse status)).setNode i { n with answers := answers })

/-- The rest of `Forward` on a timeout with all acknowledgements: the result is given back to
the stream threads, and a check is sent for every key that has an address and no result. -/
def sendChecks (w : AcquireWriteOp ι) : Option (AcquireWriteOp ι) :=
  if w.resultByTimeout ∧ w.remoteAckCnt ≤ 0 then
    some { w with
      resultByTimeout := false
      nodes := fun i =>
        if (w.keys i).remoteHdResultSet = false ∧ 0 < (w.keys i).term then
          { w.nodes i with checks := (w.nodes i).checks + 1 }
        else w.nodes i }
  else none

def step (w : AcquireWriteOp ι) : AcquireEvent ι → Option (AcquireWriteOp ι)
  | .block i term => w.block i term
  | .resolve i r => w.resolve i r
  | .runCheck i termChanged => w.runCheck i termChanged
  | .deliverAck i => w.deliverAck i
  | .deliverFinal i => w.deliverFinal i
  | .deliverAnswer i => w.deliverAnswer i
  | .setResultByTimeoutThread => some { w with resultByTimeout := true }
  | .unsetByTimeoutThread => w.sendChecks

end AcquireWriteOp

end TxService
