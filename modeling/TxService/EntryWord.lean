import TxService.PackedWord
import TxService.Protocol

/-!
# The packed word of an entry

Commit timestamp, record status and two flag bits in one word. The other modules speak of the
fields; here the calls are the code's masks and shifts.
-/

namespace TxService

/-- `commit_ts_and_status_` of a non-versioned entry. -/
structure EntryInfo where
  commitTsAndStatus : BitVec 64
  deriving DecidableEq

namespace EntryInfo

/-- The numbers of `enum struct RecordStatus`. -/
def statusCode : RecordStatus → BitVec 64
  | .normal => 0
  | .unknown => 1
  | .deleted => 2
  | .remoteUnknown => 3
  | .versionUnknown => 4
  | .baseVersionMiss => 5
  | .archiveVersionMiss => 6
  | .invalid => 7
  | .nonExistent => 8
  | .uncreated => 9

/-- The cast back, for the numbers that are a status. -/
def ofStatusCode (code : BitVec 64) : Option RecordStatus :=
  [RecordStatus.normal, .unknown, .deleted, .remoteUnknown, .versionUnknown, .baseVersionMiss,
    .archiveVersionMiss, .invalid, .nonExistent, .uncreated].find? fun status =>
      decide (statusCode status = code)

/-- The constructor's value. -/
def initial : EntryInfo := ⟨0#64 <<< 8 ||| statusCode .unknown⟩

def commitTs (e : EntryInfo) : BitVec 64 := e.commitTsAndStatus >>> 8

def payloadStatus (e : EntryInfo) : Option RecordStatus :=
  ofStatusCode (e.commitTsAndStatus &&& 0x0F)

def setFlushed (e : EntryInfo) : EntryInfo := ⟨e.commitTsAndStatus ||| 0x10⟩

/-- The whole word is written, so the flag bits of the old version go. -/
def install (ts : BitVec 64) (status : RecordStatus) : EntryInfo := ⟨ts <<< 8 ||| statusCode status⟩

def setCommitTsPayloadStatus (txserviceSkipKv : Bool) (e : EntryInfo) (ts : BitVec 64)
    (status : RecordStatus) : EntryInfo :=
  let e := if e.commitTs < ts then install ts status else e
  if txserviceSkipKv = true ∧ status = .deleted then e.setFlushed else e

def setCkptTs (e : EntryInfo) (ts : BitVec 64) : EntryInfo :=
  if e.commitTs ≤ ts then e.setFlushed else e

/-- On a follower with a shared store every entry counts as flushed. -/
def isPersistent (sharedFollower : Bool) (e : EntryInfo) : Bool :=
  if sharedFollower then true else decide (e.commitTsAndStatus &&& 0x10 ≠ 0)

def setBeingCkpt (e : EntryInfo) : EntryInfo := ⟨e.commitTsAndStatus ||| 0x20⟩

def clearBeingCkpt (e : EntryInfo) : EntryInfo := ⟨e.commitTsAndStatus &&& ~~~(1#64 <<< 5)⟩

variable {e : EntryInfo} {ts : BitVec 64} {status : RecordStatus}

theorem statusCode_low (status : RecordStatus) : (statusCode status).toNat < 2 ^ 8 := by
  cases status <;> decide

@[simp]
theorem ofStatusCode_statusCode (status : RecordStatus) :
    ofStatusCode (statusCode status) = some status := by
  cases status <;> rfl

@[simp]
theorem initial_fields : initial.commitTs = 0 ∧ initial.payloadStatus = some .unknown ∧
    initial.isPersistent false = false := by
  decide

theorem isPersistent_of_bits {bits : BitVec 64} (h : e.commitTsAndStatus &&& 0x10 = bits) :
    e.isPersistent false = decide (bits ≠ 0) := by
  subst h
  rfl

/-- Reads the three fields. -/
def Fields (e : EntryInfo) (ts : BitVec 64) (status : Option RecordStatus) (flushed : Bool) : Prop :=
  e.commitTs = ts ∧ e.payloadStatus = status ∧ e.isPersistent false = flushed

theorem setFlushed_fields (e : EntryInfo) :
    e.setFlushed.Fields e.commitTs e.payloadStatus true := by
  refine ⟨PackedWord.or_shift (by decide), ?_, ?_⟩
  · exact congrArg ofStatusCode (PackedWord.or_and_apart (by decide))
  · exact isPersistent_of_bits PackedWord.or_and_self

theorem install_fields (small : ts.toNat < 2 ^ 56) :
    (install ts status).Fields ts (some status) false := by
  refine ⟨PackedWord.pack_shift (by omega) (statusCode_low status), ?_, ?_⟩
  · rw [← ofStatusCode_statusCode status]
    refine congrArg ofStatusCode ((PackedWord.pack_and (by decide)).trans ?_)
    cases status <;> rfl
  · have clear : (install ts status).commitTsAndStatus &&& 0x10 = 0 :=
      (PackedWord.pack_and (k := 8) (by decide)).trans (by cases status <;> rfl)
    exact isPersistent_of_bits clear

theorem setBeingCkpt_fields (e : EntryInfo) :
    e.setBeingCkpt.Fields e.commitTs e.payloadStatus (e.isPersistent false) := by
  refine ⟨PackedWord.or_shift (by decide), ?_, ?_⟩
  · exact congrArg ofStatusCode (PackedWord.or_and_apart (by decide))
  · exact isPersistent_of_bits (PackedWord.or_and_apart (by decide))

theorem clearBeingCkpt_fields (e : EntryInfo) :
    e.clearBeingCkpt.Fields e.commitTs e.payloadStatus (e.isPersistent false) := by
  refine ⟨PackedWord.and_not_shift (by decide), ?_, ?_⟩
  · exact congrArg ofStatusCode (PackedWord.and_not_and_apart (by decide))
  · exact isPersistent_of_bits (PackedWord.and_not_and_apart (by decide))

theorem Fields.setFlushed {st : Option RecordStatus} {flushed : Bool} (h : e.Fields ts st flushed) :
    e.setFlushed.Fields ts st true := by
  obtain ⟨rfl, rfl, -⟩ := h
  exact setFlushed_fields e

end EntryInfo

end TxService
