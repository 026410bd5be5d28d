import TxService.Transition

/-!
# Bucket lookups without a bucket lock

While no bucket is being migrated a transaction reads the owners of buckets without a lock.
`PublishBucketsMigrating` ends this and waits for those that still hold what they have read. The flag
has one value for all cluster scale operations: as long as the buckets of an operation's plan are
being migrated, neither its calls nor a replay of its log lower it, but those of another one may.
-/

namespace TxService.NakedBuckets

open Transition

inductive NodeGroupMigrateStage where
  | notStarted
  | prepared
  | cleaned
  deriving DecidableEq

inductive ScaleOpType where
  | addNode
  | removeNode
  deriving DecidableEq

inductive ClusterScaleStage where
  | prepareScale
  | configUpdate
  | cleanScale
  deriving DecidableEq

/-- What the replay of a cluster scale log reads for the flag. -/
structure ScaleOpMessage where
  eventType : ScaleOpType
  stage : ClusterScaleStage
  migrateProcess : List NodeGroupMigrateStage
  deriving DecidableEq

/-- All node groups have migrated their buckets of the plan. -/
def ScaleOpMessage.dmFinished (msg : ScaleOpMessage) : Bool :=
  msg.migrateProcess.all (· = .cleaned)

/-- By the newest content of an operation's log, the buckets of its plan have been migrated. -/
def dmFinished (log : List ScaleOpMessage) : Bool := log.head?.any ScaleOpMessage.dmFinished

/-- The value of the flag after the replay. -/
def ScaleOpMessage.isBucketMigrating (msg : ScaleOpMessage) (isCoordinator : Bool) : Bool :=
  if isCoordinator then msg.stage ≠ .cleanScale
  else
    match msg.eventType with
    | .addNode => !msg.dmFinished
    | .removeNode => msg.stage ≠ .configUpdate

/-- A transaction with the buckets it has locked; `all_bucket_infos_` is set or null. -/
structure Tx where
  core : Nat
  lockedBuckets : List Nat
  allBucketInfos : Bool
  deriving DecidableEq

/-- What a core is in the middle of: a lookup that has found the flag down, or a replay of an
operation's log that has raised it. -/
inductive Busy where
  | idle
  | lookup (tx : Nat)
  | replay (txn : Nat) (isBucketMigrating : Bool)
  deriving DecidableEq

/-- A call of `PublishBucketsMigrating(true)` by an operation: the core at which its request waits, if
it has not answered, and whether another operation set the flag to false since the call set it. -/
structure Publish where
  txn : Nat
  core : Option Nat
  lowered : Bool
  deriving DecidableEq

/-- A node. The loads of the flag are relaxed, so a core reads the value it has seen last. The log of
an operation has its newest content first; a replay may come with an older one. -/
structure Node where
  coreCnt : Nat
  bucketsMigrating : Bool
  seen : Nat → Bool
  busy : Nat → Busy
  nakedReaders : Nat → Nat
  txs : List Tx
  publishes : List Publish
  logs : Nat → List ScaleOpMessage

namespace Node

def writeLog (s : Node) (txn : Nat) (msg : ScaleOpMessage) : Node :=
  { s with logs := Function.update s.logs txn (msg :: s.logs txn) }

def setBucketMigrating (s : Node) (txn : Nat) (isMigrating : Bool) : Node :=
  { s with
    bucketsMigrating := isMigrating
    publishes := if isMigrating then s.publishes
      else s.publishes.map fun p => { p with lowered := p.lowered || decide (p.txn ≠ txn) } }

def see (s : Node) (core : Nat) : Node :=
  { s with seen := Function.update s.seen core s.bucketsMigrating }

def setBusy (s : Node) (core : Nat) (busy : Busy) : Node :=
  { s with busy := Function.update s.busy core busy }

/-- `FastToGetBucket` up to the load of the flag. There is nothing to do for a bucket that is locked
or known, and a transaction that finds the flag up goes on to lock the bucket. -/
def fastToGetBucket (s : Node) (i : Nat) (tx : Tx) (bucketId : Nat) : Node :=
  if bucketId ∈ tx.lockedBuckets ∨ tx.allBucketInfos then s
  else if s.seen tx.core then s
  else s.setBusy tx.core (.lookup i)

/-- The rest of `FastToGetBucket`, with `IncrNakedBucketReader`. -/
def getAllBucketInfos (s : Node) (i : Nat) (tx : Tx) : Node :=
  { s.setBusy tx.core .idle with
    nakedReaders := Function.update s.nakedReaders tx.core (s.nakedReaders tx.core + 1)
    txs := s.txs.set i { tx with allBucketInfos := true } }

/-- `ClearCachedBucketInfos`, which fails on the assertion of `DecrNakedBucketReader`. -/
def clearCachedBucketInfos (s : Node) (i : Nat) (tx : Tx) : Option Node :=
  if tx.allBucketInfos then
    if s.nakedReaders tx.core = 0 then none
    else some
      { s with
        nakedReaders := Function.update s.nakedReaders tx.core (s.nakedReaders tx.core - 1)
        txs := s.txs.set i { tx with lockedBuckets := [], allBucketInfos := false } }
  else some { s with txs := s.txs.set i { tx with lockedBuckets := [] } }

/-- `WaitNoNakedBucketRefCc` on a core. -/
def waitNoNakedBucketRef (s : Node) (j : Nat) (p : Publish) (core : Nat) : Node :=
  if s.nakedReaders core ≠ 0 then s
  else if core < s.coreCnt - 1 then
    { s with publishes := s.publishes.set j { p with core := some (core + 1) } }
  else { s with publishes := s.publishes.set j { p with core := none } }

end Node

inductive Action where
  | begin (core : Nat)
  | see (core : Nat)
  | lockBucket (tx bucketId : Nat)
  | fastToGetBucket (tx bucketId : Nat)
  | getAllBucketInfos (tx : Nat)
  | clearCachedBucketInfos (tx : Nat)
  | publish (txn : Nat) (isMigrating : Bool)
  | wait (call : Nat)
  | replay (txn : Nat) (msg : ScaleOpMessage) (isCoordinator : Bool)
  | replayEnd
  | prepareLog (txn : Nat) (eventType : ScaleOpType) (nodeGroups : Nat)
  | migrateLog (txn nodeGroup : Nat) (stage : NodeGroupMigrateStage)
  | updateClusterConfigLog (txn : Nat)
  | cleanLog (txn : Nat)

/-- One step of a core, of a call, or of a cluster scale operation, which writes its logs and makes
its calls in the order of `ClusterScaleOp::Forward`. What a core does is done by its own thread, and a
request on a core has seen every value of the flag that was set before the request was sent there. -/
def step (s : Node) : Action → Option Node
  | .begin core =>
    if core < s.coreCnt then some { s with txs := s.txs ++ [⟨core, [], false⟩] } else none
  | .see core => some (s.see core)
  | .lockBucket i bucketId => do
    let tx ← s.txs[i]?
    if s.busy tx.core = .idle then
      some { s with txs := s.txs.set i { tx with lockedBuckets := bucketId :: tx.lockedBuckets } }
    else none
  | .fastToGetBucket i bucketId => do
    let tx ← s.txs[i]?
    if s.busy tx.core = .idle then some (s.fastToGetBucket i tx bucketId) else none
  | .getAllBucketInfos i => do
    let tx ← s.txs[i]?
    if s.busy tx.core = .lookup i then some (s.getAllBucketInfos i tx) else none
  | .clearCachedBucketInfos i => do
    let tx ← s.txs[i]?
    if s.busy tx.core = .idle then s.clearCachedBucketInfos i tx else none
  | .publish txn true =>
    let s := s.setBucketMigrating txn true
    some { s with publishes := s.publishes ++ [⟨txn, some 0, false⟩] }
  | .publish txn false =>
    -- sent behind `check_migration_is_finished_op_`
    if dmFinished (s.logs txn) then some (s.setBucketMigrating txn false) else none
  | .wait j => do
    let p ← s.publishes[j]?
    let core ← p.core
    if s.busy core = .idle then some ((s.see core).waitNoNakedBucketRef j p core) else none
  | .replay txn msg isCoordinator =>
    if s.busy 0 = .idle ∧ msg ∈ s.logs txn then
      some (((s.setBucketMigrating txn true).see 0).setBusy 0
        (.replay txn (msg.isBucketMigrating isCoordinator)))
    else none
  | .replayEnd =>
    match s.busy 0 with
    | .replay txn isMigrating =>
      some (((s.setBucketMigrating txn isMigrating).see 0).setBusy 0 .idle)
    | _ => none
  | .prepareLog txn eventType nodeGroups =>
    if s.logs txn = [] then
      some (s.writeLog txn ⟨eventType, .prepareScale, List.replicate nodeGroups .notStarted⟩)
    else none
  | .migrateLog txn nodeGroup stage => do
    let msg ← (s.logs txn).head?
    let now ← msg.migrateProcess[nodeGroup]?
    if now ≠ .cleaned then
      some (s.writeLog txn { msg with migrateProcess := msg.migrateProcess.set nodeGroup stage })
    else none
  | .updateClusterConfigLog txn => do
    let msg ← (s.logs txn).head?
    -- nodes are removed from the configuration when their buckets are gone
    if msg.eventType = .addNode ∨ msg.dmFinished then
      some (s.writeLog txn { msg with stage := .configUpdate })
    else none
  | .cleanLog txn => do
    let msg ← (s.logs txn).head?
    if msg.dmFinished then some (s.writeLog txn { msg with stage := .cleanScale }) else none

/-- A node as it starts. -/
structure Started (s : Node) : Prop where
  cores : 0 < s.coreCnt
  idle : ∀ core, s.busy core = .idle
  noReader : ∀ core, s.nakedReaders core = 0
  txs : s.txs = []
  publishes : s.publishes = []
  logs : ∀ txn, s.logs txn = []

def Reached : Node → Prop :=
  Reachable Started fun s a t => step s a = some t

/-- The transactions of the core that hold bucket information they took without a lock. -/
def holders (txs : List Tx) (core : Nat) : Nat :=
  txs.countP fun tx => tx.core = core && tx.allBucketInfos

/-- The core has been passed by a waiting request: it sees the flag up, none of its transactions
holds bucket information without a lock, and none is about to. -/
structure Passed (s : Node) (core : Nat) : Prop where
  seen : s.seen core = true
  noReader : s.nakedReaders core = 0
  lookup : ∀ i, s.busy core ≠ .lookup i

/-- Before the migration is finished, the log has neither the clean stage nor, when nodes are removed,
the update of the configuration. -/
def ScaleOpMessage.InOrder (msg : ScaleOpMessage) : Prop :=
  msg.dmFinished = false →
    msg.stage ≠ .cleanScale ∧ (msg.eventType = .removeNode → msg.stage ≠ .configUpdate)

variable {msg : ScaleOpMessage} {s : Node} {i : Nat} {tx : Tx}

/-- What the flag is after the replay of a log is decided by whether the migration is finished. -/
theorem ScaleOpMessage.InOrder.finished (h : msg.InOrder) {isCoordinator : Bool}
    (lowers : msg.isBucketMigrating isCoordinator = false) : msg.dmFinished = true := by
  by_contra unfinished
  obtain ⟨notClean, notUpdated⟩ := h (Bool.eq_false_of_not_eq_true unfinished)
  unfold ScaleOpMessage.isBucketMigrating at lowers
  split at lowers
  · simp [notClean] at lowers
  · split at lowers
    · simp [unfinished] at lowers
    · rename_i removes
      simp [notUpdated removes] at lowers

/-- Every content of a log is in order, and once the migration is finished it stays so. -/
def InOrder (log : List ScaleOpMessage) : Prop :=
  ∀ msg ∈ log, msg.InOrder ∧ (msg.dmFinished = true → dmFinished log = true)

/-- The buckets of the call's plan are still being migrated, and no other operation has set the flag
to false since the call set it. -/
structure Standing (logs : Nat → List ScaleOpMessage) (p : Publish) : Prop where
  kept : p.lowered = false
  migrating : dmFinished (logs p.txn) = false

/-- The call whose flag still stands has passed the cores in front of its request. -/
structure Walked (s : Node) (p : Publish) : Prop where
  raised : s.bucketsMigrating = true
  passed : ∀ core < p.core.getD s.coreCnt, Passed s core

/-- What every step keeps. The logs are in order, so a replay lowers the flag only for a migration that
is finished. -/
structure Sound (s : Node) : Prop where
  cores : 0 < s.coreCnt
  counts : ∀ core, s.nakedReaders core = holders s.txs core
  homes : ∀ tx ∈ s.txs, tx.core < s.coreCnt
  lookups : ∀ core i, s.busy core = .lookup i →
    ∃ tx, s.txs[i]? = some tx ∧ tx.core = core ∧ tx.allBucketInfos = false
  waiting : ∀ p ∈ s.publishes, ∀ core ∈ p.core, core < s.coreCnt
  walked : ∀ p ∈ s.publishes, Standing s.logs p → Walked s p
  logs : ∀ txn, InOrder (s.logs txn)
  replays : ∀ core txn, s.busy core = .replay txn false → dmFinished (s.logs txn) = true

theorem sound_of_started (started : Started s) : Sound s where
  cores := started.cores
  counts core := by rw [started.noReader, started.txs]; rfl
  homes tx there := by rw [started.txs] at there; cases there
  lookups core i busy := by rw [started.idle] at busy; cases busy
  waiting p there := by rw [started.publishes] at there; cases there
  walked p there := by rw [started.publishes] at there; cases there
  logs txn msg there := by rw [started.logs] at there; cases there
  replays core txn busy := by rw [started.idle] at busy; cases busy

theorem holders_set {txs : List Tx} (there : txs[i]? = some tx) (tx' : Tx)
    (home : tx'.core = tx.core) (core : Nat) :
    holders (txs.set i tx') core + (if tx.core = core ∧ tx.allBucketInfos then 1 else 0) =
      holders txs core + (if tx.core = core ∧ tx'.allBucketInfos then 1 else 0) := by
  obtain ⟨bound, rfl⟩ := List.getElem?_eq_some_iff.mp there
  unfold holders
  rw [List.countP_set bound, home]
  by_cases held : txs[i].core = core ∧ txs[i].allBucketInfos = true
  · have counted : 0 < txs.countP fun tx => tx.core = core && tx.allBucketInfos :=
      List.countP_pos_iff.mpr ⟨txs[i], List.getElem_mem bound, by simpa using held⟩
    simp only [Bool.and_eq_true, decide_eq_true_eq, held, and_self, if_true]
    omega
  · simp only [Bool.and_eq_true, decide_eq_true_eq, held, if_false]
    omega

theorem mem_home_of_set {n : Nat} {txs : List Tx} {tx tx' : Tx} (homes : ∀ tx ∈ txs, tx.core < n)
    (there : txs[i]? = some tx) (home : tx'.core = tx.core) :
    ∀ x ∈ txs.set i tx', x.core < n := by
  intro x listed
  rcases List.mem_or_eq_of_mem_set listed with old | rfl
  · exact homes x old
  · rw [home]
    exact homes tx (List.mem_of_getElem? there)

/-- The transaction a core is looking up for is another one than a transaction the idle core, or
another core, works on. -/
theorem lookup_set (sound : Sound s) (there : s.txs[i]? = some tx) (tx' : Tx) {core j : Nat}
    (busy : s.busy core = .lookup j) (apart : core ≠ tx.core) :
    ∃ x, (s.txs.set i tx')[j]? = some x ∧ x.core = core ∧ x.allBucketInfos = false := by
  obtain ⟨x, found, home, free⟩ := sound.lookups core j busy
  have other : i ≠ j := by
    rintro rfl
    cases there.symm.trans found
    exact apart home.symm
  exact ⟨x, by rw [List.getElem?_set_ne other, found], home, free⟩

theorem Node.busy_setBusy (s : Node) (core : Nat) (busy : Busy) (c : Nat) :
    (s.setBusy core busy).busy c = if c = core then busy else s.busy c :=
  Function.update_apply ..

variable {t : Node} {p : Publish}

/-- A step that leaves the calls and the flag alone keeps every core that was passed. -/
theorem Walked.keep (walked : Walked s p) (flag : t.bucketsMigrating = s.bucketsMigrating)
    (cores : t.coreCnt = s.coreCnt) (passed : ∀ core, Passed s core → Passed t core) :
    Walked t p where
  raised := by rw [flag, walked.raised]
  passed core before := passed core (walked.passed core (cores ▸ before))

/-- So does a step that changes no core. -/
theorem Walked.same (walked : Walked s p) (flag : t.bucketsMigrating = s.bucketsMigrating)
    (cores : t.coreCnt = s.coreCnt) (seen : t.seen = s.seen)
    (readers : t.nakedReaders = s.nakedReaders) (busy : t.busy = s.busy) : Walked t p :=
  walked.keep flag cores fun _ h =>
    ⟨seen ▸ h.seen, readers ▸ h.noReader, busy ▸ h.lookup⟩

section
variable (sound : Sound s)
include sound

theorem Sound.begin {core : Nat} (bound : core < s.coreCnt) :
    Sound { s with txs := s.txs ++ [⟨core, [], false⟩] } := by
  refine { sound with
    counts := fun c => ?_, homes := fun tx there => ?_,
    lookups := fun c i busy => ?_, walked := fun p there standing => ?_ }
  · rw [sound.counts c, holders, holders, List.countP_append]
    simp
  · rcases List.mem_append.mp there with old | new
    · exact sound.homes tx old
    · rw [List.mem_singleton.mp new]
      exact bound
  · obtain ⟨tx, found, rest⟩ := sound.lookups c i busy
    exact ⟨tx, List.getElem?_append_left (List.getElem?_eq_some_iff.mp found).1 ▸ found, rest⟩
  · exact (sound.walked p there standing).same rfl rfl rfl rfl rfl

theorem Sound.see (core : Nat) : Sound (s.see core) := by
  refine { sound with walked := fun p there standing => ?_ }
  have walked := sound.walked p there standing
  refine walked.keep rfl rfl fun c h => ⟨?_, h.noReader, h.lookup⟩
  simp only [Node.see, Function.update_apply, walked.raised]
  split
  · rfl
  · exact h.seen

theorem Sound.lockBucket (there : s.txs[i]? = some tx) (idle : s.busy tx.core = .idle)
    (bucketIds : List Nat) :
    Sound { s with txs := s.txs.set i { tx with lockedBuckets := bucketIds } } := by
  refine { sound with
    counts := fun c => ?_, homes := mem_home_of_set sound.homes there rfl,
    lookups := fun c j busy => ?_, walked := fun p listed standing => ?_ }
  · have same := holders_set there { tx with lockedBuckets := bucketIds } rfl c
    rw [sound.counts c]
    simp only at same ⊢
    omega
  · exact lookup_set sound there _ busy (by rintro rfl; rw [idle] at busy; cases busy)
  · exact (sound.walked p listed standing).same rfl rfl rfl rfl rfl

/-- The core is busy with something else now. A lookup starts on a core that sees the flag down. -/
theorem Sound.setBusy (core : Nat) {busy : Busy}
    (lookup : ∀ i, busy = .lookup i → s.seen core = false ∧
      ∃ tx, s.txs[i]? = some tx ∧ tx.core = core ∧ tx.allBucketInfos = false)
    (replay : ∀ txn, busy = .replay txn false → dmFinished (s.logs txn) = true) :
    Sound (s.setBusy core busy) := by
  refine { sound with
    lookups := fun c i now => ?_, walked := fun p there standing => ?_,
    replays := fun c txn now => ?_ }
  · rw [Node.busy_setBusy] at now
    split at now
    · rename_i here
      exact here ▸ (lookup i now).2
    · exact sound.lookups c i now
  · refine (sound.walked p there standing).keep rfl rfl fun c h => ⟨h.seen, h.noReader, fun i now => ?_⟩
    rw [Node.busy_setBusy] at now
    split at now
    · rename_i here
      cases h.seen.symm.trans (here ▸ (lookup i now).1)
    · exact h.lookup i now
  · rw [Node.busy_setBusy] at now
    split at now
    · exact replay txn now
    · exact sound.replays c txn now

theorem Sound.fastToGetBucket (there : s.txs[i]? = some tx) (bucketId : Nat) :
    Sound (s.fastToGetBucket i tx bucketId) := by
  unfold Node.fastToGetBucket
  split
  · exact sound
  · rename_i unknown
    split
    · exact sound
    · rename_i down
      rw [not_or, Bool.not_eq_true] at unknown
      refine sound.setBusy tx.core ?_ nofun
      rintro _ ⟨⟩
      exact ⟨Bool.eq_false_of_not_eq_true down, tx, there, rfl, unknown.2⟩

theorem Sound.getAllBucketInfos (there : s.txs[i]? = some tx) (busy : s.busy tx.core = .lookup i) :
    Sound (s.getAllBucketInfos i tx) := by
  obtain ⟨x, found, -, free⟩ := sound.lookups _ _ busy
  cases there.symm.trans found
  have idle : Sound (s.setBusy tx.core .idle) := sound.setBusy tx.core nofun nofun
  refine { idle with
    counts := fun c => ?_, homes := mem_home_of_set sound.homes there rfl,
    lookups := fun c j other => ?_, walked := fun p listed standing => ?_ }
  · have same := holders_set there { tx with allBucketInfos := true } rfl c
    simp only [free, Bool.false_eq_true, and_false, if_false, and_true] at same
    simp only [Node.getAllBucketInfos, Function.update_apply]
    have before := sound.counts c
    by_cases here : c = tx.core
    · subst here
      simp only [if_true] at same ⊢
      omega
    · simp only [here, Ne.symm here, if_false] at same ⊢
      omega
  · have here : c ≠ tx.core := by
      rintro rfl
      rw [Node.getAllBucketInfos, Node.busy_setBusy, if_pos rfl] at other
      cases other
    exact lookup_set idle there _ other here
  · refine (sound.walked p listed standing).keep rfl rfl fun c h => ?_
    have apart : c ≠ tx.core := by
      rintro rfl
      exact h.lookup i busy
    refine ⟨h.seen, ?_, ?_⟩
    · simp only [Node.getAllBucketInfos, Function.update_of_ne apart, h.noReader]
    · simpa only [Node.getAllBucketInfos, Node.busy_setBusy, if_neg apart] using h.lookup

theorem Sound.clearCachedBucketInfos (there : s.txs[i]? = some tx) (idle : s.busy tx.core = .idle)
    (cleared : s.clearCachedBucketInfos i tx = some t) : Sound t := by
  unfold Node.clearCachedBucketInfos at cleared
  split at cleared
  · rename_i held
    obtain ⟨counted, done⟩ := Option.ite_none_left_eq_some.mp cleared
    cases done
    refine { sound with
      counts := fun c => ?_, homes := mem_home_of_set sound.homes there rfl,
      lookups := fun c j busy => ?_, walked := fun p listed standing => ?_ }
    · have same := holders_set there { tx with lockedBuckets := [], allBucketInfos := false } rfl c
      simp only [held, Bool.false_eq_true, and_false, if_false, and_true] at same
      simp only [Function.update_apply]
      have before := sound.counts c
      by_cases here : c = tx.core
      · subst here
        simp only [if_true] at same ⊢
        omega
      · simp only [here, Ne.symm here, if_false] at same ⊢
        omega
    · exact lookup_set sound there _ busy (by rintro rfl; rw [idle] at busy; cases busy)
    · refine (sound.walked p listed standing).keep rfl rfl fun c h => ⟨h.seen, ?_, h.lookup⟩
      have apart : c ≠ tx.core := by
        rintro rfl
        exact counted h.noReader
      simp only [Function.update_of_ne apart, h.noReader]
  · cases cleared
    exact sound.lockBucket there idle []

/-- Setting the flag to false ends what the calls of other operations have achieved. -/
theorem Sound.setBucketMigrating {isMigrating : Bool}
    (finished : isMigrating = false → dmFinished (s.logs txn) = true) :
    Sound (s.setBucketMigrating txn isMigrating) := by
  cases isMigrating with
  | true =>
    refine { sound with walked := fun p there standing => ?_ }
    have walked := sound.walked p there standing
    exact walked.same walked.raised.symm rfl rfl rfl rfl
  | false =>
    refine { sound with waiting := fun p there => ?_, walked := fun p there standing => ?_ }
    · obtain ⟨q, listed, rfl⟩ := List.mem_map.mp there
      exact sound.waiting q listed
    · obtain ⟨q, -, rfl⟩ := List.mem_map.mp there
      have own : q.txn = txn := by
        have kept := (Bool.or_eq_false_iff.mp standing.kept).2
        simpa using kept
      have open_ : dmFinished (s.logs q.txn) = false := standing.migrating
      rw [own, finished rfl] at open_
      cases open_

theorem Sound.publish (txn : Nat) :
    Sound { s.setBucketMigrating txn true with
      publishes := (s.setBucketMigrating txn true).publishes ++ [⟨txn, some 0, false⟩] } := by
  have raised : Sound (s.setBucketMigrating txn true) := sound.setBucketMigrating nofun
  refine { raised with waiting := fun p there => ?_, walked := fun p there standing => ?_ }
  · rcases List.mem_append.mp there with old | new
    · exact raised.waiting p old
    · rw [List.mem_singleton.mp new]
      rintro core ⟨⟩
      exact sound.cores
  · rcases List.mem_append.mp there with old | new
    · exact (raised.walked p old standing).same rfl rfl rfl rfl rfl
    · rw [List.mem_singleton.mp new]
      exact ⟨rfl, fun core before => absurd before (Nat.not_lt_zero core)⟩

/-- The request moves on from a core that it found without naked readers, and that sees the flag. -/
theorem Sound.waitNoNakedBucketRef {j core : Nat} {p : Publish} (there : s.publishes[j]? = some p)
    (here : p.core = some core) (idle : s.busy core = .idle)
    (seen : s.seen core = s.bucketsMigrating) : Sound (s.waitNoNakedBucketRef j p core) := by
  have listed := List.mem_of_getElem? there
  have bound := sound.waiting p listed core here
  unfold Node.waitNoNakedBucketRef
  split
  · exact sound
  rename_i free
  rw [not_not] at free
  have advance (next : Option Nat) (inside : ∀ c ∈ next, c < s.coreCnt)
      (onward : next.getD s.coreCnt = core + 1) :
      Sound { s with publishes := s.publishes.set j { p with core := next } } := by
    refine { sound with waiting := fun q mem => ?_, walked := fun q mem standing => ?_ }
    · rcases List.mem_or_eq_of_mem_set mem with old | rfl
      · exact sound.waiting q old
      · exact inside
    · rcases List.mem_or_eq_of_mem_set mem with old | rfl
      · exact (sound.walked q old standing).same rfl rfl rfl rfl rfl
      · have walked := sound.walked p listed ⟨standing.kept, standing.migrating⟩
        refine ⟨walked.raised, fun c before => ?_⟩
        simp only [onward] at before
        rcases Nat.lt_succ_iff_lt_or_eq.mp before with earlier | rfl
        · have passed := walked.passed c (by rw [here]; exact earlier)
          exact ⟨passed.seen, passed.noReader, passed.lookup⟩
        · refine ⟨seen.trans walked.raised, free, fun i busy => ?_⟩
          rw [idle] at busy
          cases busy
  split
  · rename_i more
    refine advance (some (core + 1)) ?_ rfl
    rintro c ⟨⟩
    omega
  · rename_i last
    refine advance none nofun ?_
    simp only [Option.getD_none]
    omega

end

/-- What an operation writes to its log next. -/
structure Extends (log : List ScaleOpMessage) (msg : ScaleOpMessage) : Prop where
  inOrder : msg.InOrder
  grows : dmFinished log = true → msg.dmFinished = true

variable {log : List ScaleOpMessage}

theorem dmFinished_eq (newest : log.head? = some msg) : dmFinished log = msg.dmFinished := by
  rw [dmFinished, newest]
  rfl

theorem InOrder.newest (h : InOrder log) (newest : log.head? = some msg) : msg.InOrder :=
  (h msg (List.mem_of_mem_head? newest)).1

theorem extends_migrate (h : InOrder log) (newest : log.head? = some msg) {nodeGroup : Nat}
    {now : NodeGroupMigrateStage} (here : msg.migrateProcess[nodeGroup]? = some now)
    (going : now ≠ .cleaned) (stage : NodeGroupMigrateStage) :
    Extends log { msg with migrateProcess := msg.migrateProcess.set nodeGroup stage } := by
  have unfinished : msg.dmFinished = false := by
    rw [ScaleOpMessage.dmFinished, List.all_eq_false]
    exact ⟨now, List.mem_of_getElem? here, by simpa using going⟩
  have inOrder : msg.InOrder := h.newest newest
  constructor
  · exact fun _ => inOrder unfinished
  · rw [dmFinished_eq newest, unfinished]
    exact nofun

theorem extends_stage (newest : log.head? = some msg) {stage : ClusterScaleStage}
    (inOrder : { msg with stage := stage }.InOrder) : Extends log { msg with stage := stage } where
  inOrder := inOrder
  grows finished := (dmFinished_eq newest).symm.trans finished

theorem dmFinished_writeLog (ext : Extends (s.logs txn) msg) (txn' : Nat)
    (finished : dmFinished (s.logs txn') = true) :
    dmFinished ((s.writeLog txn msg).logs txn') = true := by
  by_cases same : txn' = txn
  · subst same
    simpa [Node.writeLog, dmFinished] using ext.grows finished
  · simpa [Node.writeLog, same] using finished

theorem Sound.writeLog (sound : Sound s) (ext : Extends (s.logs txn) msg) :
    Sound (s.writeLog txn msg) := by
  refine { sound with
    walked := fun p there standing => ?_, logs := fun txn' content mem => ?_,
    replays := fun core txn' busy => dmFinished_writeLog ext txn' (sound.replays core txn' busy) }
  · have migrating : dmFinished (s.logs p.txn) = false := by
      by_contra finished
      have later := dmFinished_writeLog ext p.txn (Bool.eq_true_of_not_eq_false finished)
      cases later.symm.trans standing.migrating
    exact (sound.walked p there ⟨standing.kept, migrating⟩).same rfl rfl rfl rfl rfl
  · by_cases same : txn' = txn
    · subst same
      simp only [Node.writeLog, Function.update_self] at mem ⊢
      cases mem with
      | head => exact ⟨ext.inOrder, fun finished => finished⟩
      | tail _ old => exact ⟨(sound.logs _ content old).1, fun finished =>
          ext.grows ((sound.logs _ content old).2 finished)⟩
    · simp only [Node.writeLog, Function.update_of_ne same] at mem ⊢
      exact sound.logs txn' content mem

theorem extends_prepare (eventType : ScaleOpType) (process : List NodeGroupMigrateStage) :
    Extends [] ⟨eventType, .prepareScale, process⟩ where
  inOrder _ := ⟨by simp, by simp⟩
  grows := nofun

theorem extends_updateClusterConfig (newest : log.head? = some msg)
    (allowed : msg.eventType = .addNode ∨ msg.dmFinished = true) :
    Extends log { msg with stage := .configUpdate } := by
  refine extends_stage newest fun unfinished => ⟨by simp, fun removes => ?_⟩
  change msg.dmFinished = false at unfinished
  change msg.eventType = .removeNode at removes
  simp [unfinished, removes] at allowed

theorem extends_clean (newest : log.head? = some msg) (finished : msg.dmFinished = true) :
    Extends log { msg with stage := .cleanScale } :=
  extends_stage newest fun unfinished => absurd finished (Bool.eq_false_iff.mp unfinished)

/-- A replay lowers the flag at its end only where the log it came with says that the migration is
finished, and then the log of the operation says so as well. -/
theorem Sound.replay (sound : Sound s) (logged : msg ∈ s.logs txn) (isCoordinator : Bool) :
    Sound (((s.setBucketMigrating txn true).see 0).setBusy 0
      (.replay txn (msg.isBucketMigrating isCoordinator))) := by
  have raised : Sound (s.setBucketMigrating txn true) := sound.setBucketMigrating nofun
  refine (raised.see 0).setBusy 0 nofun fun txn' same => ?_
  injection same with own lowers
  subst own
  have inOrder := sound.logs txn msg logged
  exact inOrder.2 (inOrder.1.finished lowers)

theorem Sound.step (sound : Sound s) {a : Action} (next : step s a = some t) : Sound t := by
  cases a with
  | begin core =>
    obtain ⟨bound, done⟩ := Option.ite_none_right_eq_some.mp next
    cases done
    exact sound.begin bound
  | see core =>
    cases next
    exact sound.see core
  | lockBucket i bucketId =>
    obtain ⟨tx, there, rest⟩ := Option.bind_eq_some_iff.mp next
    obtain ⟨idle, done⟩ := Option.ite_none_right_eq_some.mp rest
    cases done
    exact sound.lockBucket there idle _
  | fastToGetBucket i bucketId =>
    obtain ⟨tx, there, rest⟩ := Option.bind_eq_some_iff.mp next
    obtain ⟨-, done⟩ := Option.ite_none_right_eq_some.mp rest
    cases done
    exact sound.fastToGetBucket there bucketId
  | getAllBucketInfos i =>
    obtain ⟨tx, there, rest⟩ := Option.bind_eq_some_iff.mp next
    obtain ⟨busy, done⟩ := Option.ite_none_right_eq_some.mp rest
    cases done
    exact sound.getAllBucketInfos there busy
  | clearCachedBucketInfos i =>
    obtain ⟨tx, there, rest⟩ := Option.bind_eq_some_iff.mp next
    obtain ⟨idle, cleared⟩ := Option.ite_none_right_eq_some.mp rest
    exact sound.clearCachedBucketInfos there idle cleared
  | publish txn isMigrating =>
    cases isMigrating with
    | true =>
      cases next
      exact sound.publish txn
    | false =>
      obtain ⟨finished, done⟩ := Option.ite_none_right_eq_some.mp next
      cases done
      exact sound.setBucketMigrating fun _ => finished
  | wait j =>
    obtain ⟨p, there, rest⟩ := Option.bind_eq_some_iff.mp next
    obtain ⟨core, here, rest⟩ := Option.bind_eq_some_iff.mp rest
    obtain ⟨idle, done⟩ := Option.ite_none_right_eq_some.mp rest
    cases done
    exact (sound.see core).waitNoNakedBucketRef there here idle (Function.update_self ..)
  | replay txn msg isCoordinator =>
    obtain ⟨⟨-, found⟩, done⟩ := Option.ite_none_right_eq_some.mp next
    cases done
    exact sound.replay found isCoordinator
  | replayEnd =>
    simp only [NakedBuckets.step] at next
    split at next
    · rename_i txn isMigrating busy
      cases next
      have finished (lowers : isMigrating = false) : dmFinished (s.logs txn) = true :=
        sound.replays 0 txn (lowers ▸ busy)
      exact ((sound.setBucketMigrating finished).see 0).setBusy 0 nofun nofun
    · cases next
  | prepareLog txn eventType nodeGroups =>
    obtain ⟨new, done⟩ := Option.ite_none_right_eq_some.mp next
    cases done
    apply sound.writeLog
    rw [new]
    exact extends_prepare eventType _
  | migrateLog txn nodeGroup stage =>
    obtain ⟨msg, newest, rest⟩ := Option.bind_eq_some_iff.mp next
    obtain ⟨now, here, rest⟩ := Option.bind_eq_some_iff.mp rest
    obtain ⟨going, done⟩ := Option.ite_none_right_eq_some.mp rest
    cases done
    exact sound.writeLog (extends_migrate (sound.logs txn) newest here going stage)
  | updateClusterConfigLog txn =>
    obtain ⟨msg, newest, rest⟩ := Option.bind_eq_some_iff.mp next
    obtain ⟨allowed, done⟩ := Option.ite_none_right_eq_some.mp rest
    cases done
    exact sound.writeLog (extends_updateClusterConfig newest allowed)
  | cleanLog txn =>
    obtain ⟨msg, newest, rest⟩ := Option.bind_eq_some_iff.mp next
    obtain ⟨finished, done⟩ := Option.ite_none_right_eq_some.mp rest
    cases done
    exact sound.writeLog (extends_clean newest finished)

theorem Reached.sound (reached : Reached s) : Sound s :=
  reached.invariant (fun _ => sound_of_started) fun _ _ _ next sound => sound.step next

/-- In every run, each core counts its transactions that hold bucket information without a lock. There
is none on the node from the answer to a call on, as long as the buckets of the operation's plan are
being migrated and no other operation has set the flag to false since the call set it. -/
theorem no_naked_reader_while_published (reached : Reached s) :
    (∀ core, s.nakedReaders core = holders s.txs core) ∧
      ∀ p ∈ s.publishes, p.core = none → dmFinished (s.logs p.txn) = false → p.lowered = false →
        ∀ tx ∈ s.txs, tx.allBucketInfos = false := by
  refine ⟨reached.sound.counts, fun p there answered migrating kept tx listed => ?_⟩
  have walked := reached.sound.walked p there ⟨kept, migrating⟩
  have passed := walked.passed tx.core (by rw [answered]; exact reached.sound.homes tx listed)
  have noHolder := (reached.sound.counts tx.core).symm.trans passed.noReader
  have free := List.countP_eq_zero.mp noHolder tx listed
  simpa using free

/-- A node with two cores. -/
def twoCores : Node where
  coreCnt := 2
  bucketsMigrating := false
  seen := fun _ => false
  busy := fun _ => .idle
  nakedReaders := fun _ => 0
  txs := []
  publishes := []
  logs := fun _ => []

def after (actions : List Action) : Node :=
  (actions.foldlM step twoCores).getD twoCores

theorem reached_after {actions : List Action}
    (possible : (actions.foldlM step twoCores).isSome = true) : Reached (after actions) := by
  have start : Reached twoCores :=
    .start ⟨by decide, fun _ => rfl, fun _ => rfl, rfl, rfl, fun _ => rfl⟩
  refine start.run (Run.of_foldlM step (fun _ _ _ h => h) (?_ : actions.foldlM step twoCores = _))
  obtain ⟨s, found⟩ := Option.isSome_iff_exists.mp possible
  rw [after, found, Option.getD_some]

/-- The request of the call waits for a transaction on the second core. The log of the operation is
replayed after the answer, for another node group. -/
def waitedFor : List Action :=
  [.begin 1, .fastToGetBucket 0 5, .prepareLog 1 .addNode 1, .publish 1 true, .getAllBucketInfos 0,
    .wait 0, .wait 0, .clearCachedBucketInfos 0, .wait 0, .updateClusterConfigLog 1,
    .replay 1 ⟨.addNode, .configUpdate, [.notStarted]⟩ false, .replayEnd, .see 1,
    .fastToGetBucket 0 5]

theorem no_naked_reader_after_wait :
    (after waitedFor).publishes = [⟨1, none, false⟩] ∧
      dmFinished ((after waitedFor).logs 1) = false ∧
      ∀ tx ∈ (after waitedFor).txs, tx.allBucketInfos = false :=
  ⟨by decide, by decide, (no_naked_reader_while_published (reached_after (by decide))).2
    ⟨1, none, false⟩ (by decide) rfl (by decide) rfl⟩

/-- An operation whose migration is over, before the next one starts. -/
def earlierScale : List Action :=
  [.prepareLog 2 .addNode 1, .updateClusterConfigLog 2, .migrateLog 2 0 .cleaned]

/-- The call that ends the earlier migration is late, and sets the flag to false during the walk. -/
def overtaken : List Action :=
  earlierScale ++ [.begin 0, .prepareLog 1 .addNode 1, .publish 1 true, .wait 0, .publish 2 false,
    .see 0, .fastToGetBucket 0 5, .getAllBucketInfos 0, .wait 0]

/-- The node replays the log of the earlier migration, for another node group. -/
def replayed : List Action :=
  earlierScale ++ [.begin 1, .prepareLog 1 .addNode 1, .publish 1 true, .wait 0, .wait 0,
    .replay 2 ⟨.addNode, .configUpdate, [.cleaned]⟩ false, .replayEnd, .see 1,
    .fastToGetBucket 0 5, .getAllBucketInfos 0]

theorem naked_reader_after_answer :
    Reached (after overtaken) ∧ (after overtaken).publishes = [⟨1, none, true⟩] ∧
      dmFinished ((after overtaken).logs 1) = false ∧
      (∃ tx ∈ (after overtaken).txs, tx.allBucketInfos = true) ∧
      Reached (after replayed) ∧ (after replayed).publishes = [⟨1, none, true⟩] ∧
      dmFinished ((after replayed).logs 1) = false ∧
      ∃ tx ∈ (after replayed).txs, tx.allBucketInfos = true :=
  ⟨reached_after (by decide), by decide, by decide, by decide, reached_after (by decide), by decide,
    by decide, by decide⟩

end TxService.NakedBuckets
