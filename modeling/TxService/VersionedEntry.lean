import Mathlib.Data.List.Pairwise
import TxService.Protocol

/-!
# A versioned cc entry

The newest version lives in the entry, older ones in a list that a garbage collector trims. The packed
word is its two fields, and a payload pointer is the value it points to.
-/

namespace TxService

universe u

structure VersionRecord (V : Type u) where
  payload : Option V
  commitTs : Nat
  payloadStatus : RecordStatus
  deriving DecidableEq

structure VersionResultRecord (V : Type u) where
  payloadPtr : Option V
  payloadStatus : RecordStatus
  commitTs : Nat
  deriving DecidableEq

structure CcEntry (V : Type u) where
  curPayload : Option V
  commitTs : Nat
  payloadStatus : RecordStatus
  ckptTs : Nat
  /-- Newest first; the pointer to the list may be null. -/
  archives : Option (List (VersionRecord V))
  deriving DecidableEq

variable {V : Type u}

/-- What `MvccGet` hands out of a version: a payload only when it is live. -/
def VersionRecord.answer (v : VersionRecord V) : VersionResultRecord V :=
  ⟨if v.payloadStatus = .normal then v.payload else none, v.payloadStatus, v.commitTs⟩

/-- The newest version of a history, newest first, that a timestamp can see. -/
def latest (history : List (VersionRecord V)) (ts : Nat) : Option (VersionRecord V) :=
  history.find? fun v => decide (v.commitTs ≤ ts)

variable {v : VersionRecord V} {ts : Nat} {older : List (VersionRecord V)}
  {history : List (VersionRecord V)}

theorem latest_cons_visible (h : v.commitTs ≤ ts) :
    latest (v :: older) ts = some v :=
  List.find?_cons_of_pos (by simpa using h)

theorem latest_cons_newer (h : ts < v.commitTs) :
    latest (v :: older) ts = latest older ts :=
  List.find?_cons_of_neg (by simpa using h)

theorem latest_some (h : latest history ts = some v) :
    v ∈ history ∧ v.commitTs ≤ ts :=
  ⟨List.mem_of_find?_eq_some h, by simpa using List.find?_some h⟩

/-- In a history with descending timestamps the version found is the largest one. -/
theorem latest_is_largest (sorted : history.Pairwise (·.commitTs > ·.commitTs))
    (h : latest history ts = some v) :
    ∀ u ∈ history, u.commitTs ≤ ts → u.commitTs ≤ v.commitTs := by
  induction history with
  | nil => simp
  | cons w older ih =>
    obtain ⟨below, sorted⟩ := List.pairwise_cons.mp sorted
    by_cases hw : w.commitTs ≤ ts
    · obtain rfl : w = v := by simpa [latest_cons_visible hw] using h
      intro u hu _
      rcases List.mem_cons.mp hu with rfl | hu
      · exact Nat.le_refl _
      · exact Nat.le_of_lt (below u hu)
    · rw [latest_cons_newer (by omega)] at h
      intro u hu hts
      rcases List.mem_cons.mp hu with rfl | hu
      · exact absurd hts hw
      · exact ih sorted h u hu hts

namespace CcEntry

/-- A new entry: nothing is known of the key. -/
def initial : CcEntry V := ⟨none, 0, .unknown, 0, none⟩

def setCommitTsPayloadStatus (e : CcEntry V) (ts : Nat) (status : RecordStatus) : CcEntry V :=
  if e.commitTs < ts then { e with commitTs := ts, payloadStatus := status } else e

def setCkptTs (e : CcEntry V) (ts : Nat) : CcEntry V :=
  if e.ckptTs ≤ ts then { e with ckptTs := ts } else e

/-- Moves, not copies, the current version to the archives. -/
def archiveBeforeUpdate (e : CcEntry V) : CcEntry V :=
  if e.payloadStatus = .unknown then e
  else { e with
    archives := some (⟨e.curPayload, e.commitTs, e.payloadStatus⟩ :: e.archives.getD [])
    curPayload := none }

/-- The archives up to the first one that every active transaction can see. -/
def keepVisible (oldestActiveTxTs : Nat) : List (VersionRecord V) → List (VersionRecord V)
  | [] => []
  | v :: older =>
    if v.commitTs ≤ oldestActiveTxTs then [v] else v :: keepVisible oldestActiveTxTs older

def kickOutArchiveRecords (e : CcEntry V) (oldestActiveTxTs : Nat) : CcEntry V :=
  match e.archives with
  | none => e
  | some archives =>
    if e.commitTs ≤ oldestActiveTxTs then { e with archives := none }
    else if archives.length ≤ 1 then e
    else { e with archives := some (keepVisible oldestActiveTxTs archives) }

def missStatus (e : CcEntry V) (ts : Nat) : RecordStatus :=
  if e.ckptTs = 0 then .versionUnknown
  else if e.ckptTs ≤ ts then .baseVersionMiss
  else .archiveVersionMiss

/-- The visible version at a read timestamp, and the shard's `last_read_ts_`,
which is raised only when the newest version is handed out. -/
def mvccGet (e : CcEntry V) (ts lastReadTs : Nat) : VersionResultRecord V × Nat :=
  if e.payloadStatus = .unknown then (⟨none, .unknown, e.commitTs⟩, lastReadTs)
  else if e.commitTs ≤ ts then
    (⟨if e.payloadStatus = .normal then e.curPayload else none, e.payloadStatus, e.commitTs⟩,
      max ts lastReadTs)
  else
    match (e.archives.getD []).find? (fun v => decide (v.commitTs ≤ ts)) with
    | some v => (v.answer, lastReadTs)
    | none => (⟨none, e.missStatus ts, 1⟩, lastReadTs)

def hasVisibleVersion (e : CcEntry V) (readTs : Nat) : Bool :=
  decide (e.commitTs ≤ readTs) ||
    match (e.archives.getD []).getLast? with
    | some v => decide (v.commitTs ≤ readTs)
    | none => false

/-- What `PostWriteCc` does for MVCC before it looks at the new version. -/
def archiveForMvcc (e : CcEntry V) (recycleTs : Nat) : CcEntry V :=
  (e.kickOutArchiveRecords recycleTs).archiveBeforeUpdate

/-- What `PostWriteCc` does to install the new version. -/
def installVersion (e : CcEntry V) (commitTs : Nat) (isDel : Bool) (payload : Option V) :
    CcEntry V :=
  { e with curPayload := if isDel then none else payload }.setCommitTsPayloadStatus commitTs
    (if isDel then .deleted else .normal)

def current (e : CcEntry V) : VersionRecord V := ⟨e.curPayload, e.commitTs, e.payloadStatus⟩

def versions (e : CcEntry V) : List (VersionRecord V) := e.current :: e.archives.getD []

theorem keepVisible_isPrefix (r : Nat) (archives : List (VersionRecord V)) :
    keepVisible r archives <+: archives := by
  induction archives with
  | nil => exact List.prefix_rfl
  | cons v older ih =>
    simp only [keepVisible]
    split
    · exact (List.prefix_cons_inj v).mpr older.nil_prefix
    · exact (List.prefix_cons_inj v).mpr ih

variable {r ts : Nat}

/-- Trimming below a watermark is invisible at and above it. -/
theorem keepVisible_latest (h : r ≤ ts) (archives : List (VersionRecord V)) :
    latest (keepVisible r archives) ts = latest archives ts := by
  induction archives with
  | nil => rfl
  | cons v older ih =>
    simp only [keepVisible]
    split
    · rename_i hv
      rw [latest_cons_visible (by omega), latest_cons_visible (by omega)]
    · by_cases hts : v.commitTs ≤ ts
      · rw [latest_cons_visible hts, latest_cons_visible hts]
      · rw [latest_cons_newer (by omega), latest_cons_newer (by omega), ih]

/-- `KickOutArchiveRecords` touches the archives only. -/
theorem kickOut_current (e : CcEntry V) (r : Nat) :
    (e.kickOutArchiveRecords r).current = e.current ∧
      (e.kickOutArchiveRecords r).ckptTs = e.ckptTs := by
  unfold kickOutArchiveRecords
  split
  · exact ⟨rfl, rfl⟩
  · split
    · exact ⟨rfl, rfl⟩
    · split <;> exact ⟨rfl, rfl⟩

theorem kickOut_isPrefix (e : CcEntry V) (r : Nat) :
    (e.kickOutArchiveRecords r).versions <+: e.versions := by
  unfold versions
  rw [(kickOut_current e r).1]
  refine (List.prefix_cons_inj _).mpr ?_
  unfold kickOutArchiveRecords
  split
  · exact List.prefix_rfl
  · rename_i archives ha
    split
    · exact List.nil_prefix
    · split
      · exact List.prefix_rfl
      · simpa [ha] using keepVisible_isPrefix r archives

theorem kickOut_latest (h : r ≤ ts) (e : CcEntry V) :
    latest (e.kickOutArchiveRecords r).versions ts = latest e.versions ts := by
  unfold versions
  rw [(kickOut_current e r).1]
  by_cases hts : e.commitTs ≤ ts
  · rw [latest_cons_visible hts, latest_cons_visible hts]
  · have newer : ts < e.current.commitTs := Nat.lt_of_not_le hts
    rw [latest_cons_newer newer, latest_cons_newer newer]
    unfold kickOutArchiveRecords
    split
    · rfl
    · rename_i archives ha
      split
      · omega
      · split
        · rfl
        · simpa [ha] using keepVisible_latest h archives

/-- `MvccGet` of a known entry answers from the newest visible version in
memory, or says where else to look. -/
theorem mvccGet_eq_latest (e : CcEntry V) (ts lastReadTs : Nat)
    (known : e.payloadStatus ≠ .unknown) :
    (e.mvccGet ts lastReadTs).1 =
      match latest e.versions ts with
      | some v => v.answer
      | none => ⟨none, e.missStatus ts, 1⟩ := by
  unfold mvccGet versions
  by_cases hts : e.commitTs ≤ ts
  · rw [latest_cons_visible (v := e.current) hts]
    simp only [known, hts, ↓reduceIte]
    rfl
  · rw [latest_cons_newer (v := e.current) (Nat.lt_of_not_le hts)]
    simp only [known, hts, ↓reduceIte, latest]
    split <;> simp_all

variable {e : CcEntry V}

/-- With descending versions the last archive decides whether anything is visible. -/
theorem hasVisibleVersion_of_latest {ts : Nat} {v : VersionRecord V}
    (sorted : e.versions.Pairwise (·.commitTs > ·.commitTs)) (h : latest e.versions ts = some v) :
    e.hasVisibleVersion ts = true := by
  unfold hasVisibleVersion
  obtain ⟨hmem, hv⟩ := latest_some h
  rcases List.mem_cons.mp hmem with rfl | harch
  · simp [show e.commitTs ≤ ts from hv]
  · have ne := List.ne_nil_of_mem harch
    have descending : (e.archives.getD []).Pairwise (·.commitTs ≥ ·.commitTs) :=
      (List.pairwise_cons.mp sorted).2.imp Nat.le_of_lt
    have below : ((e.archives.getD []).getLast ne).commitTs ≤ v.commitTs :=
      descending.rel_getLast_of_rel_getLast_getLast harch (Nat.le_refl _)
    simp [List.getLast?_eq_some_getLast ne, Nat.le_trans below hv]

/-- One committed write with the recycle timestamp of the moment. -/
structure Commit (V : Type u) where
  recycleTs : Nat
  commitTs : Nat
  isDel : Bool
  payload : Option V
  deriving DecidableEq

/-- The version a commit stands for. -/
def Commit.version (c : Commit V) : VersionRecord V :=
  ⟨if c.isDel then none else c.payload, c.commitTs, if c.isDel then .deleted else .normal⟩

def commit (e : CcEntry V) (c : Commit V) : CcEntry V :=
  (e.archiveForMvcc c.recycleTs).installVersion c.commitTs c.isDel c.payload

/-- The entry in memory stands for a whole history above a watermark. -/
structure Represents (e : CcEntry V) (history : List (VersionRecord V)) (watermark : Nat) :
    Prop where
  known : e.payloadStatus ≠ .unknown
  sorted : history.Pairwise (·.commitTs > ·.commitTs)
  newest : history.head? = some e.current
  sublist : e.versions.Sublist history
  visible : ∀ ts, watermark ≤ ts → latest e.versions ts = latest history ts

theorem archiveForMvcc_known (r : Nat) (known : e.payloadStatus ≠ .unknown) :
    (e.archiveForMvcc r).archives = some (e.kickOutArchiveRecords r).versions := by
  have same : (e.kickOutArchiveRecords r).payloadStatus = e.payloadStatus :=
    congrArg VersionRecord.payloadStatus (kickOut_current e r).1
  simp [archiveForMvcc, archiveBeforeUpdate, same, known, versions, current]

/-- The bookkeeping leaves everything of the current version but its payload. -/
theorem archiveForMvcc_frame (e : CcEntry V) (r : Nat) :
    (e.archiveForMvcc r).commitTs = e.commitTs ∧
      (e.archiveForMvcc r).payloadStatus = e.payloadStatus ∧
      (e.archiveForMvcc r).ckptTs = e.ckptTs := by
  obtain ⟨current, ckpt⟩ := kickOut_current e r
  have commit := congrArg VersionRecord.commitTs current
  have status := congrArg VersionRecord.payloadStatus current
  unfold archiveForMvcc archiveBeforeUpdate
  split <;> exact ⟨commit, status, ckpt⟩

variable {c : Commit V}

/-- The versions after a commit: the new one over what the collector left. -/
theorem commit_versions (known : e.payloadStatus ≠ .unknown) (newer : e.commitTs < c.commitTs) :
    (e.commit c).versions = c.version :: (e.kickOutArchiveRecords c.recycleTs).versions ∧
      (e.commit c).payloadStatus ≠ .unknown := by
  have archived := archiveForMvcc_known c.recycleTs known
  have newer' : (e.archiveForMvcc c.recycleTs).commitTs < c.commitTs := by
    rwa [(archiveForMvcc_frame e c.recycleTs).1]
  constructor
  · simp [commit, installVersion, setCommitTsPayloadStatus, newer', versions, current,
      Commit.version, archived]
  · simp only [commit, installVersion, setCommitTsPayloadStatus, newer', ↓reduceIte]
    split <;> simp

variable {history : List (VersionRecord V)} {watermark : Nat}

theorem commit_represents (h : Represents e history watermark) (newer : e.commitTs < c.commitTs) :
    Represents (e.commit c) (c.version :: history) (max watermark c.recycleTs) := by
  obtain ⟨versions, known⟩ := commit_versions h.known newer
  have kept : ((e.kickOutArchiveRecords c.recycleTs).versions).Sublist history :=
    (kickOut_isPrefix e c.recycleTs).sublist.trans h.sublist
  refine ⟨known, List.pairwise_cons.mpr ⟨?_, h.sorted⟩, ?_, ?_, ?_⟩
  · -- the head of the history is the entry's version, the rest is below it
    obtain ⟨older, rfl⟩ := List.head?_eq_some_iff.mp h.newest
    intro v hv
    rcases List.mem_cons.mp hv with rfl | hv
    · exact newer
    · exact Nat.lt_trans ((List.pairwise_cons.mp h.sorted).1 v hv) newer
  · exact congrArg some (List.cons.inj versions).1.symm
  · rw [versions]
    exact kept.cons_cons _
  · intro ts hts
    rw [versions]
    by_cases hc : c.commitTs ≤ ts
    · rw [latest_cons_visible (v := c.version) hc, latest_cons_visible (v := c.version) hc]
    · have hidden : ts < c.version.commitTs := Nat.lt_of_not_le hc
      rw [latest_cons_newer hidden, latest_cons_newer hidden, kickOut_latest (by omega),
        h.visible ts (by omega)]

theorem commits_represent (h : Represents e history watermark) (commits : List (Commit V))
    (increasing : (e.commitTs :: commits.map (·.commitTs)).Pairwise (· < ·)) :
    Represents (commits.foldl commit e) ((commits.map Commit.version).reverse ++ history)
      (commits.foldl (fun w c => max w c.recycleTs) watermark) := by
  induction commits generalizing e history watermark with
  | nil => exact h
  | cons c rest ih =>
    obtain ⟨above, increasing⟩ := List.pairwise_cons.mp increasing
    have next := commit_represents h (above c.commitTs (by simp))
    have ts : (e.commit c).commitTs = c.commitTs := by
      have head := List.head?_eq_some_iff.mp next.newest
      obtain ⟨_, hcons⟩ := head
      exact (congrArg VersionRecord.commitTs (List.cons.inj hcons).1).symm
    have := ih next (by rwa [ts])
    simpa using this

theorem foldl_max_le {commits : List (Commit V)} {watermark ts : Nat} (h0 : watermark ≤ ts)
    (h : ∀ c ∈ commits, c.recycleTs ≤ ts) :
    commits.foldl (fun w c => max w c.recycleTs) watermark ≤ ts := by
  induction commits generalizing watermark with
  | nil => exact h0
  | cons c rest ih =>
    exact ih (Nat.max_le.mpr ⟨h0, h c (by simp)⟩) fun c' hc => h c' (List.mem_cons_of_mem _ hc)

theorem initial_represents (known : e.payloadStatus ≠ .unknown) (fresh : e.archives.getD [] = []) :
    Represents e [e.current] 0 :=
  ⟨known, List.pairwise_singleton _ _, rfl, by simp [versions, fresh],
    fun _ _ => by simp [versions, fresh]⟩

/-- **Multi-version reads.** After any run of commits over a known version
without archives, a read at a timestamp no older than the first version and
than every recycle timestamp used gets exactly the largest version at or below
it, whatever the collector has dropped in between. -/
theorem mvccGet_returns_latest (e : CcEntry V)
    (known : e.payloadStatus = .normal ∨ e.payloadStatus = .deleted)
    (fresh : e.archives.getD [] = []) (commits : List (Commit V))
    (increasing : (e.commitTs :: commits.map (·.commitTs)).Pairwise (· < ·))
    (ts lastReadTs : Nat) (first : e.commitTs ≤ ts) (recycled : ∀ c ∈ commits, c.recycleTs ≤ ts) :
    (∃ v ∈ e.current :: commits.map Commit.version,
      v.commitTs ≤ ts ∧
      (∀ u ∈ e.current :: commits.map Commit.version, u.commitTs ≤ ts → u.commitTs ≤ v.commitTs) ∧
      ((commits.foldl commit e).mvccGet ts lastReadTs).1 = v.answer) ∧
    (commits.foldl commit e).hasVisibleVersion ts = true := by
  have known : e.payloadStatus ≠ .unknown := by rcases known with h | h <;> simp [h]
  have rep := commits_represent (initial_represents known fresh) commits increasing
  have mem (v : VersionRecord V) : v ∈ e.current :: commits.map Commit.version ↔
      v ∈ (commits.map Commit.version).reverse ++ [e.current] := by
    simp [or_comm]
  obtain ⟨v, hv⟩ : ∃ v, latest ((commits.map Commit.version).reverse ++ [e.current]) ts = some v :=
    Option.isSome_iff_exists.mp (List.find?_isSome.mpr
      ⟨e.current, (mem _).mp List.mem_cons_self, decide_eq_true first⟩)
  have visible := rep.visible ts (foldl_max_le (Nat.zero_le _) recycled)
  rw [hv] at visible
  obtain ⟨hmem, hts⟩ := latest_some hv
  refine ⟨⟨v, (mem v).mpr hmem, hts, ?_, ?_⟩, ?_⟩
  · intro u hu
    exact latest_is_largest rep.sorted hv u ((mem u).mp hu)
  · rw [mvccGet_eq_latest _ _ _ rep.known, visible]
  · exact hasVisibleVersion_of_latest (rep.sorted.sublist rep.sublist) visible

/-- The first version is collected, the second one read below a later delete. -/
theorem mvccGet_returns_latest_trimmed :
    let e : CcEntry Nat := ⟨some 7, 5, .normal, 0, none⟩
    let commits : List (Commit Nat) := [⟨6, 10, false, some 8⟩, ⟨11, 15, true, none⟩]
    ((commits.foldl commit e).mvccGet 12 0).1 = ⟨some 8, .normal, 10⟩ ∧
    (commits.foldl commit e).hasVisibleVersion 12 = true := by
  intro e commits
  exact ⟨by decide, (mvccGet_returns_latest e (Or.inl rfl) rfl commits (by decide) 12 0
    (by decide) (by decide)).2⟩

section
variable {e : CcEntry V} {c : Commit V}

theorem kickOut_archives_isPrefix (e : CcEntry V) (r : Nat) :
    (e.kickOutArchiveRecords r).archives.getD [] <+: e.archives.getD [] := by
  have := e.kickOut_isPrefix r
  unfold versions at this
  rw [(e.kickOut_current r).1] at this
  exact (List.prefix_cons_inj _).mp this

/-- What lies below a new version: the archives the collector left, under the version it
replaces if one was known. -/
theorem commit_archives (newer : e.commitTs < c.commitTs) :
    (e.commit c).archives.getD [] =
      if e.payloadStatus = .unknown then (e.kickOutArchiveRecords c.recycleTs).archives.getD []
      else e.current :: (e.kickOutArchiveRecords c.recycleTs).archives.getD [] := by
  have current := (e.kickOut_current c.recycleTs).1
  by_cases unknown : e.payloadStatus = .unknown
  · have same : (e.kickOutArchiveRecords c.recycleTs).payloadStatus = .unknown :=
      (congrArg VersionRecord.payloadStatus current).trans unknown
    simp [commit, installVersion, setCommitTsPayloadStatus, archiveForMvcc, archiveBeforeUpdate,
      unknown, same, apply_ite CcEntry.archives]
  · have := (commit_versions unknown newer).1
    rw [if_neg unknown, (List.cons.inj this).2, versions, current]

theorem commit_known (newer : e.commitTs < c.commitTs) :
    (e.commit c).commitTs = c.commitTs := by
  have := (e.archiveForMvcc_frame c.recycleTs).1
  simp [commit, installVersion, setCommitTsPayloadStatus, this, newer]

theorem kept_descending (descending : e.versions.Pairwise (·.commitTs > ·.commitTs)) (r : Nat) :
    (e.current :: (e.kickOutArchiveRecords r).archives.getD []).Pairwise
      (·.commitTs > ·.commitTs) :=
  descending.sublist ((e.kickOut_archives_isPrefix r).sublist.cons_cons e.current)

theorem commit_descending (descending : e.versions.Pairwise (·.commitTs > ·.commitTs))
    (newer : e.commitTs < c.commitTs) :
    (e.commit c).versions.Pairwise (·.commitTs > ·.commitTs) := by
  obtain ⟨below, sorted⟩ := List.pairwise_cons.mp (kept_descending descending c.recycleTs)
  have top : (e.commit c).current.commitTs = c.commitTs := commit_known newer
  rw [versions, commit_archives newer]
  apply List.pairwise_cons.mpr
  by_cases unknown : e.payloadStatus = .unknown
  · rw [if_pos unknown, top]
    exact ⟨fun v hv => Nat.lt_trans (below v hv) newer, sorted⟩
  · rw [if_neg unknown, top]
    refine ⟨?_, kept_descending descending c.recycleTs⟩
    intro v hv
    cases hv with
    | head => exact newer
    | tail _ hv => exact Nat.lt_trans (below v hv) newer

end

end CcEntry

/-- An entry whose versions descend. Timestamp 0 is no version of a record: a new entry
carries it as long as nothing is known of its key. -/
structure OrderedEntry (V : Type u) extends CcEntry V where
  descending : toCcEntry.versions.Pairwise (·.commitTs > ·.commitTs)
  positive : ∀ v ∈ archives.getD [], 0 < v.commitTs
  known : payloadStatus ≠ .unknown → 0 < commitTs

namespace OrderedEntry

theorem archives_sorted (e : OrderedEntry V) :
    (e.archives.getD []).Pairwise (·.commitTs > ·.commitTs) :=
  (List.pairwise_cons.mp e.descending).2

theorem archive_below (e : OrderedEntry V) {v : VersionRecord V} (h : v ∈ e.archives.getD []) :
    v.commitTs < e.commitTs :=
  (List.pairwise_cons.mp e.descending).1 v h

def initial : OrderedEntry V where
  toCcEntry := CcEntry.initial
  descending := by simp [CcEntry.versions, CcEntry.initial]
  positive := by simp [CcEntry.initial]
  known := fun h => absurd rfl h

/-- A commit above the entry's version. -/
def commit (e : OrderedEntry V) (c : CcEntry.Commit V) (newer : e.commitTs < c.commitTs) :
    OrderedEntry V where
  toCcEntry := e.toCcEntry.commit c
  descending := CcEntry.commit_descending e.descending newer
  positive := by
    intro v hv
    rw [CcEntry.commit_archives newer] at hv
    have kept := (e.toCcEntry.kickOut_archives_isPrefix c.recycleTs).subset
    by_cases unknown : e.payloadStatus = .unknown
    · rw [if_pos unknown] at hv
      exact e.positive v (kept hv)
    · rw [if_neg unknown] at hv
      cases hv with
      | head => exact e.known unknown
      | tail _ hv => exact e.positive v (kept hv)
  known := by
    intro _
    rw [CcEntry.commit_known newer]
    omega

end OrderedEntry

end TxService
