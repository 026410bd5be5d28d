import Mathlib.Data.List.Forall2
import Mathlib.Data.List.Perm.Subperm
import TxService.ClusterConfig

/-!
# Membership plans of the cluster

A node joins as the preferred leader of a group of its own, and its groups go with it; groups that
are short of members are filled up with the nodes that are in the fewest groups.
-/

namespace TxService.ClusterConfig

/-- The cluster configuration of a node. Every group starts with its preferred leader, and no node
is the preferred leader of two groups. -/
structure Cluster where
  ngConfigs : NgConfigs
  /-- The node ids of `nodes_configs_`. -/
  nodesConfigs : List Nat
  distinct : (ngConfigs.map Prod.fst).Nodup
  occupied : ∀ g ∈ ngConfigs, g.2 ≠ []
  members : ∀ g ∈ ngConfigs, (g.2.map NodeConfig.nodeId).Nodup
  leaders : (ngConfigs.filterMap fun g => g.2.head?.map NodeConfig.nodeId).Nodup
  known : ∀ g ∈ ngConfigs, ∀ m ∈ g.2, m.nodeId ∈ nodesConfigs

/-- The orders in which the unordered maps are walked. -/
structure Walks where
  groups : NgConfigs → NgConfigs
  groups_perm : ∀ configs, (groups configs).Perm configs
  counts : List (Nat × Nat) → List (Nat × Nat)
  counts_perm : ∀ entries, (counts entries).Perm entries

def incrCount (counts : List (Nat × Nat)) (nodeId : Nat) : List (Nat × Nat) :=
  counts.map fun e => if e.1 = nodeId then (e.1, e.2 + 1) else e

/-- One member of the walk that builds `node_ng_count` and `nodes_configs`. -/
def countNode (maps : List (Nat × Nat) × List (Nat × NodeConfig)) (node : NodeConfig) :
    List (Nat × Nat) × List (Nat × NodeConfig) :=
  (incrCount (tryEmplace maps.1 node.nodeId 0) node.nodeId,
    if (maps.1.lookup node.nodeId).isSome then maps.2 else tryEmplace maps.2 node.nodeId node)

def countNodes (groups : NgConfigs) : List (Nat × Nat) × List (Nat × NodeConfig) :=
  groups.foldl (fun maps g => g.2.foldl countNode maps) ([], [])

def inGroup (members : List NodeConfig) (nodeId : Nat) : Bool :=
  members.any (·.nodeId == nodeId)

/-- One entry of the search for the node in the fewest groups. The start values, -1 and
`INT32_MAX`, stand for no node. -/
def leastStep (members : List NodeConfig) (least : Option (Nat × Nat)) (entry : Nat × Nat) :
    Option (Nat × Nat) :=
  if least.all (entry.2 < ·.2) then
    if inGroup members entry.1 then least else some entry
  else least

def leastNode (members : List NodeConfig) (nodeNgCount : List (Nat × Nat)) : Option (Nat × Nat) :=
  nodeNgCount.foldl (leastStep members) none

/-- The loop that adds the missing members to a group; there is no result when the assertion on the
node found fails. The loop ends with the last missing member, as each turn adds one. -/
def fillMembers (walks : Walks) (nodesConfigs : List (Nat × NodeConfig)) :
    Nat → List NodeConfig → List (Nat × Nat) → Option (List NodeConfig × List (Nat × Nat))
  | 0, members, counts => some (members, counts)
  | missing + 1, members, counts => do
    let least ← leastNode members (walks.counts counts)
    let node := { (nodesConfigs.lookup least.1).getD {} with isCandidate := false }
    fillMembers walks nodesConfigs missing (members ++ [node]) (incrCount counts least.1)

def fillGroups (walks : Walks) (nodesConfigs : List (Nat × NodeConfig)) (repGroupCnt : Nat) :
    NgConfigs → List (Nat × Nat) → Option NgConfigs
  | [], _ => some []
  | g :: rest, counts => do
    let (members, counts) ←
      fillMembers walks nodesConfigs (repGroupCnt - g.2.length) g.2 counts
    let rest ← fillGroups walks nodesConfigs repGroupCnt rest counts
    some ((g.1, members) :: rest)

def rebalanceNgMembers (walks : Walks) (repGroupCnt : Nat) (newNgConfigs : NgConfigs) :
    Option NgConfigs :=
  let groups := walks.groups newNgConfigs
  let repGroupCnt := if repGroupCnt < groups.length then repGroupCnt else groups.length
  if repGroupCnt = 0 then none
  else
    let (nodeNgCount, nodesConfigs) := countNodes groups
    fillGroups walks nodesConfigs repGroupCnt groups nodeNgCount

/-- The search for the next id that is not in use. -/
def skipUsed (used : List Nat) (id : Nat) : Nat :=
  if id ∈ used then skipUsed used (id + 1) else id
termination_by (used.filter (id ≤ ·)).length
decreasing_by
  rename_i listed
  have fewer : (used.filter (id + 1 ≤ ·)).Sublist (used.filter (id ≤ ·)) := by
    refine List.monotone_filter_right used fun k later => ?_
    simp only [decide_eq_true_eq] at later ⊢
    omega
  refine Nat.lt_of_le_of_ne fewer.length_le fun same => ?_
  have all := fewer.eq_of_length same
  have here : id ∈ used.filter (id + 1 ≤ ·) := by
    rw [all]
    exact List.mem_filter.mpr ⟨listed, by simp⟩
  have later := (List.mem_filter.mp here).2
  simp only [decide_eq_true_eq] at later
  omega

/-- The new groups, one for each new node, from the next ids to try. -/
def newGroups (nodesConfigs : List Nat) :
    List (String × Nat) → NgConfigs → NodeGroupId → Nat → NgConfigs
  | [], configs, _, _ => configs
  | node :: rest, configs, newNgId, newNodeId =>
    let newNgId := skipUsed (configs.map Prod.fst) newNgId
    let newNodeId := skipUsed nodesConfigs newNodeId
    newGroups nodesConfigs rest
      (tryEmplace configs newNgId [⟨newNodeId, node.1, node.2, true⟩]) (newNgId + 1) (newNodeId + 1)

def addNodeToCluster (walks : Walks) (repGroupCnt : Nat) (cluster : Cluster)
    (newNodes : List (String × Nat)) : Option NgConfigs :=
  rebalanceNgMembers walks repGroupCnt
    (newGroups cluster.nodesConfigs newNodes cluster.ngConfigs 0
      (cluster.nodesConfigs.foldl max 0 + 1))

/-- The node's address is in the list. -/
def NodeConfig.isIn (node : NodeConfig) (nodes : List (String × Nat)) : Bool :=
  nodes.any fun rm => rm.1 == node.hostName && rm.2 == node.port

def removedNgIds (configs : NgConfigs) (removedNodes : List (String × Nat)) : List NodeGroupId :=
  (configs.filter fun g => g.2.any fun m => m.isCandidate && m.isIn removedNodes).map Prod.fst

def removedNodeIds (configs : NgConfigs) (removedNodes : List (String × Nat)) : List Nat :=
  configs.flatMap fun g =>
    (g.2.filter fun m => m.isCandidate && m.isIn removedNodes).map NodeConfig.nodeId

/-- Takes the removed nodes out of a group, except for its first member. -/
def eraseMembers (removedIds : List Nat) : List NodeConfig → List NodeConfig
  | [] => []
  | leader :: rest => leader :: rest.filter fun m => m.nodeId ∉ removedIds

def remainingGroups (configs : NgConfigs) (removedNodes : List (String × Nat)) : NgConfigs :=
  (configs.filter fun g => g.1 ∉ removedNgIds configs removedNodes).map fun g =>
    (g.1, eraseMembers (removedNodeIds configs removedNodes) g.2)

def removeNodeFromCluster (walks : Walks) (repGroupCnt : Nat) (cluster : Cluster)
    (removedNodes : List (String × Nat)) : Option NgConfigs :=
  rebalanceNgMembers walks repGroupCnt (remainingGroups cluster.ngConfigs removedNodes)

@[simp] theorem map_fst_incrCount (counts : List (Nat × Nat)) (nodeId : Nat) :
    (incrCount counts nodeId).map Prod.fst = counts.map Prod.fst := by
  unfold incrCount
  rw [List.map_map]
  refine List.map_congr_left fun e _ => ?_
  rw [Function.comp_apply]
  split <;> rfl

variable {α : Type} {seen : List NodeConfig} {maps : List (Nat × Nat) × List (Nat × NodeConfig)}

theorem mem_keys_iff {map : List (Nat × α)} {key : Nat} :
    key ∈ map.map Prod.fst ↔ (map.lookup key).isSome := by
  constructor
  · intro listed
    by_contra absent
    rw [Bool.not_eq_true, Option.isSome_eq_false_iff, Option.isNone_iff_eq_none,
      List.lookup_eq_none_iff] at absent
    obtain ⟨e, there, rfl⟩ := List.mem_map.mp listed
    simpa using absent e there
  · intro present
    by_contra absent
    rw [lookup_eq_none absent] at present
    cases present

theorem map_fst_tryEmplace (map : List (Nat × α)) (key : Nat) (value : α) :
    (tryEmplace map key value).map Prod.fst =
      if key ∈ map.map Prod.fst then map.map Prod.fst else map.map Prod.fst ++ [key] := by
  unfold tryEmplace
  simp only [mem_keys_iff]
  split <;> simp

/-- The maps built from the members seen so far have each node once, and the record of one of its
memberships. -/
structure Counted (seen : List NodeConfig)
    (maps : List (Nat × Nat) × List (Nat × NodeConfig)) : Prop where
  nodup : (maps.1.map Prod.fst).Nodup
  keys : ∀ id, id ∈ maps.1.map Prod.fst ↔ ∃ m ∈ seen, m.nodeId = id
  records : ∀ id ∈ maps.1.map Prod.fst,
    ∃ r ∈ seen, r.nodeId = id ∧ maps.2.lookup id = some r
  unseen : ∀ id ∉ maps.1.map Prod.fst, maps.2.lookup id = none

theorem Counted.countNode (counted : Counted seen maps) (node : NodeConfig) :
    Counted (seen ++ [node]) (countNode maps node) := by
  by_cases present : node.nodeId ∈ maps.1.map Prod.fst
  · have keys : (ClusterConfig.countNode maps node).1.map Prod.fst = maps.1.map Prod.fst := by
      simp only [ClusterConfig.countNode, map_fst_incrCount, map_fst_tryEmplace, if_pos present]
    have records : (ClusterConfig.countNode maps node).2 = maps.2 := by
      simp only [ClusterConfig.countNode, mem_keys_iff.mp present, if_true]
    constructor
    · rw [keys]
      exact counted.nodup
    · intro id
      rw [keys, counted.keys]
      constructor
      · rintro ⟨m, there, same⟩
        exact ⟨m, List.mem_append_left _ there, same⟩
      · rintro ⟨m, there, rfl⟩
        rcases List.mem_append.mp there with old | new
        · exact ⟨m, old, rfl⟩
        · rw [List.mem_singleton.mp new]
          exact (counted.keys _).mp present
    · intro id listed
      rw [keys] at listed
      obtain ⟨r, there, same, found⟩ := counted.records id listed
      exact ⟨r, List.mem_append_left _ there, same, by rw [records, found]⟩
    · intro id absent
      rw [keys] at absent
      rw [records, counted.unseen id absent]
  · have keys : (ClusterConfig.countNode maps node).1.map Prod.fst =
        maps.1.map Prod.fst ++ [node.nodeId] := by
      simp only [ClusterConfig.countNode, map_fst_incrCount, map_fst_tryEmplace, if_neg present]
    have records : (ClusterConfig.countNode maps node).2 =
        tryEmplace maps.2 node.nodeId node := by
      simp only [ClusterConfig.countNode, lookup_eq_none present]
      rfl
    have fresh := counted.unseen _ present
    constructor
    · rw [keys, List.nodup_append]
      refine ⟨counted.nodup, by simp, ?_⟩
      rintro id listed _ new rfl
      exact present (List.mem_singleton.mp new ▸ listed)
    · intro id
      rw [keys, List.mem_append, counted.keys, List.mem_singleton]
      constructor
      · rintro (⟨m, there, same⟩ | rfl)
        · exact ⟨m, List.mem_append_left _ there, same⟩
        · exact ⟨node, by simp, rfl⟩
      · rintro ⟨m, there, rfl⟩
        rcases List.mem_append.mp there with old | new
        · exact Or.inl ⟨m, old, rfl⟩
        · exact Or.inr (congrArg _ (List.mem_singleton.mp new))
    · intro id listed
      rw [records, lookup_tryEmplace]
      rw [keys, List.mem_append, List.mem_singleton] at listed
      rcases listed with old | rfl
      · obtain ⟨r, there, same, found⟩ := counted.records id old
        exact ⟨r, List.mem_append_left _ there, same, by rw [found, Option.some_or]⟩
      · exact ⟨node, by simp, rfl, by rw [fresh, if_pos rfl, Option.none_or]⟩
    · intro id absent
      rw [keys, List.mem_append, List.mem_singleton, not_or] at absent
      rw [records, lookup_tryEmplace, counted.unseen id absent.1, if_neg (Ne.symm absent.2)]
      rfl

theorem Counted.foldl (counted : Counted seen maps) (members : List NodeConfig) :
    Counted (seen ++ members) (members.foldl ClusterConfig.countNode maps) := by
  induction members generalizing seen maps with
  | nil => simpa using counted
  | cons m rest ih => simpa using ih (counted.countNode m)

theorem counted_countNodes (groups : NgConfigs) :
    Counted (groups.flatMap Prod.snd) (countNodes groups) := by
  have start : Counted [] (([], []) : List (Nat × Nat) × List (Nat × NodeConfig)) :=
    ⟨by simp, by simp, by simp, by simp⟩
  have all := start.foldl (groups.flatMap Prod.snd)
  rwa [List.foldl_flatMap, List.nil_append] at all

variable {members : List NodeConfig}

theorem inGroup_iff {nodeId : Nat} :
    inGroup members nodeId = true ↔ nodeId ∈ members.map NodeConfig.nodeId := by
  simp [inGroup]

theorem foldl_leastStep (members : List NodeConfig) (entries : List (Nat × Nat))
    (least : Option (Nat × Nat)) :
    (∀ e, entries.foldl (leastStep members) least = some e →
      least = some e ∨ e ∈ entries ∧ inGroup members e.1 = false) ∧
    (entries.foldl (leastStep members) least = none →
      least = none ∧ ∀ e ∈ entries, inGroup members e.1 = true) := by
  induction entries generalizing least with
  | nil => simp
  | cons entry rest ih =>
    rw [List.foldl_cons]
    have step : leastStep members least entry = least ∧
          (least = none → inGroup members entry.1 = true) ∨
        leastStep members least entry = some entry ∧ inGroup members entry.1 = false := by
      unfold leastStep
      by_cases fewer : least.all (entry.2 < ·.2) = true
      · rw [if_pos fewer]
        cases inGroup members entry.1 with
        | false => exact Or.inr ⟨rfl, rfl⟩
        | true => exact Or.inl ⟨rfl, fun _ => rfl⟩
      · rw [if_neg fewer]
        exact Or.inl ⟨rfl, fun nothing => absurd (by rw [nothing]; rfl) fewer⟩
    obtain ⟨found, missed⟩ := ih (leastStep members least entry)
    rcases step with ⟨same, skipped⟩ | ⟨taken, outside⟩
    · rw [same] at found missed ⊢
      refine ⟨fun e h => ?_, fun h => ?_⟩
      · exact (found e h).imp_right fun ⟨there, out⟩ => ⟨List.mem_cons_of_mem _ there, out⟩
      · obtain ⟨nothing, all⟩ := missed h
        exact ⟨nothing, List.forall_mem_cons.mpr ⟨skipped nothing, all⟩⟩
    · rw [taken] at found missed ⊢
      refine ⟨fun e h => Or.inr ?_, fun h => ?_⟩
      · rcases found e h with same | ⟨there, out⟩
        · cases same
          exact ⟨List.mem_cons_self, outside⟩
        · exact ⟨List.mem_cons_of_mem _ there, out⟩
      · cases (missed h).1

variable {counts : List (Nat × Nat)}

theorem leastNode_some {e : Nat × Nat} (found : leastNode members counts = some e) :
    e.1 ∈ counts.map Prod.fst ∧ e.1 ∉ members.map NodeConfig.nodeId := by
  rcases (foldl_leastStep members counts none).1 e found with nothing | ⟨there, outside⟩
  · cases nothing
  · refine ⟨List.mem_map_of_mem there, fun inside => ?_⟩
    rw [inGroup_iff.mpr inside] at outside
    cases outside

theorem leastNode_none (missed : leastNode members counts = none) :
    counts.map Prod.fst ⊆ members.map NodeConfig.nodeId := by
  intro id listed
  obtain ⟨e, there, rfl⟩ := List.mem_map.mp listed
  exact inGroup_iff.mp (((foldl_leastStep members counts none).2 missed).2 e there)

/-- The group was filled up: its members are kept at the front, and the members added are nodes of
the table that were not in the group. -/
structure Grown (nodesConfigs : List (Nat × NodeConfig)) (repGroupCnt : Nat)
    (before after : NodeGroupId × List NodeConfig) : Prop where
  ngId : after.1 = before.1
  front : before.2 <+: after.2
  distinct : (after.2.map NodeConfig.nodeId).Nodup
  replicated : repGroupCnt ≤ after.2.length
  added : ∀ m ∈ after.2, m ∈ before.2 ∨
    ∃ r, nodesConfigs.lookup m.nodeId = some r ∧ m = { r with isCandidate := false }

section Fill

variable (walks : Walks) {nodesConfigs : List (Nat × NodeConfig)} {counts : List (Nat × Nat)}

/-- What the fill of one group needs of the maps: each node is counted once, and has a record. -/
structure Tables (nodesConfigs : List (Nat × NodeConfig)) (counts : List (Nat × Nat)) : Prop where
  nodup : (counts.map Prod.fst).Nodup
  records : ∀ id ∈ counts.map Prod.fst, ∃ r, nodesConfigs.lookup id = some r ∧ r.nodeId = id

theorem Tables.incrCount (tables : Tables nodesConfigs counts) (id : Nat) :
    Tables nodesConfigs (incrCount counts id) := by
  constructor
  · rw [map_fst_incrCount]
    exact tables.nodup
  · rw [map_fst_incrCount]
    exact tables.records

/-- A group that is smaller than the number of nodes has a node to add. -/
theorem Tables.leastNode_isSome (tables : Tables nodesConfigs counts) (members : List NodeConfig)
    (room : members.length < counts.length) :
    ∃ e, leastNode members (walks.counts counts) = some e ∧
      e.1 ∈ counts.map Prod.fst ∧ e.1 ∉ members.map NodeConfig.nodeId := by
  have keys := (walks.counts_perm counts).map Prod.fst
  cases found : leastNode members (walks.counts counts) with
  | some e =>
    obtain ⟨there, outside⟩ := leastNode_some found
    exact ⟨e, rfl, keys.mem_iff.mp there, outside⟩
  | none =>
    have all := (keys.nodup_iff.mpr tables.nodup).subperm (leastNode_none found)
    have enough := all.length_le
    rw [keys.length_eq, List.length_map, List.length_map] at enough
    omega

theorem fillMembers_grown (missing : Nat) (members : List NodeConfig)
    (tables : Tables nodesConfigs counts) (distinct : (members.map NodeConfig.nodeId).Nodup)
    (room : missing = 0 ∨ members.length + missing ≤ counts.length) :
    ∃ members' counts', fillMembers walks nodesConfigs missing members counts =
        some (members', counts') ∧
      Tables nodesConfigs counts' ∧ counts'.length = counts.length ∧
      members <+: members' ∧ (members'.map NodeConfig.nodeId).Nodup ∧
      members'.length = members.length + missing ∧
      ∀ m ∈ members', m ∈ members ∨
        ∃ r, nodesConfigs.lookup m.nodeId = some r ∧ m = { r with isCandidate := false } := by
  induction missing generalizing members counts with
  | zero =>
    exact ⟨members, counts, rfl, tables, rfl, List.prefix_rfl, distinct, rfl, fun m h => Or.inl h⟩
  | succ missing ih =>
    obtain ⟨least, found, listed, outside⟩ :=
      tables.leastNode_isSome walks members (by omega)
    obtain ⟨r, record, same⟩ := tables.records _ listed
    have fresh : ((members ++ [{ r with isCandidate := false }]).map NodeConfig.nodeId).Nodup := by
      rw [List.map_append, List.nodup_append]
      refine ⟨distinct, by simp, ?_⟩
      rintro id inside _ new rfl
      rw [List.map_singleton, List.mem_singleton] at new
      exact outside (same ▸ new ▸ inside)
    have length : (incrCount counts least.1).length = counts.length := by simp [incrCount]
    obtain ⟨members', counts', filled, tables', keys, front, nodup, size, added⟩ :=
      ih (members ++ [{ r with isCandidate := false }]) (tables.incrCount least.1) fresh
        (by rw [length, List.length_append, List.length_singleton]; omega)
    refine ⟨members', counts', ?_, tables', keys.trans length,
      (List.prefix_append _ _).trans front, nodup, ?_, fun m h => ?_⟩
    · simp only [fillMembers, found, record, Option.getD_some, Option.bind_eq_bind,
        Option.bind_some]
      exact filled
    · rw [size, List.length_append, List.length_singleton]
      omega
    · rcases added m h with old | new
      · rcases List.mem_append.mp old with old | new
        · exact Or.inl old
        · rw [List.mem_singleton.mp new]
          exact Or.inr ⟨r, by simpa [same] using record, rfl⟩
      · exact Or.inr new

theorem fillGroups_grown (repGroupCnt : Nat) (groups : NgConfigs)
    (tables : Tables nodesConfigs counts)
    (distinct : ∀ g ∈ groups, (g.2.map NodeConfig.nodeId).Nodup)
    (room : repGroupCnt ≤ counts.length) :
    ∃ plan, fillGroups walks nodesConfigs repGroupCnt groups counts = some plan ∧
      List.Forall₂ (Grown nodesConfigs repGroupCnt) groups plan := by
  induction groups generalizing counts with
  | nil => exact ⟨[], rfl, List.Forall₂.nil⟩
  | cons g rest ih =>
    obtain ⟨members, counts', filled, tables', keys, front, nodup, size, added⟩ :=
      fillMembers_grown walks (repGroupCnt - g.2.length) g.2 tables
        (distinct g List.mem_cons_self) (by omega)
    obtain ⟨plan, planned, grown⟩ :=
      ih tables' (fun g' there => distinct g' (List.mem_cons_of_mem _ there)) (by omega)
    refine ⟨(g.1, members) :: plan, ?_, List.Forall₂.cons ⟨rfl, front, nodup, ?_, added⟩ grown⟩
    · simp only [fillGroups, filled, planned, Option.bind_eq_bind, Option.bind_some]
    · simp only
      omega

end Fill

/-- The members of every group differ, and there are as many as the replication factor asks for and
the number of groups allows. -/
structure Balanced (repGroupCnt : Nat) (plan : NgConfigs) : Prop where
  distinct : ∀ g ∈ plan, (g.2.map NodeConfig.nodeId).Nodup
  replicated : ∀ g ∈ plan, min repGroupCnt plan.length ≤ g.2.length

/-- What rebalancing does to the groups it is given. -/
structure Rebalanced (repGroupCnt : Nat) (groups plan : NgConfigs) : Prop where
  ngIds : (plan.map Prod.fst).Perm (groups.map Prod.fst)
  front : ∀ g ∈ groups, ∃ members, (g.1, members) ∈ plan ∧ g.2 <+: members
  known : ∀ g ∈ plan, ∀ m ∈ g.2, ∃ g' ∈ groups, ∃ m' ∈ g'.2,
    m.hostName = m'.hostName ∧ m.port = m'.port
  balanced : Balanced repGroupCnt plan

theorem rebalanceNgMembers_nil (walks : Walks) (repGroupCnt : Nat) :
    rebalanceNgMembers walks repGroupCnt [] = none := by
  have nothing := (walks.groups_perm []).eq_nil
  simp [rebalanceNgMembers, nothing]

variable {groups : NgConfigs}

/-- There are as many nodes as groups, since each group has a leader of its own. -/
theorem length_le_countNodes (occupied : ∀ g ∈ groups, g.2 ≠ [])
    (leaders : (groups.filterMap fun g => g.2.head?.map NodeConfig.nodeId).Nodup) :
    groups.length ≤ (countNodes groups).1.length := by
  have counted := counted_countNodes groups
  have led : (groups.filterMap fun g => g.2.head?.map NodeConfig.nodeId).length = groups.length := by
    rw [List.filterMap_length_eq_length]
    intro g there
    cases members : g.2 with
    | nil => exact absurd members (occupied g there)
    | cons leader rest => rfl
  have listed : (groups.filterMap fun g => g.2.head?.map NodeConfig.nodeId) ⊆
      (countNodes groups).1.map Prod.fst := by
    intro id leads
    obtain ⟨g, there, found⟩ := List.mem_filterMap.mp leads
    obtain ⟨leader, first, rfl⟩ := Option.map_eq_some_iff.mp found
    exact (counted.keys _).mpr
      ⟨leader, List.mem_flatMap.mpr ⟨g, there, List.mem_of_head? first⟩, rfl⟩
  have enough := (leaders.subperm listed).length_le
  rwa [led, List.length_map] at enough

variable {repGroupCnt : Nat}

theorem rebalanced_of_grown {groups plan : NgConfigs}
    (grown : List.Forall₂ (Grown (countNodes groups).2 (min repGroupCnt groups.length)) groups plan) :
    Rebalanced repGroupCnt groups plan := by
  have counted := counted_countNodes groups
  have length : groups.length = plan.length := grown.length_eq
  have at_index := (List.forall₂_iff_get.mp grown).2
  have source {g' : NodeGroupId × List NodeConfig} (there : g' ∈ plan) :
      ∃ g ∈ groups, Grown (countNodes groups).2 (min repGroupCnt groups.length) g g' := by
    obtain ⟨i, bound, rfl⟩ := List.getElem_of_mem there
    exact ⟨groups[i], List.getElem_mem _, at_index i (by omega) bound⟩
  refine ⟨List.Perm.of_eq ?_, ?_, ?_, ?_, ?_⟩
  · refine List.ext_getElem (by simp [length]) fun i bound bound' => ?_
    rw [List.length_map] at bound bound'
    simpa using (at_index i bound' bound).ngId
  · intro g there
    obtain ⟨i, bound, rfl⟩ := List.getElem_of_mem there
    have h := at_index i bound (by omega)
    have same : groups[i].1 = plan[i].1 := h.ngId.symm
    refine ⟨plan[i].2, ?_, h.front⟩
    rw [same]
    exact List.getElem_mem _
  · intro g' there m inside
    obtain ⟨g, listed, h⟩ := source there
    rcases h.added m inside with old | ⟨r, found, rfl⟩
    · exact ⟨g, listed, m, old, rfl, rfl⟩
    · have key : r.nodeId ∈ (countNodes groups).1.map Prod.fst := by
        by_contra absent
        rw [counted.unseen _ absent] at found
        cases found
      obtain ⟨r', seen, -, record⟩ := counted.records _ key
      cases found.symm.trans record
      obtain ⟨g', there', member⟩ := List.mem_flatMap.mp seen
      exact ⟨g', there', r, member, rfl, rfl⟩
  · intro g' there
    obtain ⟨g, -, h⟩ := source there
    exact h.distinct
  · intro g' there
    obtain ⟨g, -, h⟩ := source there
    rw [← length]
    exact h.replicated

theorem Rebalanced.of_perm {groups order plan : NgConfigs}
    (rebalanced : Rebalanced repGroupCnt order plan) (perm : order.Perm groups) :
    Rebalanced repGroupCnt groups plan where
  ngIds := rebalanced.ngIds.trans (perm.map Prod.fst)
  front g there := rebalanced.front g (perm.mem_iff.mpr there)
  known g there m inside := by
    obtain ⟨g', listed, source⟩ := rebalanced.known g there m inside
    exact ⟨g', perm.subset listed, source⟩
  balanced := rebalanced.balanced

/-- Groups with leaders of their own can be rebalanced, without a failed assertion. -/
theorem rebalanceNgMembers_rebalanced (walks : Walks) (positive : 1 ≤ repGroupCnt)
    (nonempty : groups ≠ []) (occupied : ∀ g ∈ groups, g.2 ≠ [])
    (distinct : ∀ g ∈ groups, (g.2.map NodeConfig.nodeId).Nodup)
    (leaders : (groups.filterMap fun g => g.2.head?.map NodeConfig.nodeId).Nodup) :
    ∃ plan, rebalanceNgMembers walks repGroupCnt groups = some plan ∧
      Rebalanced repGroupCnt groups plan := by
  have perm := walks.groups_perm groups
  generalize walked : walks.groups groups = order at perm
  have counted := counted_countNodes order
  have tables : Tables (countNodes order).2 (countNodes order).1 :=
    ⟨counted.nodup, fun id listed => by
      obtain ⟨r, -, same, found⟩ := counted.records id listed
      exact ⟨r, found, same⟩⟩
  have nodes := length_le_countNodes (fun g there => occupied g (perm.subset there))
    ((perm.filterMap _).nodup_iff.mpr leaders)
  have some_group : 0 < order.length := by
    rw [perm.length_eq]
    exact List.length_pos_iff.mpr nonempty
  have least : (if repGroupCnt < order.length then repGroupCnt else order.length) =
      min repGroupCnt order.length := by
    split <;> omega
  obtain ⟨plan, planned, grown⟩ := fillGroups_grown walks (min repGroupCnt order.length) order
    tables (fun g there => distinct g (perm.subset there)) (by omega)
  refine ⟨plan, ?_, (rebalanced_of_grown grown).of_perm perm⟩
  simp only [rebalanceNgMembers, walked, least]
  rw [if_neg (by omega)]
  exact planned

end TxService.ClusterConfig
