import Mathlib.Data.List.Basic

/-!
# Cluster configurations and the log record of a cluster scale operation

The prepare log keeps a configuration in two tables, the members of each group by node id and the
addresses of nodes, which replay and recovery join again.
-/

namespace TxService.ClusterConfig

abbrev NodeGroupId := Nat

/-- A member of a node group. The defaults are those of a record nobody filled in. -/
structure NodeConfig where
  nodeId : Nat := 4294967295
  hostName : String := ""
  port : Nat := 0
  isCandidate : Bool := false
deriving DecidableEq, Repr

/-- Node groups with their members, in the order in which the map is walked. -/
abbrev NgConfigs := List (NodeGroupId × List NodeConfig)

/-- The value of a map after `try_emplace`: a key that is present keeps its value. -/
def tryEmplace {α : Type} (map : List (Nat × α)) (key : Nat) (value : α) : List (Nat × α) :=
  if (map.lookup key).isSome then map else map ++ [(key, value)]

theorem lookup_tryEmplace {α : Type} (map : List (Nat × α)) (key : Nat) (value : α) (k : Nat) :
    (tryEmplace map key value).lookup k =
      (map.lookup k).or (if key = k then some value else none) := by
  unfold tryEmplace
  split
  · rename_i present
    obtain ⟨old, found⟩ := Option.isSome_iff_exists.mp present
    by_cases same : key = k
    · subst same
      rw [found, Option.some_or]
    · rw [if_neg same, Option.or_none]
  · rw [List.lookup_append]
    by_cases same : key = k
    · subst same
      simp
    · have other : (k == key) = false := beq_eq_false_iff_ne.mpr (Ne.symm same)
      simp [List.lookup_cons, other, same]

section Emplaced

variable {α β : Type} (key : β → Nat) (value : β → α)

/-- Filling a map with `try_emplace` gives every key the first of its values. -/
theorem lookup_foldl_tryEmplace (entries : List β) (map : List (Nat × α)) (k : Nat) :
    (entries.foldl (fun m e => tryEmplace m (key e) (value e)) map).lookup k =
      (map.lookup k).or
        (entries.findSome? fun e => if key e = k then some (value e) else none) := by
  induction entries generalizing map with
  | nil => simp
  | cons e rest ih =>
    rw [List.foldl_cons, ih, lookup_tryEmplace, Option.or_assoc, List.findSome?_cons]
    by_cases same : key e = k
    · simp [same]
    · simp [same]

theorem lookup_eq_none {map : List (Nat × α)} {k : Nat} (absent : k ∉ map.map Prod.fst) :
    map.lookup k = none := by
  rw [List.lookup_eq_none_iff]
  intro entry listed
  rw [bne_iff_ne]
  rintro rfl
  exact absent (List.mem_map_of_mem listed)

theorem foldl_tryEmplace_distinct (entries : List β) (map : List (Nat × α))
    (distinct : (map.map Prod.fst ++ entries.map key).Nodup) :
    entries.foldl (fun m e => tryEmplace m (key e) (value e)) map =
      map ++ entries.map fun e => (key e, value e) := by
  induction entries generalizing map with
  | nil => simp
  | cons e rest ih =>
    have absent : key e ∉ map.map Prod.fst := by
      intro listed
      exact (List.nodup_append.mp distinct).2.2 _ listed _ (by simp) rfl
    have emplaced : tryEmplace map (key e) (value e) = map ++ [(key e, value e)] := by
      simp [tryEmplace, lookup_eq_none absent]
    rw [List.foldl_cons, emplaced, ih _ (by simpa using distinct)]
    simp

end Emplaced

/-- One node group of the log message: the ids and the candidate flags of its members. -/
structure NodegroupConfig where
  ngId : NodeGroupId
  memberNodes : List Nat
  isCandidate : List Bool

/-- The address of one node in the log message. -/
structure LoggedNode where
  nodeId : Nat
  hostName : String
  port : Nat

structure ClusterScaleOpMessage where
  newNgConfigs : List NodegroupConfig
  nodeConfigs : List LoggedNode

def NodeConfig.logged (node : NodeConfig) : LoggedNode where
  nodeId := node.nodeId
  hostName := node.hostName
  port := node.port

/-- One turn of the loop of `FillPrepareLogRequest`: all members of the group are listed, and the
address of its first one is added. -/
def addNgConfig (msg : ClusterScaleOpMessage) (conf : NodeGroupId × List NodeConfig) :
    ClusterScaleOpMessage where
  newNgConfigs := msg.newNgConfigs ++
    [⟨conf.1, conf.2.map NodeConfig.nodeId, conf.2.map NodeConfig.isCandidate⟩]
  nodeConfigs := msg.nodeConfigs ++ (conf.2.head?.map NodeConfig.logged).toList

def fillPrepareLogRequest (newNgConfig : NgConfigs) : ClusterScaleOpMessage :=
  newNgConfig.foldl addNgConfig ⟨[], []⟩

/-- The node table both readers build before they read the groups. -/
def readNodeConfigs (nodeConfigs : List LoggedNode) : List (Nat × NodeConfig) :=
  nodeConfigs.foldl
    (fun m node =>
      tryEmplace m node.nodeId { nodeId := node.nodeId, hostName := node.hostName, port := node.port })
    []

/-- A member as it is rebuilt. The subscript of the node table makes a default record for an id it
does not have. -/
def readMember (nodes : List (Nat × NodeConfig)) (memberNid : Nat) (candidate : Bool) : NodeConfig :=
  { (nodes.lookup memberNid).getD {} with isCandidate := candidate }

def readNgConfigs (msg : ClusterScaleOpMessage) : NgConfigs :=
  msg.newNgConfigs.foldl
    (fun m ng =>
      tryEmplace m ng.ngId
        (List.zipWith (readMember (readNodeConfigs msg.nodeConfigs)) ng.memberNodes ng.isCandidate))
    []

/-- The configuration `ClusterConfigCcMap` reads when it replays the log. -/
def replayLogCc (scaleOpMsg : ClusterScaleOpMessage) : NgConfigs :=
  readNgConfigs scaleOpMsg

/-- The configuration the recovered cluster scale operation works with. -/
def recoverClusterScale (scaleOpMsg : ClusterScaleOpMessage) : NgConfigs :=
  readNgConfigs scaleOpMsg

theorem foldl_addNgConfig (groups : NgConfigs) (msg : ClusterScaleOpMessage) :
    groups.foldl addNgConfig msg =
      { newNgConfigs := msg.newNgConfigs ++ groups.map fun g =>
          ⟨g.1, g.2.map NodeConfig.nodeId, g.2.map NodeConfig.isCandidate⟩
        nodeConfigs := msg.nodeConfigs ++
          groups.filterMap fun g => g.2.head?.map NodeConfig.logged } := by
  induction groups generalizing msg with
  | nil => simp
  | cons g rest ih =>
    rw [List.foldl_cons, ih]
    cases first : g.2.head? with
    | none => simp [addNgConfig, first]
    | some node => simp [addNgConfig, first]

/-- The first member of the first group that starts with the node, in the order of the walk. -/
def leadingRecord (groups : NgConfigs) (nodeId : Nat) : Option NodeConfig :=
  groups.findSome? fun g => g.2.head?.filter (·.nodeId = nodeId)

theorem leadingRecord_nodeId {groups : NgConfigs} {nodeId : Nat} {first : NodeConfig}
    (found : leadingRecord groups nodeId = some first) : first.nodeId = nodeId := by
  obtain ⟨g, -, leads⟩ := List.exists_of_findSome?_eq_some found
  have same := (Option.filter_eq_some_iff.mp leads).2
  exact of_decide_eq_true same

/-- The node table has, for each id, the address written for the first group led by that node. -/
theorem lookup_readNodeConfigs (groups : NgConfigs) (nodeId : Nat) :
    (readNodeConfigs (groups.filterMap fun g => g.2.head?.map NodeConfig.logged)).lookup nodeId =
      (leadingRecord groups nodeId).map fun first => { first with isCandidate := false } := by
  unfold readNodeConfigs leadingRecord
  rw [lookup_foldl_tryEmplace LoggedNode.nodeId]
  simp only [List.lookup_nil, Option.none_or]
  induction groups with
  | nil => rfl
  | cons g rest ih =>
    rw [List.findSome?_cons]
    cases leads : g.2.head? with
    | none => simpa [leads] using ih
    | some first =>
      by_cases same : first.nodeId = nodeId
      · simp [leads, same, NodeConfig.logged, Option.filter]
      · simpa [leads, same, NodeConfig.logged, Option.filter] using ih

/-- A member of the configuration after it was written and read. -/
def rebuilt (groups : NgConfigs) (member : NodeConfig) : NodeConfig :=
  { (leadingRecord groups member.nodeId).getD {} with isCandidate := member.isCandidate }

theorem zipWith_readMember (groups : NgConfigs) (nodes : List (Nat × NodeConfig))
    (table : ∀ nodeId, nodes.lookup nodeId =
      (leadingRecord groups nodeId).map fun first => { first with isCandidate := false })
    (members : List NodeConfig) :
    List.zipWith (readMember nodes) (members.map NodeConfig.nodeId)
      (members.map NodeConfig.isCandidate) = members.map (rebuilt groups) := by
  induction members with
  | nil => rfl
  | cons member rest ih =>
    have head : readMember nodes member.nodeId member.isCandidate = rebuilt groups member := by
      unfold readMember rebuilt
      rw [table]
      cases leadingRecord groups member.nodeId <;> rfl
    simp only [List.map_cons, List.zipWith_cons_cons, head, ih]

theorem readNgConfigs_fillPrepareLogRequest (groups : NgConfigs)
    (distinct : (groups.map Prod.fst).Nodup) :
    readNgConfigs (fillPrepareLogRequest groups) =
      groups.map fun g => (g.1, g.2.map (rebuilt groups)) := by
  unfold readNgConfigs fillPrepareLogRequest
  rw [foldl_addNgConfig]
  rw [foldl_tryEmplace_distinct NodegroupConfig.ngId]
  · simp only [List.nil_append, List.map_map]
    refine List.map_congr_left fun g _ => ?_
    simp only [Function.comp_apply,
      zipWith_readMember groups _ (lookup_readNodeConfigs groups)]
  · simpa [Function.comp_def] using distinct

/-- A configuration of the cluster, a map from node groups to their members. -/
structure NewNgConfig where
  groups : NgConfigs
  distinct : (groups.map Prod.fst).Nodup

/-- The address of the member is the one of the first group its node leads. A member that leads no
group is not told apart from a default record. -/
def Recorded (groups : NgConfigs) (member : NodeConfig) : Prop :=
  match leadingRecord groups member.nodeId with
  | some first => first.hostName = member.hostName ∧ first.port = member.port
  | none => member = { isCandidate := member.isCandidate }

theorem rebuilt_eq_iff (groups : NgConfigs) (member : NodeConfig) :
    rebuilt groups member = member ↔ Recorded groups member := by
  unfold rebuilt Recorded
  cases found : leadingRecord groups member.nodeId with
  | none => exact eq_comm
  | some first =>
    have same := leadingRecord_nodeId found
    obtain ⟨nodeId, hostName, port, isCandidate⟩ := member
    simpa using fun _ _ => same

/-- The configuration read back from the prepare log, by the replay and by the recovered operation,
is the one written exactly when the log has the address of every member. -/
theorem cluster_scale_log_round_trip (newNgConfig : NewNgConfig) :
    replayLogCc (fillPrepareLogRequest newNgConfig.groups) = newNgConfig.groups ∧
        recoverClusterScale (fillPrepareLogRequest newNgConfig.groups) = newNgConfig.groups ↔
      ∀ group ∈ newNgConfig.groups, ∀ member ∈ group.2, Recorded newNgConfig.groups member := by
  unfold replayLogCc recoverClusterScale
  rw [and_self, readNgConfigs_fillPrepareLogRequest _ newNgConfig.distinct]
  generalize newNgConfig.groups = groups
  calc groups.map (fun g => (g.1, g.2.map (rebuilt groups))) = groups
      ↔ ∀ g ∈ groups, g.2.map (rebuilt groups) = g.2 := by
        conv_lhs => rhs; rw [← List.map_id groups]
        rw [List.map_inj_left]
        simp [Prod.ext_iff]
    _ ↔ ∀ g ∈ groups, ∀ member ∈ g.2, Recorded groups member := by
        refine forall₂_congr fun g _ => ?_
        conv_lhs => rhs; rw [← List.map_id g.2]
        rw [List.map_inj_left]
        exact forall₂_congr fun member _ => rebuilt_eq_iff groups member

/-- Two groups, the first with a standby node that leads no group. -/
def standbyCluster : NewNgConfig where
  groups := [(0, [⟨0, "host0", 8000, true⟩, ⟨2, "host2", 8000, true⟩]),
    (1, [⟨1, "host1", 8000, true⟩, ⟨0, "host0", 8000, false⟩])]
  distinct := by decide

theorem standby_address_lost :
    replayLogCc (fillPrepareLogRequest standbyCluster.groups) ≠ standbyCluster.groups ∧
      recoverClusterScale (fillPrepareLogRequest standbyCluster.groups) =
        [(0, [⟨0, "host0", 8000, true⟩, ⟨4294967295, "", 0, true⟩]),
          (1, [⟨1, "host1", 8000, true⟩, ⟨0, "host0", 8000, false⟩])] := by
  decide

end TxService.ClusterConfig
