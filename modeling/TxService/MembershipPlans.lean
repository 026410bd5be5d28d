import Mathlib.Data.List.Nodup
import TxService.ClusterPlans

/-!
# Well formed membership plans

The plan for nodes that join the cluster is always well formed. The plan for nodes that leave is
when the candidates among them are the preferred leaders of the groups they are in.
-/

namespace TxService.ClusterConfig

theorem skipUsed_spec (used : List Nat) (id : Nat) :
    skipUsed used id ∉ used ∧ id ≤ skipUsed used id := by
  fun_induction skipUsed used id with
  | case1 id listed ih => exact ⟨ih.1, by omega⟩
  | case2 id absent => exact ⟨absent, Nat.le_refl _⟩

/-- The groups of the new nodes, with the ids they were given. -/
structure Fresh (configs : NgConfigs) (nodesConfigs : List Nat) (newNodes : List (String × Nat))
    (fresh : List (NodeGroupId × NodeConfig)) : Prop where
  nodes : fresh.map (fun f => (f.2.hostName, f.2.port)) = newNodes
  candidates : ∀ f ∈ fresh, f.2.isCandidate = true
  ngIds : ∀ f ∈ fresh, f.1 ∉ configs.map Prod.fst
  ngIds_nodup : (fresh.map Prod.fst).Nodup
  nodeIds : ∀ f ∈ fresh, f.2.nodeId ∉ nodesConfigs
  nodeIds_nodup : (fresh.map fun f => f.2.nodeId).Nodup

theorem newGroups_fresh (nodesConfigs : List Nat) (newNodes : List (String × Nat))
    (configs : NgConfigs) (newNgId newNodeId : Nat) :
    ∃ fresh, newGroups nodesConfigs newNodes configs newNgId newNodeId =
        configs ++ fresh.map (fun f => (f.1, [f.2])) ∧
      Fresh configs nodesConfigs newNodes fresh ∧ ∀ f ∈ fresh, newNodeId ≤ f.2.nodeId := by
  induction newNodes generalizing configs newNgId newNodeId with
  | nil => exact ⟨[], by simp [newGroups], ⟨rfl, nofun, nofun, by simp, nofun, by simp⟩, nofun⟩
  | cons node rest ih =>
    obtain ⟨freeNg, -⟩ := skipUsed_spec (configs.map Prod.fst) newNgId
    obtain ⟨freeNode, later⟩ := skipUsed_spec nodesConfigs newNodeId
    rw [newGroups]
    generalize skipUsed (configs.map Prod.fst) newNgId = ngId at freeNg ⊢
    generalize skipUsed nodesConfigs newNodeId = nodeId at freeNode later ⊢
    have emplaced : tryEmplace configs ngId [⟨nodeId, node.1, node.2, true⟩] =
        configs ++ [(ngId, [⟨nodeId, node.1, node.2, true⟩])] := by
      simp [tryEmplace, lookup_eq_none freeNg]
    rw [emplaced]
    obtain ⟨fresh, built, ids, above⟩ :=
      ih (configs ++ [(ngId, [⟨nodeId, node.1, node.2, true⟩])]) (ngId + 1) (nodeId + 1)
    have apart : ∀ f ∈ fresh, f.1 ∉ configs.map Prod.fst ∧ f.1 ≠ ngId := by
      intro f there
      simpa [not_or] using ids.ngIds f there
    refine ⟨(ngId, ⟨nodeId, node.1, node.2, true⟩) :: fresh, by simp [built],
      ⟨?_, ?_, ?_, ?_, ?_, ?_⟩, ?_⟩
    · simp [ids.nodes]
    · exact List.forall_mem_cons.mpr ⟨rfl, ids.candidates⟩
    · exact List.forall_mem_cons.mpr ⟨freeNg, fun f there => (apart f there).1⟩
    · rw [List.map_cons, List.nodup_cons]
      refine ⟨fun listed => ?_, ids.ngIds_nodup⟩
      obtain ⟨f, there, same⟩ := List.mem_map.mp listed
      exact (apart f there).2 same
    · exact List.forall_mem_cons.mpr ⟨freeNode, ids.nodeIds⟩
    · rw [List.map_cons, List.nodup_cons]
      refine ⟨fun listed => ?_, ids.nodeIds_nodup⟩
      obtain ⟨f, there, same⟩ := List.mem_map.mp listed
      have after := above f there
      simp only at same
      omega
    · refine List.forall_mem_cons.mpr ⟨later, fun f there => ?_⟩
      have after := above f there
      omega

/-- The plan for the new nodes: every group is kept with its members at the front, and each new node
is the preferred leader of a group of its own. -/
structure NodesAdded (cluster : Cluster) (newNodes : List (String × Nat)) (repGroupCnt : Nat)
    (fresh : List (NodeGroupId × NodeConfig)) (plan : NgConfigs) : Prop where
  ids : Fresh cluster.ngConfigs cluster.nodesConfigs newNodes fresh
  ngIds : (plan.map Prod.fst).Perm (cluster.ngConfigs.map Prod.fst ++ fresh.map Prod.fst)
  kept : ∀ g ∈ cluster.ngConfigs, ∃ members, (g.1, members) ∈ plan ∧ g.2 <+: members
  led : ∀ f ∈ fresh, ∃ rest, (f.1, f.2 :: rest) ∈ plan
  balanced : Balanced repGroupCnt plan

variable {repGroupCnt : Nat}

theorem addNodeToCluster_planned (walks : Walks) (positive : 1 ≤ repGroupCnt) (cluster : Cluster)
    {newNodes : List (String × Nat)} (nonempty : cluster.ngConfigs ≠ [] ∨ newNodes ≠ []) :
    ∃ plan, addNodeToCluster walks repGroupCnt cluster newNodes = some plan ∧
      ∃ fresh, NodesAdded cluster newNodes repGroupCnt fresh plan := by
  obtain ⟨fresh, built, ids, -⟩ := newGroups_fresh cluster.nodesConfigs newNodes cluster.ngConfigs 0
    (cluster.nodesConfigs.foldl max 0 + 1)
  have leads : (cluster.ngConfigs ++ fresh.map fun f => (f.1, [f.2])).filterMap
      (fun g => g.2.head?.map NodeConfig.nodeId) =
      cluster.ngConfigs.filterMap (fun g => g.2.head?.map NodeConfig.nodeId) ++
        fresh.map fun f => f.2.nodeId := by
    rw [List.filterMap_append, List.filterMap_map]
    congr 1
    exact congrFun List.filterMap_eq_map' fresh
  have some_group : cluster.ngConfigs ++ fresh.map (fun f => (f.1, [f.2])) ≠ [] := by
    intro nothing
    obtain ⟨noGroup, noFresh⟩ := List.append_eq_nil_iff.mp nothing
    rcases nonempty with groups | nodes
    · exact groups noGroup
    · rw [List.map_eq_nil_iff.mp noFresh] at ids
      exact nodes ids.nodes.symm
  obtain ⟨plan, planned, rebalanced⟩ := rebalanceNgMembers_rebalanced walks positive some_group
    (by
      intro g there
      rcases List.mem_append.mp there with old | new
      · exact cluster.occupied g old
      · obtain ⟨f, -, rfl⟩ := List.mem_map.mp new
        simp)
    (by
      intro g there
      rcases List.mem_append.mp there with old | new
      · exact cluster.members g old
      · obtain ⟨f, -, rfl⟩ := List.mem_map.mp new
        simp)
    (by
      rw [leads, List.nodup_append]
      refine ⟨cluster.leaders, ids.nodeIds_nodup, ?_⟩
      rintro id old _ new rfl
      obtain ⟨g, there, found⟩ := List.mem_filterMap.mp old
      obtain ⟨leader, first, rfl⟩ := Option.map_eq_some_iff.mp found
      obtain ⟨f, added, same⟩ := List.mem_map.mp new
      exact ids.nodeIds f added (same ▸ cluster.known g there leader (List.mem_of_head? first)))
  refine ⟨plan, by rw [addNodeToCluster, built, planned], fresh, ids, ?_, ?_, ?_,
    rebalanced.balanced⟩
  · simpa [Function.comp_def] using rebalanced.ngIds
  · exact fun g there => rebalanced.front g (List.mem_append_left _ there)
  · intro f there
    obtain ⟨members, listed, rest, rfl⟩ := rebalanced.front (f.1, [f.2])
      (List.mem_append_right _ (List.mem_map_of_mem there))
    exact ⟨rest, listed⟩

/-- The preferred leader of the group is one of the nodes to remove. -/
def leaderIn (removedNodes : List (String × Nat)) (g : NodeGroupId × List NodeConfig) : Bool :=
  g.2.head?.any (·.isIn removedNodes)

/-- Some candidate of the group is one of the nodes to remove. -/
def candidateIn (removedNodes : List (String × Nat)) (g : NodeGroupId × List NodeConfig) : Bool :=
  g.2.any fun m => m.isCandidate && m.isIn removedNodes

/-- No record of the node has an address to remove. -/
def Stays (configs : NgConfigs) (removedNodes : List (String × Nat)) (nodeId : Nat) : Bool :=
  configs.all fun g => g.2.all fun m => m.nodeId != nodeId || !m.isIn removedNodes

/-- The plan without the removed nodes: exactly the groups they lead are gone, and they are members
of no other group. The members that stay keep their order behind their leader. -/
structure NodesRemoved (cluster : Cluster) (removedNodes : List (String × Nat)) (repGroupCnt : Nat)
    (plan : NgConfigs) : Prop where
  ngIds : (plan.map Prod.fst).Perm
    ((cluster.ngConfigs.filter fun g => !leaderIn removedNodes g).map Prod.fst)
  kept : ∀ g ∈ cluster.ngConfigs, ∀ leader rest, g.2 = leader :: rest →
    leader.isIn removedNodes = false → ∃ rest', (g.1, leader :: rest') ∈ plan ∧
      (rest.filter fun m => Stays cluster.ngConfigs removedNodes m.nodeId).Sublist rest'
  gone : ∀ g ∈ plan, ∀ m ∈ g.2, m.isIn removedNodes = false
  balanced : Balanced repGroupCnt plan

/-- A group is left, the groups with a candidate to remove are those whose preferred leader is to
be removed, and a member to remove from any other group is a candidate somewhere. -/
structure Removable (configs : NgConfigs) (removedNodes : List (String × Nat)) : Prop where
  left : ∃ g ∈ configs, leaderIn removedNodes g = false
  leaders : ∀ g ∈ configs, candidateIn removedNodes g = leaderIn removedNodes g
  members : ∀ g ∈ configs, leaderIn removedNodes g = false → ∀ m ∈ g.2,
    m.isIn removedNodes = true → ∃ g' ∈ configs, ∃ m' ∈ g'.2,
      m'.nodeId = m.nodeId ∧ m'.isCandidate = true ∧ m'.isIn removedNodes = true

section Remove

variable {configs : NgConfigs} {removedNodes : List (String × Nat)}

theorem fst_mem_filter_iff (distinct : (configs.map Prod.fst).Nodup)
    (p : NodeGroupId × List NodeConfig → Bool) {g : NodeGroupId × List NodeConfig}
    (there : g ∈ configs) : g.1 ∈ (configs.filter p).map Prod.fst ↔ p g = true := by
  constructor
  · intro listed
    obtain ⟨g', filtered, same⟩ := List.mem_map.mp listed
    obtain ⟨there', holds⟩ := List.mem_filter.mp filtered
    rwa [List.inj_on_of_nodup_map distinct there' there same] at holds
  · intro holds
    exact List.mem_map_of_mem (List.mem_filter.mpr ⟨there, holds⟩)

theorem remainingGroups_eq (distinct : (configs.map Prod.fst).Nodup)
    (removedNodes : List (String × Nat)) :
    remainingGroups configs removedNodes =
      (configs.filter fun g => !candidateIn removedNodes g).map fun g =>
        (g.1, eraseMembers (removedNodeIds configs removedNodes) g.2) := by
  unfold remainingGroups
  congr 1
  refine List.filter_congr fun g there => ?_
  have listed : g.1 ∈ removedNgIds configs removedNodes ↔ candidateIn removedNodes g = true :=
    fst_mem_filter_iff distinct _ there
  cases removed : candidateIn removedNodes g <;> simp [listed, removed]

variable {nodeId : Nat}

theorem mem_removedNodeIds :
    nodeId ∈ removedNodeIds configs removedNodes ↔ ∃ g ∈ configs, ∃ m ∈ g.2,
      m.nodeId = nodeId ∧ m.isCandidate = true ∧ m.isIn removedNodes = true := by
  simp only [removedNodeIds, List.mem_flatMap, List.mem_map, List.mem_filter, Bool.and_eq_true]
  constructor
  · rintro ⟨g, there, m, ⟨member, candidate, removed⟩, same⟩
    exact ⟨g, there, m, member, same, candidate, removed⟩
  · rintro ⟨g, there, m, member, same, candidate, removed⟩
    exact ⟨g, there, m, ⟨member, candidate, removed⟩, same⟩

theorem not_removed_of_stays (stays : Stays configs removedNodes nodeId = true) :
    nodeId ∉ removedNodeIds configs removedNodes := by
  intro listed
  obtain ⟨g, there, m, member, same, -, removed⟩ := mem_removedNodeIds.mp listed
  have kept := List.all_eq_true.mp (List.all_eq_true.mp stays g there) m member
  simp [same, removed] at kept

theorem eraseMembers_sublist (ids : List Nat) (members : List NodeConfig) :
    (eraseMembers ids members).Sublist members := by
  cases members with
  | nil => exact List.Sublist.refl _
  | cons leader rest => exact List.filter_sublist.cons_cons leader

@[simp] theorem head?_eraseMembers (ids : List Nat) (members : List NodeConfig) :
    (eraseMembers ids members).head? = members.head? := by
  cases members <;> rfl

/-- The groups that remain can be rebalanced. -/
theorem remainingGroups_rebalanced (walks : Walks) {repGroupCnt : Nat}
    (positive : 1 ≤ repGroupCnt) (cluster : Cluster) (removedNodes : List (String × Nat))
    (left : remainingGroups cluster.ngConfigs removedNodes ≠ []) :
    ∃ plan, removeNodeFromCluster walks repGroupCnt cluster removedNodes = some plan ∧
      Rebalanced repGroupCnt (remainingGroups cluster.ngConfigs removedNodes) plan := by
  unfold removeNodeFromCluster
  refine rebalanceNgMembers_rebalanced walks positive left ?_ ?_ ?_
  · intro g there
    obtain ⟨old, filtered, rfl⟩ := List.mem_map.mp there
    have occupied := cluster.occupied old (List.mem_filter.mp filtered).1
    cases members : old.2 with
    | nil => exact absurd members occupied
    | cons leader rest => simp [eraseMembers]
  · intro g there
    obtain ⟨old, filtered, rfl⟩ := List.mem_map.mp there
    have distinct := cluster.members old (List.mem_filter.mp filtered).1
    exact ((eraseMembers_sublist _ old.2).map _).nodup distinct
  · unfold remainingGroups
    rw [List.filterMap_map]
    simp only [Function.comp_def, head?_eraseMembers]
    exact (List.filter_sublist.filterMap _).nodup cluster.leaders

end Remove

variable {removedNodes : List (String × Nat)} {cluster : Cluster} {plan : NgConfigs}

theorem Removable.nodesRemoved (removable : Removable cluster.ngConfigs removedNodes) (rebalanced :
      Rebalanced repGroupCnt (remainingGroups cluster.ngConfigs removedNodes) plan) :
    NodesRemoved cluster removedNodes repGroupCnt plan := by
  have remaining : remainingGroups cluster.ngConfigs removedNodes =
      (cluster.ngConfigs.filter fun g => !leaderIn removedNodes g).map fun g =>
        (g.1, eraseMembers (removedNodeIds cluster.ngConfigs removedNodes) g.2) := by
    rw [remainingGroups_eq cluster.distinct]
    congr 1
    exact List.filter_congr fun g there => by rw [removable.leaders g there]
  rw [remaining] at rebalanced
  constructor
  · simpa [Function.comp_def] using rebalanced.ngIds
  · intro g there leader rest members stays
    have survives : leaderIn removedNodes g = false := by simp [leaderIn, members, stays]
    obtain ⟨after, listed, added, rfl⟩ := rebalanced.front _
      (List.mem_map_of_mem (List.mem_filter.mpr ⟨there, by simp [survives]⟩))
    simp only [members, eraseMembers] at listed
    refine ⟨_, listed, List.Sublist.trans ?_ (List.sublist_append_left _ _)⟩
    exact List.monotone_filter_right rest fun m kept => by
      simpa using not_removed_of_stays kept
  · intro g there m member
    obtain ⟨g', listed, m', member', host, port⟩ := rebalanced.known g there m member
    obtain ⟨old, filtered, rfl⟩ := List.mem_map.mp listed
    obtain ⟨source, survives⟩ := List.mem_filter.mp filtered
    have same : m.isIn removedNodes = m'.isIn removedNodes := by
      simp only [NodeConfig.isIn, host, port]
    rw [same]
    cases removed : m'.isIn removedNodes with
    | false => rfl
    | true =>
      rw [Bool.not_eq_true'] at survives
      cases members : old.2 with
      | nil => exact absurd members (cluster.occupied old source)
      | cons leader rest =>
        simp only [members, eraseMembers] at member'
        rcases List.mem_cons.mp member' with rfl | kept
        · simp [leaderIn, members, removed] at survives
        · obtain ⟨inside, id⟩ := List.mem_filter.mp kept
          have candidate := removable.members old source survives m'
            (members ▸ List.mem_cons_of_mem _ inside) removed
          exact absurd (mem_removedNodeIds.mpr candidate) (of_decide_eq_true id)
  · exact rebalanced.balanced

theorem NodesRemoved.removable (planned : NodesRemoved cluster removedNodes repGroupCnt plan)
    (left : remainingGroups cluster.ngConfigs removedNodes ≠ []) (rebalanced :
      Rebalanced repGroupCnt (remainingGroups cluster.ngConfigs removedNodes) plan) :
    Removable cluster.ngConfigs removedNodes := by
  have remaining := remainingGroups_eq cluster.distinct removedNodes
  have ngIds : ((cluster.ngConfigs.filter fun g => !candidateIn removedNodes g).map Prod.fst).Perm
      ((cluster.ngConfigs.filter fun g => !leaderIn removedNodes g).map Prod.fst) := by
    have same := rebalanced.ngIds
    rw [remaining, List.map_map] at same
    exact same.symm.trans planned.ngIds
  have leaders : ∀ g ∈ cluster.ngConfigs, candidateIn removedNodes g = leaderIn removedNodes g := by
    intro g there
    have listed := ngIds.mem_iff (a := g.1)
    rw [fst_mem_filter_iff cluster.distinct _ there,
      fst_mem_filter_iff cluster.distinct _ there] at listed
    cases candidate : candidateIn removedNodes g <;> cases leader : leaderIn removedNodes g <;>
      simp_all
  refine ⟨?_, leaders, ?_⟩
  · rw [remaining] at left
    obtain ⟨g', there⟩ := List.exists_mem_of_ne_nil _ left
    obtain ⟨g, filtered, -⟩ := List.mem_map.mp there
    obtain ⟨source, survives⟩ := List.mem_filter.mp filtered
    rw [leaders g source, Bool.not_eq_true'] at survives
    exact ⟨g, source, survives⟩
  · intro g there survives m member removed
    by_contra nowhere
    have erased : m ∈ eraseMembers (removedNodeIds cluster.ngConfigs removedNodes) g.2 := by
      cases members : g.2 with
      | nil => exact absurd members (cluster.occupied g there)
      | cons leader rest =>
        rw [members] at member
        rcases List.mem_cons.mp member with rfl | inside
        · exact List.mem_cons_self
        · refine List.mem_cons_of_mem _ (List.mem_filter.mpr ⟨inside, ?_⟩)
          exact decide_eq_true fun listed => nowhere (mem_removedNodeIds.mp listed)
    have listed : (g.1, eraseMembers (removedNodeIds cluster.ngConfigs removedNodes) g.2) ∈
        remainingGroups cluster.ngConfigs removedNodes := by
      rw [remaining]
      exact List.mem_map_of_mem
        (List.mem_filter.mpr ⟨there, by rw [leaders g there, survives]; rfl⟩)
    obtain ⟨after, planned', front⟩ := rebalanced.front _ listed
    rw [planned.gone _ planned' m (front.subset erased)] at removed
    cases removed

/-- The cluster scale request: nodes join or leave. -/
inductive ClusterScale where
  | addNode (newNodes : List (String × Nat))
  | removeNode (removedNodes : List (String × Nat))

def ClusterScale.newNgConfig (walks : Walks) (repGroupCnt : Nat) (cluster : Cluster) :
    ClusterScale → Option NgConfigs
  | .addNode newNodes => addNodeToCluster walks repGroupCnt cluster newNodes
  | .removeNode removedNodes => removeNodeFromCluster walks repGroupCnt cluster removedNodes

def ClusterScale.WellFormed (repGroupCnt : Nat) (cluster : Cluster) (plan : NgConfigs) :
    ClusterScale → Prop
  | .addNode newNodes => ∃ fresh, NodesAdded cluster newNodes repGroupCnt fresh plan
  | .removeNode removedNodes => NodesRemoved cluster removedNodes repGroupCnt plan

/-- The requests a plan can be made for. Nodes that join need a group, old or new. -/
def ClusterScale.Plannable (cluster : Cluster) : ClusterScale → Prop
  | .addNode newNodes => cluster.ngConfigs ≠ [] ∨ newNodes ≠ []
  | .removeNode removedNodes => Removable cluster.ngConfigs removedNodes

/-- Whatever the order of the maps, no assertion fails and the plan is well formed exactly for these
requests: to add nodes always, to remove nodes if each candidate among them leads its group and each
of them is a candidate. -/
theorem membership_plan_well_formed (walks : Walks) (repGroupCnt : Nat)
    (positive : 1 ≤ repGroupCnt) (cluster : Cluster) (request : ClusterScale) :
    (∃ plan, request.newNgConfig walks repGroupCnt cluster = some plan ∧
        request.WellFormed repGroupCnt cluster plan) ↔
      request.Plannable cluster := by
  cases request with
  | addNode newNodes =>
    constructor
    · rintro ⟨plan, planned, -⟩
      by_contra neither
      obtain ⟨noGroup, noNode⟩ := not_or.mp neither
      rw [not_not] at noGroup noNode
      simp only [ClusterScale.newNgConfig, addNodeToCluster, noGroup, noNode, newGroups,
        rebalanceNgMembers_nil] at planned
      cases planned
    · exact addNodeToCluster_planned walks positive cluster
  | removeNode removedNodes =>
    have result := remainingGroups_rebalanced walks positive cluster removedNodes
    constructor
    · rintro ⟨plan, planned, wellFormed⟩
      have left : remainingGroups cluster.ngConfigs removedNodes ≠ [] := by
        intro nothing
        simp only [ClusterScale.newNgConfig, removeNodeFromCluster, nothing,
          rebalanceNgMembers_nil] at planned
        cases planned
      obtain ⟨plan', planned', rebalanced⟩ := result left
      cases planned.symm.trans planned'
      exact NodesRemoved.removable wellFormed left rebalanced
    · intro removable
      have left : remainingGroups cluster.ngConfigs removedNodes ≠ [] := by
        obtain ⟨g, there, survives⟩ := removable.left
        rw [remainingGroups_eq cluster.distinct]
        refine List.ne_nil_of_mem (List.mem_map_of_mem (List.mem_filter.mpr ⟨there, ?_⟩))
        rw [removable.leaders g there, survives]
        rfl
      obtain ⟨plan, planned, rebalanced⟩ := result left
      exact ⟨plan, planned, Removable.nodesRemoved removable rebalanced⟩

def Walks.inOrder : Walks where
  groups := id
  groups_perm := fun _ => List.Perm.refl _
  counts := id
  counts_perm := fun _ => List.Perm.refl _

/-- Node 2 is a standby node of group 0, and a candidate of it. -/
def standbyGroups : Cluster where
  ngConfigs := [(0, [⟨0, "host0", 8000, true⟩, ⟨2, "host2", 8000, true⟩]),
    (1, [⟨1, "host1", 8000, true⟩])]
  nodesConfigs := [0, 1, 2]
  distinct := by decide
  occupied := by decide
  members := by decide
  leaders := by decide
  known := by decide

theorem membership_plan_well_formed_joining :
    ∃ plan, addNodeToCluster Walks.inOrder 2 standbyGroups [("host3", 8000)] = some plan ∧
      ∃ fresh, NodesAdded standbyGroups [("host3", 8000)] 2 fresh plan :=
  (membership_plan_well_formed Walks.inOrder 2 (by decide) standbyGroups
    (.addNode [("host3", 8000)])).mpr (Or.inl (by simp [standbyGroups]))

/-- The removal of the standby node takes the group of node 0 out of the cluster. -/
theorem standby_removal_drops_group :
    removeNodeFromCluster Walks.inOrder 1 standbyGroups [("host2", 8000)] =
        some [(1, [⟨1, "host1", 8000, true⟩])] ∧
      ¬ NodesRemoved standbyGroups [("host2", 8000)] 1 [(1, [⟨1, "host1", 8000, true⟩])] := by
  refine ⟨by decide, fun planned => ?_⟩
  have ngIds := planned.ngIds.length_eq
  revert ngIds
  decide

end TxService.ClusterConfig
