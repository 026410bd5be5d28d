import Mathlib.Logic.Function.Basic
import TxService.ByteReader
import TxService.Protocol

/-!
# Log requests and the blobs they carry

The terms of the node groups a transaction touched, and its write set grouped by node group and
table. An unordered map is a list in the order it is walked.
-/

namespace TxService

open ByteReader

structure CcEntryAddr where
  nodeGroupId : NodeGroupId
  term : Int
  deriving DecidableEq, Repr

abbrev ShardTerms := NodeGroupId → Option Int

/-- `none` is `NG_TERM_CHANGED`: the node group failed over since another key was locked. -/
def ShardTerms.add (terms : ShardTerms) (addr : CcEntryAddr) : Option ShardTerms :=
  match terms addr.nodeGroupId with
  | none => some (Function.update terms addr.nodeGroupId (some addr.term))
  | some term => if term = addr.term then some terms else none

def ShardTerms.addAll (terms : ShardTerms) (addrs : List CcEntryAddr) : Option ShardTerms :=
  addrs.foldlM ShardTerms.add terms

structure LogRequest where
  nodeTerms : ShardTerms
  nodeTxnLogs : NodeGroupId → Option Bytes

section
variable {T E : Type} [DecidableEq T]

def emplaceBack (table : T) (entry : E) : List (T × List E) → List (T × List E)
  | [] => [(table, [entry])]
  | (t, entries) :: rest =>
    if t = table then (t, entries ++ [entry]) :: rest
    else (t, entries) :: emplaceBack table entry rest

abbrev NgTables (T E : Type) := NodeGroupId → List (T × List E)

def NgTables.add (tables : NgTables T E) (table : T) (entry : E) (ng : NodeGroupId) :
    NgTables T E :=
  Function.update tables ng (emplaceBack table entry (tables ng))

/-- An entry is logged once for each node group it is written to. -/
def NgTables.addEntry (nodeGroups : E → List NodeGroupId) (table : T) (tables : NgTables T E)
    (entry : E) : NgTables T E :=
  (nodeGroups entry).foldl (fun tables ng => tables.add table entry ng) tables

def NgTables.addTable (nodeGroups : E → List NodeGroupId) (tables : NgTables T E)
    (table : T × List E) : NgTables T E :=
  table.2.foldl (NgTables.addEntry nodeGroups table.1) tables

def organizeByNodeGroup (nodeGroups : E → List NodeGroupId) (wset : List (T × List E)) :
    NgTables T E :=
  wset.foldl (NgTables.addTable nodeGroups) fun _ => []

/-- The entries of a table that are logged for a node group. -/
def entriesOf (nodeGroups : E → List NodeGroupId) (ng : NodeGroupId) (entries : List E) : List E :=
  entries.flatMap fun entry => ((nodeGroups entry).filter (· = ng)).map fun _ => entry

/-- The tables of a write set with the entries they have for a node group. -/
def tablesOf (nodeGroups : E → List NodeGroupId) (ng : NodeGroupId) (wset : List (T × List E)) :
    List (T × List E) :=
  (wset.map fun table => (table.1, entriesOf nodeGroups ng table.2)).filter
    fun table => !table.2.isEmpty

variable {table : T} {tables : List (T × List E)}

theorem emplaceBack_last {entry : E} {entries : List E} (absent : table ∉ tables.map Prod.fst) :
    emplaceBack table entry (tables ++ [(table, entries)]) =
      tables ++ [(table, entries ++ [entry])] := by
  induction tables with
  | nil => simp [emplaceBack]
  | cons head tables ih =>
    rw [List.map_cons, List.mem_cons, not_or] at absent
    rw [List.cons_append, emplaceBack, if_neg (Ne.symm absent.1), ih absent.2, List.cons_append]

theorem emplaceBack_absent {entry : E} (absent : table ∉ tables.map Prod.fst) :
    emplaceBack table entry tables = tables ++ [(table, [entry])] := by
  induction tables with
  | nil => rfl
  | cons head tables ih =>
    rw [List.map_cons, List.mem_cons, not_or] at absent
    rw [emplaceBack, if_neg (Ne.symm absent.1), ih absent.2, List.cons_append]

theorem foldl_emplaceBack {entries more : List E} (absent : table ∉ tables.map Prod.fst) :
    more.foldl (fun tables entry => emplaceBack table entry tables)
        (tables ++ [(table, entries)]) = tables ++ [(table, entries ++ more)] := by
  induction more generalizing entries with
  | nil => simp
  | cons entry more ih => rw [List.foldl_cons, emplaceBack_last absent, ih]; simp

variable {nodeGroups : E → List NodeGroupId} {ng : NodeGroupId}

theorem NgTables.addEntry_at (tables : NgTables T E) (table : T) (entry : E) :
    tables.addEntry nodeGroups table entry ng =
      (((nodeGroups entry).filter (· = ng)).map fun _ => entry).foldl
        (fun tables entry => emplaceBack table entry tables) (tables ng) := by
  rw [NgTables.addEntry]
  induction nodeGroups entry generalizing tables with
  | nil => rfl
  | cons other groups ih =>
    rw [List.foldl_cons, ih]
    by_cases same : other = ng
    · subst same
      simp [NgTables.add]
    · simp [NgTables.add, same, Function.update_of_ne (Ne.symm same)]

theorem NgTables.addTable_at (tables : NgTables T E) (table : T × List E) :
    tables.addTable nodeGroups table ng =
      (entriesOf nodeGroups ng table.2).foldl
        (fun tables entry => emplaceBack table.1 entry tables) (tables ng) := by
  obtain ⟨table, entries⟩ := table
  rw [NgTables.addTable]
  induction entries generalizing tables with
  | nil => rfl
  | cons entry entries ih =>
    have split : entriesOf nodeGroups ng (entry :: entries) =
        ((nodeGroups entry).filter (· = ng)).map (fun _ => entry) ++
          entriesOf nodeGroups ng entries := by
      rw [entriesOf, List.flatMap_cons, entriesOf]
    rw [List.foldl_cons, ih, NgTables.addEntry_at, split, List.foldl_append]

theorem foldl_addTable_at (wset : List (T × List E)) (tables : NgTables T E)
    (distinct : (wset.map Prod.fst).Nodup)
    (absent : ∀ table ∈ wset.map Prod.fst, table ∉ (tables ng).map Prod.fst) :
    wset.foldl (NgTables.addTable nodeGroups) tables ng = tables ng ++ tablesOf nodeGroups ng wset := by
  induction wset generalizing tables with
  | nil => simp [tablesOf]
  | cons table wset ih =>
    rw [List.map_cons, List.nodup_cons] at distinct
    have new : table.1 ∉ (tables ng).map Prod.fst := absent _ List.mem_cons_self
    have others : ∀ other ∈ wset.map Prod.fst, other ∉ (tables ng).map Prod.fst :=
      fun other mem => absent other (List.mem_cons_of_mem _ mem)
    have placed : tables.addTable nodeGroups table ng = _ := NgTables.addTable_at tables table
    rw [List.foldl_cons]
    cases found : entriesOf nodeGroups ng table.2 with
    | nil =>
      rw [found, List.foldl_nil] at placed
      rw [ih _ distinct.2 (by rwa [placed]), placed]
      simp [tablesOf, found]
    | cons entry entries =>
      rw [found, List.foldl_cons, emplaceBack_absent new, foldl_emplaceBack new] at placed
      have fresh : ∀ other ∈ wset.map Prod.fst,
          other ∉ (tables.addTable nodeGroups table ng).map Prod.fst := by
        intro other mem
        rw [placed]
        have ne : other ≠ table.1 := fun eq => distinct.1 (eq ▸ mem)
        simpa [ne] using others other mem
      rw [ih _ distinct.2 fresh, placed]
      simp [tablesOf, found]

/-- Grouping gives each node group the tables with its entries, in the order of the set. -/
theorem organizeByNodeGroup_eq (wset : List (T × List E)) (distinct : (wset.map Prod.fst).Nodup)
    (ng : NodeGroupId) : organizeByNodeGroup nodeGroups wset ng = tablesOf nodeGroups ng wset := by
  rw [organizeByNodeGroup, foldl_addTable_at wset _ distinct (by simp)]
  rfl

end

end TxService
