import Mathlib.Algebra.Ring.Nat
import Mathlib.Data.List.Nodup
import TxService.CcScanner

/-!
# The merge of a hash partitioned scan

A shard delivers its tuples in batches, and the scanner takes it to be exhausted when its last
batch was not full.
-/

namespace TxService.TemplateCcScanner

open ScanDirection

universe u v w

variable {K : Type u} {V : Type v} {A : Type w}

/-- The blocked shard is filled with its next batch. -/
def refill (s : TemplateCcScanner K V A) (batch : List (ScanTuple K V A)) : TemplateCcScanner K V A :=
  { s with scans := s.scans.modify s.currShard fun _ => ⟨batch, 0⟩ }

/-- The batches that the shards have not delivered yet. -/
abbrev Later (K : Type u) (V : Type v) (A : Type w) := List (List (List (ScanTuple K V A)))

variable [LinearOrder K]

/-- The tuples until the scanner is closed, with the scanner and the batches that are left then. -/
def scanAll : Nat → TemplateCcScanner K V A → Later K V A →
    Option (List (ScanTuple K V A) × TemplateCcScanner K V A × Later K V A)
  | 0, _, _ => none
  | fuel + 1, s, later =>
    match s.current with
    | (some tuple, s) => (scanAll fuel s.moveNext later).map fun r => (tuple :: r.1, r.2)
    | (none, s) =>
      if s.status = .blocked then
        scanAll fuel (s.refill (((later[s.currShard]?).bind List.head?).getD []))
          (later.modify s.currShard List.tail)
      else some ([], s, later)

/-- The caches that the loop still goes over, from position `shard` on. -/
def Picks (direct : ScanDirection) (caches : List (ScanCache (ScanTuple K V A))) (shard : Nat)
    (minKey : Option (K × Nat)) : Pick → Prop
  | .blocked n => ∃ i c, n = shard + i ∧ caches[i]? = some c ∧ c.current = none ∧ c.status = .blocked
  | .nothing => minKey = none ∧ ∀ c ∈ caches, c.current = none ∧ c.status ≠ .blocked
  | .found n =>
    (∃ i t, n = shard + i ∧ (caches[i]?).bind ScanCache.current = some t ∧ t.keyTs = 0) ∨
    ∃ key, ((∃ i t, n = shard + i ∧ (caches[i]?).bind ScanCache.current = some t ∧ t.key = key) ∨
        minKey = some (key, n)) ∧
      (∀ min ∈ minKey, ¬ direct.Before min.1 key) ∧
      ∀ c ∈ caches, (∀ t, c.current = some t → ¬ direct.Before t.key key) ∧
        (c.current = none → c.status ≠ .blocked)

variable {direct : ScanDirection} {a b : K} {cache : ScanCache (ScanTuple K V A)}
  {caches : List (ScanCache (ScanTuple K V A))} {shard : Nat} {minKey : Option (K × Nat)} {p : Pick}
  {t : ScanTuple K V A}

theorem not_before_of_comesFirst (first : comesFirst direct a b = true) :
    ¬ direct.Before b a := by
  cases direct with
  | forward =>
    have lt : a < b := by simpa [comesFirst] using first
    exact not_lt.mpr lt.le
  | backward => simpa [comesFirst, Before] using first

theorem not_before_of_not_comesFirst (later : comesFirst direct a b = false) :
    ¬ direct.Before a b := by
  cases direct with
  | forward => simpa [comesFirst, Before] using later
  | backward =>
    have lt : a < b := by simpa [comesFirst] using later
    exact not_lt.mpr lt.le

theorem not_before_trans {a b c : K} (h : ¬ direct.Before a b) (h' : ¬ direct.Before b c) :
    ¬ direct.Before a c :=
  fun before => h' (before.of_not_before h)

/-- The loop goes by a cache: without a tuple and not blocked, or with one that does not come first. -/
theorem Picks.skip (h : Picks direct caches (shard + 1) minKey p)
    (open_ : cache.current = none → cache.status ≠ .blocked)
    (later : ∀ t, cache.current = some t → ∃ min ∈ minKey, ¬ direct.Before t.key min.1) :
    Picks direct (cache :: caches) shard minKey p := by
  cases p with
  | blocked n =>
    obtain ⟨i, c, rfl, here, empty⟩ := h
    exact ⟨i + 1, c, by omega, here, empty⟩
  | nothing =>
    obtain ⟨none_, all⟩ := h
    refine ⟨none_, List.forall_mem_cons.mpr ⟨?_, all⟩⟩
    cases found : cache.current with
    | none => exact ⟨rfl, open_ found⟩
    | some t =>
      obtain ⟨min, mem, -⟩ := later t found
      rw [none_] at mem
      cases mem
  | found n =>
    rcases h with ⟨i, t, rfl, here, gap⟩ | ⟨key, from_, best, all⟩
    · exact .inl ⟨i + 1, t, by omega, here, gap⟩
    · refine .inr ⟨key, from_.imp_left ?_, best,
        List.forall_mem_cons.mpr ⟨⟨fun t found => ?_, open_⟩, all⟩⟩
      · rintro ⟨i, t, rfl, here, same⟩
        exact ⟨i + 1, t, by omega, here, same⟩
      · obtain ⟨min, mem, not⟩ := later t found
        exact not_before_trans not (best min mem)

theorem Picks.take (h : Picks direct caches (shard + 1) (some (t.key, shard)) p)
    (found : cache.current = some t) (first : ∀ min ∈ minKey, ¬ direct.Before min.1 t.key) :
    Picks direct (cache :: caches) shard minKey p := by
  cases p with
  | blocked n =>
    obtain ⟨i, c, rfl, here, empty⟩ := h
    exact ⟨i + 1, c, by omega, here, empty⟩
  | nothing => cases h.1
  | found n =>
    rcases h with ⟨i, t, rfl, here, gap⟩ | ⟨key, from_, best, all⟩
    · exact .inl ⟨i + 1, t, by omega, here, gap⟩
    · have best : ¬ direct.Before t.key key := best _ rfl
      refine .inr ⟨key, .inl ?_, fun min mem => not_before_trans (first min mem) best,
        List.forall_mem_cons.mpr ⟨⟨fun t' found' => ?_, fun none_ => ?_⟩, all⟩⟩
      · rcases from_ with ⟨i, t', rfl, here, same⟩ | same
        · exact ⟨i + 1, t', by omega, here, same⟩
        · cases same
          exact ⟨0, t, rfl, found, rfl⟩
      · obtain rfl : t = t' := Option.some.inj (found.symm.trans found')
        exact best
      · cases found.symm.trans none_

theorem pick_picks (direct : ScanDirection) (caches : List (ScanCache (ScanTuple K V A))) (shard : Nat)
    (minKey : Option (K × Nat)) :
    Picks direct caches shard minKey (pick direct false caches shard minKey) := by
  induction caches generalizing shard minKey with
  | nil =>
    cases minKey with
    | none => exact ⟨rfl, List.forall_mem_nil _⟩
    | some min =>
      refine .inr ⟨min.1, .inr rfl, fun m mem => ?_, List.forall_mem_nil _⟩
      cases mem
      exact before_irrefl
  | cons cache caches ih =>
    unfold pick
    cases found : cache.current with
    | none =>
      simp only
      split
      · rename_i blocked
        exact ⟨0, cache, rfl, rfl, found, blocked.1⟩
      · rename_i not_
        refine (ih (shard + 1) minKey).skip (fun _ => by simpa using not_) fun t some_ => ?_
        cases found.symm.trans some_
    | some t =>
      simp only
      split
      · rename_i gap
        exact .inl ⟨0, t, rfl, found, gap⟩
      · split
        · rename_i first
          refine (ih (shard + 1) _).take found fun min mem => not_before_of_comesFirst ?_
          exact (Option.all_eq_true _ _).mp first min mem
        · rename_i later
          cases minKey with
          | none => exact absurd rfl later
          | some min =>
            refine (ih (shard + 1) _).skip (fun none_ => ?_) fun t' found' => ⟨min, rfl, ?_⟩
            · cases found.symm.trans none_
            · obtain rfl : t = t' := Option.some.inj (found.symm.trans found')
              exact not_before_of_not_comesFirst (by simpa using later)

/-- A cache with the batches that follow. -/
abbrev Shard (K : Type u) (V : Type v) (A : Type w) :=
  ScanCache (ScanTuple K V A) × List (List (ScanTuple K V A))

/-- Every batch that another one follows is full, and the last one is not. -/
def Batched {T : Type u} : List T → List (List T) → Prop
  | b, [] => b.length ≠ ScanCache.scanBatchSize
  | b, b' :: bs => b.length = ScanCache.scanBatchSize ∧ Batched b' bs

namespace Shard

variable {p : Shard K V A}

def remaining (p : Shard K V A) : List (ScanTuple K V A) := p.1.left ++ p.2.flatten

def moveNext (p : Shard K V A) : Shard K V A := (p.1.moveNext, p.2)

def refill (p : Shard K V A) : Shard K V A := (⟨p.2.head?.getD [], 0⟩, p.2.tail)

structure Valid (direct : ScanDirection) (p : Shard K V A) : Prop where
  batched : Batched p.1.tuples p.2
  sorted : p.remaining.Pairwise fun x y => direct.Before x.key y.key

omit [LinearOrder K] in
theorem status_of_none (none_ : p.1.current = none) :
    p.1.status = if p.1.tuples.length = ScanCache.scanBatchSize then .blocked else .closed := by
  have past := List.getElem?_eq_none_iff.mp none_
  rw [ScanCache.status, if_neg (by omega)]

variable {direct : ScanDirection}

theorem Valid.exhausted (h : Valid direct p) (none_ : p.1.current = none)
    (open_ : p.1.status ≠ .blocked) : p.remaining = [] ∧ p.2 = [] := by
  have short : p.1.tuples.length ≠ ScanCache.scanBatchSize := by
    rw [status_of_none none_] at open_
    simpa using open_
  have last : p.2 = [] := by
    have batched := h.batched
    cases more : p.2 with
    | nil => rfl
    | cons b bs =>
      rw [more] at batched
      exact absurd batched.1 short
  exact ⟨by simp [remaining, last, ScanCache.left_nil none_], last⟩

theorem Valid.refill (h : Valid direct p) (none_ : p.1.current = none)
    (blocked : p.1.status = .blocked) :
    Valid direct p.refill ∧ p.refill.remaining = p.remaining ∧ p.refill.2.length + 1 = p.2.length := by
  have full : p.1.tuples.length = ScanCache.scanBatchSize := by
    rw [status_of_none none_] at blocked
    by_contra short
    simp [short] at blocked
  have batched := h.batched
  have sorted := h.sorted
  cases more : p.2 with
  | nil =>
    rw [more] at batched
    exact absurd full batched
  | cons b bs =>
    rw [more] at batched
    have same : p.refill.remaining = p.remaining := by
      rw [remaining, remaining, ScanCache.left_nil none_, more]
      simp [Shard.refill, more, ScanCache.left]
    refine ⟨⟨?_, same ▸ sorted⟩, same, by simp [Shard.refill, more]⟩
    simpa [Shard.refill, more] using batched.2

variable {t : ScanTuple K V A}

omit [LinearOrder K] in
theorem remaining_current (found : p.1.current = some t) :
    p.remaining = t :: p.moveNext.remaining := by
  simp [remaining, moveNext, ScanCache.left_current found]

theorem Valid.moveNext (h : Valid direct p) (found : p.1.current = some t) :
    Valid direct p.moveNext := by
  refine ⟨h.batched, ?_⟩
  have sorted := h.sorted
  rw [remaining_current found] at sorted
  exact sorted.of_cons

end Shard

variable {α : Type u} {i : Nat} {β : Type v} {f : α → α} {l : List α}

theorem perm_flatMap_modify {g : α → List β} {a : α} {x : List β} (here : l[i]? = some a)
    (changed : (g a).Perm (x ++ g (f a))) :
    (l.flatMap g).Perm (x ++ (l.modify i f).flatMap g) := by
  induction l generalizing i with
  | nil => cases here
  | cons b l ih =>
    cases i with
    | zero =>
      obtain rfl : b = a := by simpa using here
      simp only [List.flatMap_cons, List.modify_zero_cons]
      rw [← List.append_assoc]
      exact changed.append_right _
    | succ i =>
      simp only [List.flatMap_cons, List.modify_succ_cons]
      refine ((ih (by simpa using here)).append_left (g b)).trans ?_
      rw [← List.append_assoc, ← List.append_assoc]
      exact List.perm_append_comm.append_right _

theorem mem_modify {a b : α} (here : l[i]? = some a) (mem : b ∈ l.modify i f) :
    b ∈ l ∨ b = f a := by
  obtain ⟨j, found⟩ := List.mem_iff_getElem?.mp mem
  rw [List.getElem?_modify] at found
  by_cases same : i = j
  · subst same
    rw [here] at found
    exact .inr (by simpa using found.symm)
  · refine .inl (List.mem_of_getElem? (i := j) ?_)
    simpa [same] using found

def remaining (shards : List (Shard K V A)) : List (ScanTuple K V A) := shards.flatMap Shard.remaining

/-- The steps that are left to the scan. -/
def stepsLeft (shards : List (Shard K V A)) : Nat :=
  (remaining shards).length + (shards.map fun p => p.2.length).sum

/-- The scanner between two tuples. -/
structure Merging (shards : List (Shard K V A)) (s : TemplateCcScanner K V A) (later : Later K V A) :
    Prop where
  scans : s.scans = shards.map Prod.fst
  later : later = shards.map Prod.snd
  drain : s.drainCacheMode = false
  tuple : s.currTuple = none
  status : s.status ≠ .closed
  valid : ∀ p ∈ shards, p.Valid s.direct
  distinct : ((remaining shards).map ScanTuple.key).Nodup

theorem map_modify (g : α → β) (f : α → α) (f' : β → β) {a : α} (here : l[i]? = some a)
    (comm : g (f a) = f' (g a)) :
    (l.modify i f).map g = (l.map g).modify i f' := by
  induction l generalizing i with
  | nil => cases here
  | cons b l ih =>
    cases i with
    | zero =>
      obtain rfl : b = a := by simpa using here
      simp [comm]
    | succ i => simp [ih (by simpa using here)]

/-- The scan ends with every tuple that was left, in order, and with every shard exhausted. -/
structure Ends (shards : List (Shard K V A)) (direct : ScanDirection)
    (r : List (ScanTuple K V A) × TemplateCcScanner K V A × Later K V A) : Prop where
  all : r.1.Perm (remaining shards)
  sorted : (r.1.filter fun t => 0 < t.keyTs).Pairwise fun x y => direct.Before x.key y.key
  closed : r.2.1.status = .closed
  exhausted : r.2.1.left = []
  delivered : ∀ batches ∈ r.2.2, batches = []

theorem Ends.cons {shards shards' : List (Shard K V A)}
    {r : List (ScanTuple K V A) × TemplateCcScanner K V A × Later K V A} (h : Ends shards' direct r)
    (perm : (remaining shards).Perm (t :: remaining shards'))
    (first : 0 < t.keyTs → ∀ y ∈ remaining shards', direct.Before t.key y.key) :
    Ends shards direct (t :: r.1, r.2) where
  all := (h.all.cons t).trans perm.symm
  sorted := by
    by_cases keyed : 0 < t.keyTs
    · simp only [List.filter_cons, keyed, decide_true, if_true]
      refine List.pairwise_cons.mpr ⟨fun y mem => ?_, h.sorted⟩
      exact first keyed y (h.all.mem_iff.mp (List.mem_of_mem_filter mem))
    · simp only [List.filter_cons, keyed, decide_false, Bool.false_eq_true, if_false]
      exact h.sorted
  closed := h.closed
  exhausted := h.exhausted
  delivered := h.delivered

section

variable {shards : List (Shard K V A)} {n : Nat} {p : Shard K V A}

omit [LinearOrder K] in
theorem perm_moveNext {t : ScanTuple K V A} (here : shards[n]? = some p)
    (current : p.1.current = some t) :
    (remaining shards).Perm (t :: remaining (shards.modify n Shard.moveNext)) :=
  perm_flatMap_modify here (x := [t]) (.of_eq (Shard.remaining_current current))

omit [LinearOrder K] in
theorem sum_later_modify {f : Shard K V A → Shard K V A} {d : Nat} (here : shards[n]? = some p)
    (less : (f p).2.length + d = p.2.length) :
    ((shards.modify n f).map fun p => p.2.length).sum + d = (shards.map fun p => p.2.length).sum := by
  induction shards generalizing n with
  | nil => cases here
  | cons q shards ih =>
    cases n with
    | zero =>
      obtain rfl : q = p := by simpa using here
      simp only [List.modify_zero_cons, List.map_cons, List.sum_cons]
      omega
    | succ n =>
      have := ih (by simpa using here)
      simp only [List.modify_succ_cons, List.map_cons, List.sum_cons]
      omega

end

namespace Merging

variable {shards : List (Shard K V A)} {s s' : TemplateCcScanner K V A} {later later' : Later K V A}
  {n : Nat} {p : Shard K V A} {f : Shard K V A → Shard K V A} {x : List (ScanTuple K V A)}

theorem modify (m : Merging shards s later) (here : shards[n]? = some p) (valid : (f p).Valid s.direct)
    (taken : p.remaining = x ++ (f p).remaining) (scans : s'.scans = (shards.modify n f).map Prod.fst)
    (more : later' = (shards.modify n f).map Prod.snd) (direct : s'.direct = s.direct)
    (drain : s'.drainCacheMode = false) (tuple : s'.currTuple = none) (status : s'.status ≠ .closed) :
    Merging (shards.modify n f) s' later' where
  scans := scans
  later := more
  drain := drain
  tuple := tuple
  status := status
  valid q mem := by
    rw [direct]
    rcases mem_modify here mem with mem | rfl
    · exact m.valid q mem
    · exact valid
  distinct := by
    have perm : (remaining shards).Perm (x ++ remaining (shards.modify n f)) :=
      perm_flatMap_modify here (.of_eq taken)
    have nodup := (perm.map ScanTuple.key).nodup_iff.mp m.distinct
    rw [List.map_append] at nodup
    exact (List.nodup_append.mp nodup).2.1

theorem shard_of_cache (m : Merging shards s later) {c : ScanCache (ScanTuple K V A)}
    (here : s.scans[n]? = some c) : ∃ p, shards[n]? = some p ∧ p.1 = c := by
  rw [m.scans, List.getElem?_map, Option.map_eq_some_iff] at here
  exact here

/-- What `Current` finds: a tuple of a shard that no other keyed tuple comes before, a blocked
shard, or nothing and every shard is exhausted. -/
inductive Turn (shards : List (Shard K V A)) (s : TemplateCcScanner K V A) :
    Option (ScanTuple K V A) × TemplateCcScanner K V A → Prop
  | found {n : Nat} {p : Shard K V A} {t : ScanTuple K V A} (here : shards[n]? = some p)
      (current : p.1.current = some t)
      (first : 0 < t.keyTs → ∀ y ∈ remaining shards, y.key ≠ t.key → s.direct.Before t.key y.key) :
      Turn shards s (some t, { s with status := .open, currShard := n, currTuple := some t })
  | blocked {n : Nat} {p : Shard K V A} (here : shards[n]? = some p) (current : p.1.current = none)
      (blocked : p.1.status = .blocked) :
      Turn shards s (none, { s with status := .blocked, currShard := n })
  | nothing (exhausted : ∀ p ∈ shards, p.remaining = [] ∧ p.2 = []) :
      Turn shards s (none, { s with status := .closed })

/-- A tuple that no tuple at the front of a cache comes before is first of all. -/
theorem first_of_all (m : Merging shards s later) {t : ScanTuple K V A}
    (best : ∀ c ∈ s.scans, (∀ t', c.current = some t' → ¬ s.direct.Before t'.key t.key) ∧
      (c.current = none → c.status ≠ .blocked)) :
    ∀ y ∈ remaining shards, y.key ≠ t.key → s.direct.Before t.key y.key := by
  intro y mem other
  obtain ⟨p, at_, mem⟩ := List.mem_flatMap.mp mem
  have valid := m.valid p at_
  obtain ⟨not_, open_⟩ := best p.1 (m.scans ▸ List.mem_map_of_mem at_)
  cases found : p.1.current with
  | none =>
    rw [(valid.exhausted found (open_ found)).1] at mem
    cases mem
  | some t' =>
    have sorted := valid.sorted
    rw [Shard.remaining_current found] at mem sorted
    have after : y = t' ∨ s.direct.Before t'.key y.key :=
      (List.mem_cons.mp mem).imp_right (List.rel_of_pairwise_cons sorted)
    by_cases same : t'.key = t.key
    · rcases after with rfl | after
      · exact absurd same other
      · exact same ▸ after
    · have front : s.direct.Before t.key t'.key :=
        (before_of_ne s.direct same).resolve_left (not_ t' found)
      rcases after with rfl | after
      · exact front
      · exact front.trans after

theorem turn (m : Merging shards s later) : Turn shards s s.current := by
  have picks := pick_picks s.direct s.scans 0 none
  rw [← m.drain] at picks
  unfold current
  split
  · rename_i t some_
    cases m.tuple.symm.trans some_
  rw [if_neg m.status]
  cases found : pick s.direct s.drainCacheMode s.scans 0 none with
  | blocked n =>
    rw [found] at picks
    obtain ⟨i, c, same, here, empty, blocked⟩ := picks
    obtain rfl : n = i := by omega
    obtain ⟨p, at_, rfl⟩ := m.shard_of_cache here
    exact .blocked at_ empty blocked
  | nothing =>
    rw [found] at picks
    refine .nothing fun p mem => ?_
    obtain ⟨empty, open_⟩ := picks.2 p.1 (m.scans ▸ List.mem_map_of_mem mem)
    exact (m.valid p mem).exhausted empty open_
  | found n =>
    rw [found] at picks
    have front : ∃ t, (s.scans[n]?).bind ScanCache.current = some t ∧
        (0 < t.keyTs → ∀ y ∈ remaining shards, y.key ≠ t.key → s.direct.Before t.key y.key) := by
      rcases picks with ⟨i, t, same, here, gap⟩ | ⟨key, from_, -, best⟩
      · obtain rfl : n = i := by omega
        exact ⟨t, here, fun keyed => by omega⟩
      · rcases from_ with ⟨i, t, same, here, rfl⟩ | from_
        · obtain rfl : n = i := by omega
          exact ⟨t, here, fun _ => m.first_of_all best⟩
        · cases from_
    obtain ⟨t, front, first⟩ := front
    obtain ⟨c, here, current⟩ := Option.bind_eq_some_iff.mp front
    obtain ⟨p, at_, rfl⟩ := m.shard_of_cache here
    simp only [front]
    exact .found at_ current first

theorem moveNext (m : Merging shards s later) {t : ScanTuple K V A} (here : shards[n]? = some p)
    (current : p.1.current = some t) :
    Merging (shards.modify n Shard.moveNext)
      { s with status := .open, currShard := n, currTuple := some t }.moveNext later := by
  refine m.modify (x := [t]) here ((m.valid p (List.mem_of_getElem? here)).moveNext current)
    (Shard.remaining_current current) ?_ ?_ rfl m.drain rfl nofun
  · rw [map_modify Prod.fst Shard.moveNext ScanCache.moveNext here rfl, ← m.scans]
    rfl
  · rw [map_modify Prod.snd Shard.moveNext id here rfl, ← m.later, List.modify_id]

theorem refill (m : Merging shards s later) (here : shards[n]? = some p) (current : p.1.current = none)
    (blocked : p.1.status = .blocked) :
    Merging (shards.modify n Shard.refill)
      ({ s with status := .blocked, currShard := n }.refill (((later[n]?).bind List.head?).getD []))
      (later.modify n List.tail) := by
  obtain ⟨valid, same, -⟩ := (m.valid p (List.mem_of_getElem? here)).refill current blocked
  have batch : ((later[n]?).bind List.head?).getD [] = p.2.head?.getD [] := by
    rw [m.later, List.getElem?_map, here]
    rfl
  refine m.modify (x := []) here valid same.symm ?_ ?_ rfl m.drain m.tuple nofun
  · rw [batch, map_modify Prod.fst Shard.refill (fun _ => ⟨p.2.head?.getD [], 0⟩) here rfl, ← m.scans]
    rfl
  · rw [map_modify Prod.snd Shard.refill List.tail here rfl, ← m.later]

theorem scanAll_ends (m : Merging shards s later) {fuel : Nat} (enough : stepsLeft shards < fuel) :
    ∃ r, scanAll fuel s later = some r ∧ Ends shards s.direct r := by
  induction fuel generalizing shards s later with
  | zero => omega
  | succ fuel ih =>
    unfold scanAll
    have turn := m.turn
    generalize s.current = c at turn ⊢
    cases turn with
    | @found n p t here current first =>
      have perm := perm_moveNext here current
      have fewer : stepsLeft (shards.modify n Shard.moveNext) < fuel := by
        have := sum_later_modify (f := Shard.moveNext) (d := 0) here rfl
        have := perm.length_eq
        rw [List.length_cons] at this
        unfold stepsLeft at enough ⊢
        omega
      obtain ⟨r, all, ends⟩ := ih (m.moveNext here current) fewer
      simp only [all, Option.map_some]
      refine ⟨_, rfl, ends.cons perm fun keyed y mem => ?_⟩
      refine first keyed y (perm.mem_iff.mpr (List.mem_cons_of_mem t mem)) ?_
      have distinct := (perm.map ScanTuple.key).nodup_iff.mp m.distinct
      exact fun same => (List.nodup_cons.mp distinct).1 (same ▸ List.mem_map_of_mem mem)
    | @blocked n p here current blocked =>
      obtain ⟨-, same, fewer⟩ := (m.valid p (List.mem_of_getElem? here)).refill current blocked
      have perm : (remaining shards).Perm (remaining (shards.modify n Shard.refill)) :=
        perm_flatMap_modify (x := []) here (.of_eq same.symm)
      have fewer : stepsLeft (shards.modify n Shard.refill) < fuel := by
        have := sum_later_modify (f := Shard.refill) here fewer
        have := perm.length_eq
        unfold stepsLeft at enough ⊢
        omega
      obtain ⟨r, all, ends⟩ := ih (m.refill here current blocked) fewer
      simp only [if_true, all]
      exact ⟨r, rfl, ends.all.trans perm.symm, ends.sorted, ends.closed, ends.exhausted, ends.delivered⟩
    | nothing exhausted =>
      have none_ : remaining shards = [] := List.flatMap_eq_nil_iff.mpr fun p mem => (exhausted p mem).1
      refine ⟨_, rfl, none_ ▸ .refl _, List.Pairwise.nil, rfl, ?_, ?_⟩
      · show s.scans.flatMap ScanCache.left = []
        rw [m.scans, List.flatMap_eq_nil_iff]
        intro c mem
        obtain ⟨p, at_, rfl⟩ := List.mem_map.mp mem
        exact (List.append_eq_nil_iff.mp (exhausted p at_).1).1
      · intro batches mem
        rw [m.later] at mem
        obtain ⟨p, at_, rfl⟩ := List.mem_map.mp mem
        exact (exhausted p at_).2

end Merging

/-- With every batch but the last of a shard full, taking tuples and filling blocked shards again
returns each tuple once, the keyed ones in the order of the scan, and the scanner is closed with
every shard exhausted. -/
theorem hash_scan_returns_all_in_order (s : TemplateCcScanner K V A)
    (shards : List (List (ScanTuple K V A) × List (List (ScanTuple K V A))))
    (scans : s.scans = shards.map fun b => ⟨b.1, 0⟩) (drain : s.drainCacheMode = false)
    (tuple : s.currTuple = none) (status : s.status ≠ .closed)
    (batched : ∀ b ∈ shards, Batched b.1 b.2)
    (sorted : ∀ b ∈ shards, (b.1 ++ b.2.flatten).Pairwise fun x y => s.direct.Before x.key y.key)
    (distinct : ((shards.flatMap fun b => b.1 ++ b.2.flatten).map ScanTuple.key).Nodup) (fuel : Nat)
    (enough : (shards.flatMap fun b => b.1 ++ b.2.flatten).length +
      (shards.map fun b => b.2.length).sum < fuel) :
    ∃ out s' later', scanAll fuel s (shards.map Prod.snd) = some (out, s', later') ∧
      out.Perm (shards.flatMap fun b => b.1 ++ b.2.flatten) ∧
      ((out.filter fun t => 0 < t.keyTs).Pairwise fun x y => s.direct.Before x.key y.key) ∧
      s'.status = .closed ∧ s'.left = [] ∧ ∀ batches ∈ later', batches = [] := by
  have all : remaining (shards.map fun b => ((⟨b.1, 0⟩, b.2) : Shard K V A)) =
      shards.flatMap fun b => b.1 ++ b.2.flatten := by
    simp [remaining, Shard.remaining, ScanCache.left, List.flatMap_map]
  have merging : Merging (shards.map fun b => ((⟨b.1, 0⟩, b.2) : Shard K V A)) s (shards.map Prod.snd) :=
    { scans := by rw [scans, List.map_map]; rfl
      later := by rw [List.map_map]; rfl
      drain, tuple, status
      valid := by
        intro p mem
        obtain ⟨b, at_, rfl⟩ := List.mem_map.mp mem
        exact ⟨batched b at_, sorted b at_⟩
      distinct := all ▸ distinct }
  have steps : stepsLeft (shards.map fun b => ((⟨b.1, 0⟩, b.2) : Shard K V A)) < fuel := by
    rw [stepsLeft, all, List.map_map]
    exact enough
  obtain ⟨⟨out, s', later'⟩, run, ends⟩ := merging.scanAll_ends steps
  exact ⟨out, s', later', run, all ▸ ends.all, ends.sorted, ends.closed, ends.exhausted, ends.delivered⟩

/-- A tuple of a scan without records. -/
def keyed (key keyTs : Nat) : ScanTuple Nat Unit Unit := ⟨key, none, keyTs, .normal, ()⟩

/-- A scanner over the first batches. -/
def opened (batches : List (List (ScanTuple Nat Unit Unit))) : TemplateCcScanner Nat Unit Unit where
  settings := ⟨.primary, false, false, .repeatableRead, .occ⟩
  direct := .forward
  status := .open
  drainCacheMode := false
  scans := batches.map fun b => ⟨b, 0⟩
  currShard := 0
  currTuple := none

/-- A shard with a full batch and one more tuple, and a shard with a tuple and a gap. -/
def twoShards : List (List (ScanTuple Nat Unit Unit) × List (List (ScanTuple Nat Unit Unit))) :=
  [((List.range 128).map fun i => keyed (2 * i) 1, [[keyed 256 1]]), ([keyed 1 1, keyed 257 0], [])]

theorem hash_scan_returns_all_in_order_two_shards :
    ∃ out s' later', scanAll 133 (opened (twoShards.map Prod.fst)) (twoShards.map Prod.snd) =
        some (out, s', later') ∧
      out.Perm (twoShards.flatMap fun b => b.1 ++ b.2.flatten) ∧
      ((out.filter fun t => 0 < t.keyTs).Pairwise fun x y => ScanDirection.forward.Before x.key y.key) ∧
      s'.status = .closed ∧ s'.left = [] ∧ ∀ batches ∈ later', batches = [] := by
  have sorted : ∀ b ∈ twoShards, (b.1 ++ b.2.flatten).Pairwise fun x y => x.key < y.key := by
    have chains : ∀ b ∈ twoShards, ((b.1 ++ b.2.flatten).map ScanTuple.key).IsChain (· < ·) := by
      decide +kernel
    exact fun b mem => List.pairwise_map.mp (List.isChain_iff_pairwise.mp (chains b mem))
  refine hash_scan_returns_all_in_order (opened (twoShards.map Prod.fst)) twoShards rfl rfl rfl nofun
    ?_ sorted ?_ 133 ?_
  · intro b mem
    simp only [twoShards, List.mem_cons, List.not_mem_nil, or_false] at mem
    rcases mem with rfl | rfl
    · exact ⟨by simp [ScanCache.scanBatchSize], by simp [Batched, ScanCache.scanBatchSize]⟩
    · simp [Batched, ScanCache.scanBatchSize]
  · rw [List.map_flatMap, List.nodup_flatMap]
    refine ⟨fun b mem => ?_, List.pairwise_pair.mpr fun x mem other => ?_⟩
    · exact (List.pairwise_map.mpr (sorted b mem)).imp Nat.ne_of_lt
    · have apart : ∀ x ∈ [1, 257],
          x ∉ (((List.range 128).map fun i => keyed (2 * i) 1) ++ [keyed 256 1]).map ScanTuple.key := by
        decide +kernel
      exact apart x other mem
  · decide +kernel

/-- A shard that delivers its two tuples one by one is taken to be exhausted after the first. -/
theorem short_batch_ends_the_scan :
    scanAll 9 (opened [[keyed 1 1]]) [[[keyed 2 1]]] =
      some ([keyed 1 1], { opened [[keyed 1 1]] with status := .closed, scans := [⟨[keyed 1 1], 1⟩] },
        [[[keyed 2 1]]]) := by
  rfl

end TxService.TemplateCcScanner
