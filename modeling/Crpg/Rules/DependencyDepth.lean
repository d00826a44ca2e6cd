import Mathlib.Data.List.Count
import Crpg.Rules.CycleSearch

/-!
# The depth of a dependency graph

`over_depth_stat` walks a dependency graph from the stats without references, each stat when its
last reference is processed, and records for every stat the longest chain it has seen. A stat with
a reference outside the map is never processed, nor is a stat that depends on one: the recorded
chains continue, after their first stat, through stats that depend on nothing outside the map
(`Adjacency.GroundedChainFrom`). In a graph whose references stay in the map these are all chains
(`groundedChainFrom_of_closed`).

`Progress` is what holds between two stats and `Relaxing` what holds between two dependents of one.
-/

set_option autoImplicit false

namespace Crpg.Rules

open Crpg.Core Crpg.Lib Relation
open List (append_assoc append_nil forall_mem_cons mem_cons mem_cons_self mem_map mem_singleton
  not_mem_nil)

namespace Adjacency

variable {adjacency : Adjacency} {stat reference : StatId} {length : ℕ}

def references (adjacency : Adjacency) (stat : StatId) : List StatId :=
  (adjacency.get? stat).getD []

/-- All references stay in the map. -/
def Closed (adjacency : Adjacency) : Prop :=
  ∀ stat reference, adjacency.Edge stat reference → reference ∈ adjacency.keys

/-- A stat depends on nothing outside the map. -/
def Grounded (adjacency : Adjacency) (stat : StatId) : Prop :=
  ∀ reached, ReflTransGen adjacency.Edge stat reached → reached ∈ adjacency.keys

/-- A dependency chain of a number of stats of the map starts at a stat. -/
def ChainFrom (adjacency : Adjacency) (stat : StatId) (length : ℕ) : Prop :=
  ∃ chain : List StatId, chain.head? = some stat ∧ chain.length = length ∧
    chain.IsChain adjacency.Edge ∧ ∀ entry ∈ chain, entry ∈ adjacency.keys

/-- A dependency chain that continues through stats that depend on nothing outside the map. -/
def GroundedChainFrom (adjacency : Adjacency) (stat : StatId) (length : ℕ) : Prop :=
  ∃ chain : List StatId, chain.head? = some stat ∧ chain.length = length ∧
    chain.IsChain adjacency.Edge ∧ (∀ entry ∈ chain, entry ∈ adjacency.keys) ∧
    ∀ entry ∈ chain.tail, adjacency.Grounded entry

theorem Edge.exists_refs (hedge : adjacency.Edge stat reference) :
    ∃ refs, adjacency.get? stat = some refs ∧ reference ∈ refs := by
  unfold Edge Refers at hedge
  cases hrefs : adjacency.get? stat with
  | none =>
    rw [hrefs] at hedge
    exact absurd hedge not_mem_nil
  | some refs =>
    rw [hrefs] at hedge
    exact ⟨refs, rfl, hedge⟩

theorem Grounded.mem_keys (hgrounded : adjacency.Grounded stat) : stat ∈ adjacency.keys :=
  hgrounded stat .refl

theorem Grounded.edge (hgrounded : adjacency.Grounded stat)
    (hedge : adjacency.Edge stat reference) : adjacency.Grounded reference :=
  fun reached hreached ↦ hgrounded reached (.head hedge hreached)

theorem grounded_of_references (hstat : stat ∈ adjacency.keys)
    (hreferences : ∀ reference ∈ adjacency.references stat, adjacency.Grounded reference) :
    adjacency.Grounded stat := by
  intro reached hreached
  rcases ReflTransGen.cases_head hreached with rfl | ⟨next, hedge, hrest⟩
  · exact hstat
  · exact hreferences next hedge reached hrest

theorem groundedChainFrom_one (hstat : stat ∈ adjacency.keys) :
    adjacency.GroundedChainFrom stat 1 :=
  ⟨[stat], rfl, rfl, List.isChain_singleton _,
    fun _ hentry ↦ mem_singleton.mp hentry ▸ hstat, nofun⟩

theorem GroundedChainFrom.cons (hchain : adjacency.GroundedChainFrom reference length)
    (hstat : stat ∈ adjacency.keys) (hedge : adjacency.Edge stat reference)
    (hgrounded : adjacency.Grounded reference) : adjacency.GroundedChainFrom stat (length + 1) := by
  obtain ⟨chain, hhead, hlength, hsteps, hkeys, htail⟩ := hchain
  cases chain with
  | nil => exact nomatch hhead
  | cons first rest =>
    have hfirst : first = reference := Option.some.inj hhead
    rw [hfirst] at hlength hsteps hkeys
    refine ⟨stat :: reference :: rest, rfl, congrArg (· + 1) hlength,
      List.isChain_cons_cons.mpr ⟨hedge, hsteps⟩, forall_mem_cons.mpr ⟨hstat, hkeys⟩,
      forall_mem_cons.mpr ⟨hgrounded, htail⟩⟩

theorem grounded_of_closed (hclosed : adjacency.Closed) (hstat : stat ∈ adjacency.keys) :
    adjacency.Grounded stat := by
  intro reached hreached
  rcases ReflTransGen.cases_tail hreached with rfl | ⟨last, -, hedge⟩
  · exact hstat
  · exact hclosed last reached hedge

theorem groundedChainFrom_of_closed (hclosed : adjacency.Closed) :
    adjacency.GroundedChainFrom stat length ↔ adjacency.ChainFrom stat length := by
  constructor
  · intro ⟨chain, hhead, hlength, hsteps, hkeys, _⟩
    exact ⟨chain, hhead, hlength, hsteps, hkeys⟩
  · intro ⟨chain, hhead, hlength, hsteps, hkeys⟩
    exact ⟨chain, hhead, hlength, hsteps, hkeys, fun entry hentry ↦
      grounded_of_closed hclosed (hkeys entry (List.mem_of_mem_tail hentry))⟩

end Adjacency

/-! ### Dependents -/

/-- The fold over the references of one stat adds it once for each occurrence. -/
theorem foldl_references (refs : List StatId) (stat reference : StatId)
    (dependents : BTreeMap StatId (List StatId)) :
    ((refs.foldl (fun dependents reference ↦ dependents.insert reference
      ((dependents.get? reference).getD [] ++ [stat])) dependents).get? reference).getD [] =
      (dependents.get? reference).getD [] ++ List.replicate (refs.count reference) stat := by
  induction refs generalizing dependents with
  | nil => exact (append_nil _).symm
  | cons first rest ih =>
    rw [List.foldl_cons, ih, List.count_cons]
    by_cases hsame : first = reference
    · rw [hsame, BTreeMap.get?_insert_self, Option.getD_some, append_assoc, beq_self_eq_true,
        if_pos rfl, Nat.add_comm, List.replicate_add]
      rfl
    · rw [BTreeMap.get?_insert_of_ne _ (Ne.symm hsame), if_neg (by simpa using hsame), Nat.add_zero]

theorem count_dependentsOf (adjacency : Adjacency) (stat reference : StatId) :
    (((dependentsOf adjacency).get? reference).getD []).count stat =
      (adjacency.references stat).count reference := by
  have hfold (entries : List (StatId × List StatId)) (dependents : BTreeMap StatId (List StatId)) :
      ((entries.foldl (fun dependents entry ↦ entry.2.foldl (fun dependents reference ↦
        dependents.insert reference ((dependents.get? reference).getD [] ++ [entry.1])) dependents)
        dependents).get? reference).getD [] = (dependents.get? reference).getD [] ++
          entries.flatMap fun entry ↦ List.replicate (entry.2.count reference) entry.1 := by
    induction entries generalizing dependents with
    | nil => exact (append_nil _).symm
    | cons entry rest ih =>
      rw [List.foldl_cons, ih, foldl_references, append_assoc, List.flatMap_cons]
  have hcount (entries : List (StatId × List StatId))
      (hascending : entries.Pairwise fun first second ↦ first.1 < second.1) :
      (entries.flatMap fun entry ↦ List.replicate (entry.2.count reference) entry.1).count stat =
        ((Entries.lookup stat entries).getD []).count reference := by
    induction entries with
    | nil => rfl
    | cons entry rest ih =>
      obtain ⟨found, refs⟩ := entry
      obtain ⟨hhead, hrest⟩ := List.pairwise_cons.mp hascending
      rw [List.flatMap_cons, List.count_append, ih hrest, Entries.lookup, List.count_replicate]
      by_cases hsame : stat = found
      · rw [if_pos hsame, Option.getD_some, if_pos (by simp [hsame]),
          BTreeMap.lookup_eq_none_of_lt fun entry hentry ↦ hsame ▸ hhead entry hentry]
        rfl
      · rw [if_neg hsame, if_neg (by simpa using Ne.symm hsame), Nat.zero_add]
  unfold dependentsOf
  rw [hfold, BTreeMap.get?_empty, Option.getD_none, List.nil_append]
  exact hcount adjacency.entries adjacency.ascending

/-! ### The walk between two dependents -/

/-- The references of a stat that are not processed yet, with multiplicity. -/
def waiting (adjacency : Adjacency) (done : List StatId) (stat : StatId) : ℕ :=
  (adjacency.references stat).countP (· ∉ done)

/-- What holds while the dependents of the last processed stat are relaxed: `left` is what is left
of them. -/
structure Relaxing (adjacency : Adjacency) (done : List StatId) (node : StatId) (base : ℕ)
    (left : List StatId) (walk : Walk) : Prop where
  indegree : ∀ stat, walk.indegree.get? stat =
    (adjacency.get? stat).map fun _ ↦ waiting adjacency done stat + left.count stat
  ready : ∀ stat, stat ∈ done ++ walk.queue ↔
    stat ∈ adjacency.keys ∧ waiting adjacency done stat + left.count stat = 0
  distinct : (done ++ walk.queue).Nodup
  grounded : ∀ stat ∈ done, adjacency.Grounded stat
  sound : ∀ stat length, walk.longest.get? stat = some length →
    adjacency.GroundedChainFrom stat length
  passed : ∀ stat ∈ done, ∃ length, walk.longest.get? stat = some length ∧ 0 < length
  complete : ∀ stat ∈ adjacency.keys, ∀ reference ∈ adjacency.references stat, reference ∈ done →
    (reference = node → stat ∉ left) → ∀ length, walk.longest.get? reference = some length →
      ∃ longer, walk.longest.get? stat = some longer ∧ length + 1 ≤ longer
  node_done : node ∈ done
  node_base : walk.longest.get? node = some base
  left : ∀ stat ∈ left, stat ∈ adjacency.keys ∧ node ∈ adjacency.references stat

variable {adjacency : Adjacency} {done left : List StatId} {node dependent : StatId} {base : ℕ}
  {walk : Walk}

theorem Relaxing.relax (hrelaxing : Relaxing adjacency done node base (dependent :: left) walk) :
    Relaxing adjacency done node base left (Rules.relax base walk dependent) := by
  obtain ⟨hkeys, hedge⟩ := hrelaxing.left dependent mem_cons_self
  obtain ⟨refs, hrefs⟩ := adjacency.mem_keys_iff.mp hkeys
  have hcountSelf : (dependent :: left).count dependent = left.count dependent + 1 :=
    List.count_cons_self
  have hcountOther {stat : StatId} (hne : stat ≠ dependent) :
      (dependent :: left).count stat = left.count stat := List.count_cons_of_ne (Ne.symm hne)
  have hout : dependent ∉ done ++ walk.queue := by
    rw [hrelaxing.ready, hcountSelf]
    omega
  have hnotDone : dependent ∉ done := fun hin ↦ hout (List.mem_append_left _ hin)
  have hnode : node ≠ dependent := fun hsame ↦ hnotDone (hsame ▸ hrelaxing.node_done)
  have hremaining : walk.indegree.get? dependent =
      some (waiting adjacency done dependent + left.count dependent + 1) := by
    rw [hrelaxing.indegree, hrefs, Option.map_some, hcountSelf, Nat.add_assoc]
  -- The longest chain of the dependent only grows, and reaches past the processed stat.
  have hlonger : base + 1 ≤ max ((walk.longest.get? dependent).getD 1) (base + 1) :=
    le_max_right _ _
  have hsound : adjacency.GroundedChainFrom dependent
      (max ((walk.longest.get? dependent).getD 1) (base + 1)) := by
    have hpast : adjacency.GroundedChainFrom dependent (base + 1) :=
      (hrelaxing.sound node base hrelaxing.node_base).cons hkeys hedge
        (hrelaxing.grounded node hrelaxing.node_done)
    rcases max_choice ((walk.longest.get? dependent).getD 1) (base + 1) with hmax | hmax
    · rw [hmax]
      cases hfound : walk.longest.get? dependent with
      | none => exact Adjacency.groundedChainFrom_one hkeys
      | some length => exact hrelaxing.sound dependent length hfound
    · rw [hmax]
      exact hpast
  generalize hvalue : max ((walk.longest.get? dependent).getD 1) (base + 1) = value at *
  have hgrows {length : ℕ} (hfound : walk.longest.get? dependent = some length) :
      length ≤ value := by
    rw [← hvalue, hfound, Option.getD_some]
    exact le_max_left _ _
  have hrelaxed : Rules.relax base walk dependent =
      { indegree := walk.indegree.insert dependent
          (waiting adjacency done dependent + left.count dependent)
        longest := walk.longest.insert dependent value
        queue := if waiting adjacency done dependent + left.count dependent = 0 then
          walk.queue ++ [dependent] else walk.queue } := by
    unfold Rules.relax
    rw [hremaining, hvalue]
    rfl
  rw [hrelaxed]
  refine ⟨fun stat ↦ ?_, fun stat ↦ ?_, ?_, hrelaxing.grounded, fun stat length hfound ↦ ?_,
    fun stat hstat ↦ ?_, fun stat hstat reference hreference hdone hpassed length hfound ↦ ?_,
    hrelaxing.node_done, ?_, fun stat hstat ↦ hrelaxing.left stat (List.mem_cons_of_mem _ hstat)⟩
  · by_cases hsame : stat = dependent
    · rw [hsame, BTreeMap.get?_insert_self, hrefs]
      rfl
    · rw [BTreeMap.get?_insert_of_ne _ hsame, hrelaxing.indegree, hcountOther hsame]
  · by_cases hsame : stat = dependent
    · rw [hsame]
      dsimp only
      split_ifs with hzero
      · simp [hzero, hkeys]
      · exact ⟨fun hin ↦ absurd hin hout, fun hready ↦ absurd hready.2 hzero⟩
    · rw [← hcountOther hsame, ← hrelaxing.ready]
      dsimp only
      split_ifs with hzero
      · simp [hsame]
      · exact Iff.rfl
  · dsimp only
    split_ifs with hzero
    · rw [← append_assoc]
      exact List.nodup_append.mpr ⟨hrelaxing.distinct, List.nodup_singleton _,
        fun stat hstat other hother hsame ↦
          hout (mem_singleton.mp hother ▸ hsame ▸ hstat)⟩
    · exact hrelaxing.distinct
  · by_cases hsame : stat = dependent
    · rw [hsame, BTreeMap.get?_insert_self, Option.some.injEq] at hfound
      rw [hsame, ← hfound]
      exact hsound
    · rw [BTreeMap.get?_insert_of_ne _ hsame] at hfound
      exact hrelaxing.sound stat length hfound
  · have hne : stat ≠ dependent := fun hsame ↦ hnotDone (hsame ▸ hstat)
    rw [BTreeMap.get?_insert_of_ne _ hne]
    exact hrelaxing.passed stat hstat
  · have hne : reference ≠ dependent := fun hsame ↦ hnotDone (hsame ▸ hdone)
    rw [BTreeMap.get?_insert_of_ne _ hne] at hfound
    by_cases hsame : stat = dependent
    · rw [hsame, BTreeMap.get?_insert_self]
      refine ⟨value, rfl, ?_⟩
      by_cases hreferenceNode : reference = node
      · rw [hreferenceNode, hrelaxing.node_base, Option.some.injEq] at hfound
        rw [← hfound]
        exact hlonger
      · obtain ⟨longer, hlongest, hle⟩ := hrelaxing.complete stat hstat reference hreference hdone
          (fun hnodeSame ↦ absurd hnodeSame hreferenceNode) length hfound
        rw [hsame] at hlongest
        exact hle.trans (hgrows hlongest)
    · rw [BTreeMap.get?_insert_of_ne _ hsame]
      refine hrelaxing.complete stat hstat reference hreference hdone (fun hnodeSame ↦ ?_) length
        hfound
      rw [mem_cons, not_or]
      exact ⟨hsame, hpassed hnodeSame⟩
  · rw [BTreeMap.get?_insert_of_ne _ hnode]
    exact hrelaxing.node_base

theorem Relaxing.foldl (hrelaxing : Relaxing adjacency done node base left walk) :
    Relaxing adjacency done node base [] (left.foldl (Rules.relax base) walk) := by
  induction left generalizing walk with
  | nil => exact hrelaxing
  | cons dependent left ih => exact ih hrelaxing.relax

/-! ### The walk between two stats -/

/-- What holds when the stats of `done` are processed with all their dependents. -/
structure Progress (adjacency : Adjacency) (done : List StatId) (walk : Walk) : Prop where
  indegree : ∀ stat, walk.indegree.get? stat =
    (adjacency.get? stat).map fun _ ↦ waiting adjacency done stat
  ready : ∀ stat, stat ∈ done ++ walk.queue ↔
    stat ∈ adjacency.keys ∧ waiting adjacency done stat = 0
  distinct : (done ++ walk.queue).Nodup
  grounded : ∀ stat ∈ done, adjacency.Grounded stat
  sound : ∀ stat length, walk.longest.get? stat = some length →
    adjacency.GroundedChainFrom stat length
  passed : ∀ stat ∈ done, ∃ length, walk.longest.get? stat = some length ∧ 0 < length
  complete : ∀ stat ∈ adjacency.keys, ∀ reference ∈ adjacency.references stat, reference ∈ done →
    ∀ length, walk.longest.get? reference = some length →
      ∃ longer, walk.longest.get? stat = some longer ∧ length + 1 ≤ longer

theorem waiting_eq_zero_iff {stat : StatId} : waiting adjacency done stat = 0 ↔
    ∀ reference ∈ adjacency.references stat, reference ∈ done := by
  unfold waiting
  rw [List.countP_eq_zero]
  simp

/-- Processing a stat takes its occurrences off what the others wait for. -/
theorem waiting_concat (hnode : node ∉ done) (stat : StatId) :
    waiting adjacency (done ++ [node]) stat + (adjacency.references stat).count node =
      waiting adjacency done stat := by
  unfold waiting
  induction adjacency.references stat with
  | nil => rfl
  | cons first rest ih =>
    rw [List.countP_cons, List.countP_cons, List.count_cons, ← ih]
    by_cases hsame : first = node
    · simp [hsame, hnode]
      omega
    · by_cases hdone : first ∈ done <;> simp [hsame, hdone]
      omega

variable {queue : List StatId}

/-- The stat at the head of the queue depends on processed stats only. -/
theorem Progress.grounded_head (hprogress : Progress adjacency done walk)
    (hqueue : walk.queue = node :: queue) : adjacency.Grounded node := by
  have hready : node ∈ done ++ walk.queue := by
    rw [hqueue]
    exact List.mem_append_right _ mem_cons_self
  obtain ⟨hkeys, hwaiting⟩ := (hprogress.ready node).mp hready
  exact Adjacency.grounded_of_references hkeys fun reference hreference ↦
    hprogress.grounded reference (waiting_eq_zero_iff.mp hwaiting reference hreference)

theorem Progress.enter (hprogress : Progress adjacency done walk)
    (hqueue : walk.queue = node :: queue) :
    Relaxing adjacency (done ++ [node]) node (max ((walk.longest.get? node).getD 1) 1)
      ((((dependentsOf adjacency).get? node).getD []).insertionSort (· ≤ ·)) { walk with
        longest := walk.longest.insert node (max ((walk.longest.get? node).getD 1) 1)
        queue := queue } := by
  have hgrounded := hprogress.grounded_head hqueue
  have hdistinct := hprogress.distinct
  rw [hqueue] at hdistinct
  have hnode : node ∉ done := fun hin ↦
    (List.disjoint_of_nodup_append hdistinct) hin mem_cons_self
  have hcount (stat : StatId) : ((((dependentsOf adjacency).get? node).getD []).insertionSort
      (· ≤ ·)).count stat = (adjacency.references stat).count node := by
    rw [(List.perm_insertionSort _ _).count_eq, count_dependentsOf]
  have hwaiting (stat : StatId) : waiting adjacency (done ++ [node]) stat +
      ((((dependentsOf adjacency).get? node).getD []).insertionSort (· ≤ ·)).count stat =
        waiting adjacency done stat := by
    rw [hcount, waiting_concat hnode]
  have hmoved : (done ++ [node]) ++ queue = done ++ walk.queue := by
    rw [hqueue, append_assoc, List.singleton_append]
  have hsound : adjacency.GroundedChainFrom node (max ((walk.longest.get? node).getD 1) 1) := by
    rcases max_choice ((walk.longest.get? node).getD 1) 1 with hmax | hmax
    · rw [hmax]
      cases hfound : walk.longest.get? node with
      | none => exact Adjacency.groundedChainFrom_one hgrounded.mem_keys
      | some length => exact hprogress.sound node length hfound
    · rw [hmax]
      exact Adjacency.groundedChainFrom_one hgrounded.mem_keys
  have hgrows {length : ℕ} (hfound : walk.longest.get? node = some length) :
      length ≤ max ((walk.longest.get? node).getD 1) 1 := by
    rw [hfound, Option.getD_some]
    exact le_max_left _ _
  have hpositive : 0 < max ((walk.longest.get? node).getD 1) 1 :=
    lt_of_lt_of_le Nat.one_pos (le_max_right _ _)
  generalize max ((walk.longest.get? node).getD 1) 1 = base at *
  generalize (((dependentsOf adjacency).get? node).getD []).insertionSort (· ≤ ·) = next at *
  have hnext {stat : StatId} : stat ∈ next ↔ node ∈ adjacency.references stat := by
    rw [← List.count_pos_iff, hcount, List.count_pos_iff]
  refine ⟨fun stat ↦ ?_, fun stat ↦ ?_, ?_, ?_, fun stat length hfound ↦ ?_, fun stat hstat ↦ ?_,
    fun stat hstat reference hreference hdone hpassed length hfound ↦ ?_,
    List.mem_append_right _ mem_cons_self, BTreeMap.get?_insert_self _ _ _,
    fun stat hstat ↦ ?_⟩
  · rw [hwaiting]
    exact hprogress.indegree stat
  · rw [hwaiting, hmoved]
    exact hprogress.ready stat
  · rw [hmoved]
    exact hprogress.distinct
  · rw [List.forall_mem_append]
    exact ⟨hprogress.grounded, fun stat hstat ↦ mem_singleton.mp hstat ▸ hgrounded⟩
  · by_cases hsame : stat = node
    · rw [hsame, BTreeMap.get?_insert_self, Option.some.injEq] at hfound
      rw [hsame, ← hfound]
      exact hsound
    · rw [BTreeMap.get?_insert_of_ne _ hsame] at hfound
      exact hprogress.sound stat length hfound
  · by_cases hsame : stat = node
    · rw [hsame, BTreeMap.get?_insert_self]
      exact ⟨base, rfl, hpositive⟩
    · rw [BTreeMap.get?_insert_of_ne _ hsame]
      rw [List.mem_append, mem_singleton, or_iff_left hsame] at hstat
      exact hprogress.passed stat hstat
  · have hother : reference ≠ node := fun hsame ↦
      hpassed hsame (hnext.mpr (hsame ▸ hreference))
    rw [List.mem_append, mem_singleton, or_iff_left hother] at hdone
    rw [BTreeMap.get?_insert_of_ne _ hother] at hfound
    obtain ⟨longer, hlongest, hle⟩ :=
      hprogress.complete stat hstat reference hreference hdone length hfound
    by_cases hsame : stat = node
    · rw [hsame, BTreeMap.get?_insert_self]
      exact ⟨base, rfl, hle.trans (hgrows (hsame ▸ hlongest))⟩
    · rw [BTreeMap.get?_insert_of_ne _ hsame]
      exact ⟨longer, hlongest, hle⟩
  · have hreference := hnext.mp hstat
    refine ⟨?_, hreference⟩
    obtain ⟨refs, hrefs, -⟩ := Adjacency.Edge.exists_refs hreference
    exact adjacency.mem_keys_iff.mpr ⟨refs, hrefs⟩

/-- When the dependents are relaxed, the stat is processed. -/
theorem Relaxing.progress (hrelaxing : Relaxing adjacency done node base [] walk) :
    Progress adjacency done walk where
  indegree := hrelaxing.indegree
  ready := hrelaxing.ready
  distinct := hrelaxing.distinct
  grounded := hrelaxing.grounded
  sound := hrelaxing.sound
  passed := hrelaxing.passed
  complete := fun stat hstat reference hreference hdone ↦
    hrelaxing.complete stat hstat reference hreference hdone fun _ ↦ not_mem_nil

/-- The walk ends: each stat of the map is processed at most once. -/
theorem Progress.walkQueue {fuel : ℕ} (hprogress : Progress adjacency done walk)
    (hfuel : adjacency.size + 1 ≤ fuel + done.length) :
    ∃ final processed, Rules.walkQueue (dependentsOf adjacency) fuel walk = some final ∧
      Progress adjacency processed final ∧ final.queue = [] := by
  induction fuel generalizing done walk with
  | zero =>
    have hlength : done.length ≤ adjacency.keys.length := by
      have hkeys : ∀ stat ∈ done, stat ∈ adjacency.keys := fun stat hstat ↦
        (hprogress.grounded stat hstat).mem_keys
      exact (hprogress.distinct.of_append_left.subperm hkeys).length_le
    have hsize : adjacency.keys.length = adjacency.size := List.length_map _
    omega
  | succ fuel ih =>
    rw [Rules.walkQueue]
    cases hqueue : walk.queue with
    | nil => exact ⟨walk, done, rfl, hprogress, hqueue⟩
    | cons node queue =>
      refine ih (hprogress.enter hqueue).foldl.progress ?_
      rw [List.length_append, List.length_singleton]
      omega

/-- Nothing is processed at first, and the stats without references are ready. -/
theorem progress_start (adjacency : Adjacency) :
    Progress adjacency [] ⟨indegreeOf adjacency, BTreeMap.empty,
      ((indegreeOf adjacency).filter fun _ degree ↦ degree = 0).keys⟩ := by
  have hwaiting (stat : StatId) : waiting adjacency [] stat =
      (adjacency.references stat).length := by
    unfold waiting
    rw [List.countP_eq_length]
    exact fun _ _ ↦ rfl
  have hindegree (stat : StatId) : (indegreeOf adjacency).get? stat =
      (adjacency.get? stat).map fun _ ↦ waiting adjacency [] stat := by
    unfold indegreeOf
    rw [BTreeMap.get?_mapValues, hwaiting, Adjacency.references]
    cases adjacency.get? stat <;> rfl
  refine ⟨hindegree, fun stat ↦ ?_, ?_, nofun, nofun, nofun, fun _ _ _ _ hdone ↦ nomatch hdone⟩
  · rw [List.nil_append, BTreeMap.mem_keys_iff, BTreeMap.mem_keys_iff, BTreeMap.get?_filter,
      hindegree]
    cases hrefs : adjacency.get? stat with
    | none => simp
    | some refs =>
      by_cases hzero : waiting adjacency [] stat = 0 <;> simp [Option.filter, hzero]
  · exact BTreeMap.nodup_keys _

/-! ### The end of the walk -/

theorem Progress.mem_of_grounded (hprogress : Progress adjacency done walk)
    (hqueue : walk.queue = []) {stat : StatId} (haccessible : adjacency.Accessible stat)
    (hgrounded : adjacency.Grounded stat) : stat ∈ done := by
  induction haccessible with
  | intro stat _ ih =>
    have hready : stat ∈ done ++ walk.queue := by
      rw [hprogress.ready]
      refine ⟨hgrounded.mem_keys, waiting_eq_zero_iff.mpr fun reference hreference ↦ ?_⟩
      exact ih reference hreference (hgrounded.edge hreference)
    rw [hqueue, append_nil] at hready
    exact hready

theorem Progress.length_le (hprogress : Progress adjacency done walk) (hqueue : walk.queue = [])
    (haccessible : ∀ stat, adjacency.Accessible stat) {stat : StatId} {length : ℕ}
    (hchain : adjacency.GroundedChainFrom stat length) :
    length ≤ 1 ∨ ∃ longest, walk.longest.get? stat = some longest ∧ length ≤ longest := by
  obtain ⟨chain, hhead, rfl, hsteps, hkeys, htail⟩ := hchain
  induction chain generalizing stat with
  | nil => exact nomatch hhead
  | cons first rest ih =>
    have hfirst : first = stat := Option.some.inj hhead
    rw [hfirst] at hsteps hkeys
    cases rest with
    | nil => exact Or.inl le_rfl
    | cons reference rest =>
      obtain ⟨hedge, hrest⟩ := List.isChain_cons_cons.mp hsteps
      obtain ⟨hstat, hrestKeys⟩ := forall_mem_cons.mp hkeys
      obtain ⟨hgrounded, hrestTail⟩ := forall_mem_cons.mp htail
      have hdone := hprogress.mem_of_grounded hqueue (haccessible reference) hgrounded
      obtain ⟨length, hlength, hpositive⟩ := hprogress.passed reference hdone
      obtain ⟨longest, hlongest, hlonger⟩ :=
        hprogress.complete stat hstat reference hedge hdone length hlength
      refine Or.inr ⟨longest, hlongest, ?_⟩
      rw [List.length_cons]
      rcases ih rfl hrest hrestKeys hrestTail with hone | ⟨found, hfound, hle⟩
      · omega
      · rw [hlength, Option.some.injEq] at hfound
        omega

def IsLeastOver (chains : StatId → ℕ → Prop) : Option StatId → Prop
  | none => ∀ stat length, chains stat length → length ≤ maxDerivedDepth
  | some stat => (∃ length > maxDerivedDepth, chains stat length) ∧
      ∀ other length, chains other length → length > maxDerivedDepth → stat ≤ other

/-- In an acyclic graph `over_depth_stat` returns the least stat with a grounded chain over the
bound. -/
theorem overDepthStat_spec (hacyclic : ¬ adjacency.HasCycle) :
    ∃ result, overDepthStat adjacency = some result ∧
      IsLeastOver adjacency.GroundedChainFrom result := by
  have haccessible := accessible_of_findCycle ((findCycle_eq_none_iff adjacency).mpr hacyclic)
  have hfuel : adjacency.size + 1 ≤ (adjacency.size + 1) + ([] : List StatId).length := le_rfl
  obtain ⟨final, processed, hwalk, hprogress, hqueue⟩ :=
    (progress_start adjacency).walkQueue hfuel
  unfold overDepthStat
  dsimp only
  rw [hwalk]
  refine ⟨_, rfl, ?_⟩
  have hover (stat : StatId) :
      stat ∈ (final.longest.filter fun _ length ↦ length > maxDerivedDepth).keys ↔
        ∃ length > maxDerivedDepth, adjacency.GroundedChainFrom stat length := by
    rw [BTreeMap.mem_keys_iff]
    simp only [BTreeMap.get?_filter, Option.filter_eq_some_iff, decide_eq_true_eq]
    constructor
    · intro ⟨length, hfound, hlong⟩
      exact ⟨length, hlong, hprogress.sound stat length hfound⟩
    · intro ⟨length, hlong, hchain⟩
      have hbound : 1 ≤ maxDerivedDepth := by decide
      rcases hprogress.length_le hqueue haccessible hchain with hone | ⟨longest, hfound, hle⟩
      · omega
      · exact ⟨longest, hfound, hlong.trans_le hle⟩
  have hascending := (final.longest.filter fun _ length ↦ length > maxDerivedDepth).pairwise_keys
  generalize (final.longest.filter fun _ length ↦ length > maxDerivedDepth).keys = exceeding at *
  cases exceeding with
  | nil =>
    intro stat length hchain
    by_contra hlong
    exact not_mem_nil ((hover stat).mpr ⟨length, not_le.mp hlong, hchain⟩)
  | cons first rest =>
    refine ⟨(hover first).mp mem_cons_self, fun other length hchain hlong ↦ ?_⟩
    rcases mem_cons.mp ((hover other).mpr ⟨length, hlong, hchain⟩) with rfl | hlater
    · exact le_rfl
    · exact (List.rel_of_pairwise_cons hascending hlater).le

/-! ### Both checks -/

/-- `find_cycle` ends; it returns nothing exactly when the graph has no directed cycle, and
otherwise a closed path along references that repeats no other stat, from its least stat. On a graph
without cycles `over_depth_stat` returns the least stat that starts a chain over the bound,
continuing through stats that depend on nothing outside the map; where all references stay in the
map, these are all chains. -/
theorem graph_checks_exact (adjacency : Adjacency) :
    (∃ result, findCycle adjacency = some result ∧ (result = none ↔ ¬ adjacency.HasCycle) ∧
      ∀ cycle ∈ result, IsLeastCycle adjacency cycle) ∧
    (¬ adjacency.HasCycle → ∃ result, overDepthStat adjacency = some result ∧
      IsLeastOver adjacency.GroundedChainFrom result ∧
      (adjacency.Closed → IsLeastOver adjacency.ChainFrom result)) := by
  constructor
  · obtain ⟨result, hresult, hcycle⟩ := findCycle_spec adjacency
    refine ⟨result, hresult, ?_, hcycle⟩
    rw [← findCycle_eq_none_iff, hresult, Option.some.injEq]
  · intro hacyclic
    obtain ⟨result, hresult, hleast⟩ := overDepthStat_spec hacyclic
    refine ⟨result, hresult, hleast, fun hclosed ↦ ?_⟩
    have hchains : adjacency.GroundedChainFrom = adjacency.ChainFrom := by
      ext stat length
      exact Adjacency.groundedChainFrom_of_closed hclosed
    exact hchains ▸ hleast

def repeatedReference : Adjacency := BTreeMap.ofList [(0, [1, 1]), (1, [])]

/-- The checks pass on it: no cycle, and no chain over the bound. -/
theorem repeatedReference_checked : ∃ result, overDepthStat repeatedReference = some result ∧
    IsLeastOver repeatedReference.ChainFrom result := by
  have hacyclic : ¬ repeatedReference.HasCycle := by
    rw [← findCycle_eq_none_iff]
    decide
  have hclosed : repeatedReference.Closed := by
    intro stat reference hedge
    obtain ⟨refs, hrefs, hreference⟩ := hedge.exists_refs
    have hpair := BTreeMap.mem_of_get?_ofList hrefs
    unfold repeatedReference
    rw [BTreeMap.mem_keys_ofList_iff]
    simp only [mem_cons, Prod.mk.injEq, not_mem_nil, or_false] at hpair
    rcases hpair with ⟨-, rfl⟩ | ⟨-, rfl⟩
    · simp only [mem_cons, not_mem_nil, or_false, or_self] at hreference
      simp [hreference]
    · exact absurd hreference not_mem_nil
  obtain ⟨result, hresult, -, hleast⟩ := (graph_checks_exact repeatedReference).2 hacyclic
  exact ⟨result, hresult, hleast hclosed⟩

/-- A chain of 129 stats whose last refers outside the map. -/
def outsideChain : Adjacency := BTreeMap.ofList ((List.range 129).map fun stat ↦ (stat, [stat + 1]))

theorem outsideChain_get? {stat : StatId} {refs : List StatId}
    (hrefs : outsideChain.get? stat = some refs) : refs = [stat + 1] := by
  have hpair := BTreeMap.mem_of_get?_ofList hrefs
  obtain ⟨index, -, hindex⟩ := mem_map.mp hpair
  rw [Prod.mk.injEq] at hindex
  rw [← hindex.2, hindex.1]

theorem mem_outsideChain {stat : StatId} (hstat : stat < 129) :
    stat ∈ outsideChain.keys ∧ outsideChain.Edge stat (stat + 1) := by
  have hkeys : stat ∈ outsideChain.keys := by
    rw [outsideChain, BTreeMap.mem_keys_ofList_iff, List.map_map]
    exact mem_map.mpr ⟨stat, List.mem_range.mpr hstat, rfl⟩
  obtain ⟨refs, hrefs⟩ := outsideChain.mem_keys_iff.mp hkeys
  refine ⟨hkeys, ?_⟩
  unfold Adjacency.Edge Adjacency.Refers
  rw [hrefs, outsideChain_get? hrefs]
  exact mem_singleton.mpr rfl

/-- The chain goes over the bound without a cycle, and `over_depth_stat` returns nothing. -/
theorem outsideChain_missed : ¬ outsideChain.HasCycle ∧
    (∃ stat length, outsideChain.ChainFrom stat length ∧ length > maxDerivedDepth) ∧
    overDepthStat outsideChain = some none := by
  refine ⟨?_, ?_, ?_⟩
  · intro ⟨stat, hcycle⟩
    have hascends {first last : StatId} (hpath : TransGen outsideChain.Edge first last) :
        first < last := by
      induction hpath with
      | single hedge =>
        obtain ⟨refs, hrefs, hmem⟩ := Adjacency.Edge.exists_refs hedge
        rw [outsideChain_get? hrefs, mem_singleton] at hmem
        rw [hmem]
        exact Nat.lt_succ_self _
      | tail _ hedge ih =>
        obtain ⟨refs, hrefs, hmem⟩ := Adjacency.Edge.exists_refs hedge
        rw [outsideChain_get? hrefs, mem_singleton] at hmem
        rw [hmem]
        exact ih.trans (Nat.lt_succ_self _)
    exact lt_irrefl stat (hascends hcycle)
  · refine ⟨0, 129, ⟨List.range 129, rfl, List.length_range, ?_, ?_⟩, by decide⟩
    · exact (List.isChain_range_succ _ 128).mpr fun stat hstat ↦
        (mem_outsideChain (hstat.trans (by decide))).2
    · exact fun stat hstat ↦ (mem_outsideChain (List.mem_range.mp hstat)).1
  · have hready : ((indegreeOf outsideChain).filter fun _ degree ↦ degree = 0).keys = [] := by
      rw [List.eq_nil_iff_forall_not_mem]
      intro stat hstat
      obtain ⟨degree, hdegree⟩ := BTreeMap.mem_keys_iff _ |>.mp hstat
      rw [BTreeMap.get?_filter, Option.filter_eq_some_iff, indegreeOf, BTreeMap.get?_mapValues,
        Option.map_eq_some_iff] at hdegree
      obtain ⟨⟨refs, hrefs, hlength⟩, hzero⟩ := hdegree
      rw [← hlength, outsideChain_get? hrefs] at hzero
      exact absurd hzero (by simp)
    unfold overDepthStat
    dsimp only
    rw [hready]
    rfl

end Crpg.Rules
