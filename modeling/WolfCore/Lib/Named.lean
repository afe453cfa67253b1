import WolfCore.Lib.Kahn

/-!
# Sorting items by their names

Items have names and name the items they depend on.  A list of items with different names is sorted
by Kahn's algorithm on the names, and the names that come out are turned into items again.

* `Naming.find`, `Naming.edges`: the items and their dependencies by name;
* `Naming.Closed`, `Naming.Acyclic`, `Naming.AfterDeps`: what is said about lists of items;
* `Naming.loop`: the loop on the names, for an iteration order of those with dependencies;
* `Naming.length_items_iff`, `Naming.items_of_acyclic`: all items come out if and only if there is
  no cycle, and then each comes after its dependencies.
-/

namespace Kahn

/-- Items `α` with names `κ`: the name of an item, and the names it depends on. -/
structure Naming (α κ : Type) where
  name : α → κ
  deps : α → List κ

namespace Naming

section Definitions

variable {α κ : Type} [DecidableEq κ] (N : Naming α κ) (xs : List α)

/-- The last item with a name. -/
def find (k : κ) : Option α := xs.findRev? fun x => N.name x = k

/-- The dependencies of the items with a name. -/
def edges (k : κ) : List κ := (xs.filter fun x => N.name x = k).flatMap N.deps

/-- The names of items with dependencies. -/
def keys : List κ := (xs.map N.name).filter fun k => N.edges xs k ≠ []

/-- The names that depend on a name, for the keys in the order of an iteration. -/
def dependents (range : List κ) (d : κ) : List κ :=
  range.flatMap fun k => ((N.edges xs k).filter (· = d)).map fun _ => k

def start : State κ where
  inDegree := fun k => (N.edges xs k).length
  queue := (xs.map N.name).filter fun k => N.edges xs k = []
  sorted := []

/-- The loop on the names, with as many rounds as it takes. -/
def loop (range : List κ) : State κ :=
  drain (N.dependents xs range) (potential (xs.map N.name) (N.start xs)) (N.start xs)

def items (range : List κ) : List α := (N.loop xs range).sorted.filterMap (N.find xs)

/-- The first item with a dependency that is not there, and this dependency. -/
def missing : Option (α × κ) :=
  xs.findSome? fun x => ((N.deps x).find? fun d => (N.find xs d).isNone).map fun d => (x, d)

/-- All dependencies of the items are among them. -/
def Closed : Prop := ∀ x ∈ xs, ∀ d ∈ N.deps x, d ∈ xs.map N.name

/-- No item depends on itself, directly or through others. -/
def Acyclic : Prop :=
  ∀ k, ¬ Relation.TransGen (fun d k => ∃ x ∈ xs, N.name x = k ∧ d ∈ N.deps x) k k

/-- Each item comes after all its dependencies. -/
def AfterDeps : Prop :=
  ∀ before x rest, xs = before ++ x :: rest → ∀ d ∈ N.deps x, ∃ y ∈ before, N.name y = d

end Definitions

variable {α κ : Type} [DecidableEq κ] {N : Naming α κ} {xs : List α}

/-! ### Items by name -/

theorem filter_name (hnodup : (xs.map N.name).Nodup) {x : α} (hx : x ∈ xs) :
    xs.filter (fun y => N.name y = N.name x) = [x] := by
  induction xs with
  | nil => cases hx
  | cons y xs ih =>
    obtain ⟨hy, hxs⟩ := List.nodup_cons.1 hnodup
    rcases List.mem_cons.1 hx with rfl | hx
    · have hnone : xs.filter (fun y => N.name y = N.name x) = [] := by
        refine List.filter_eq_nil_iff.2 fun z hz hname => hy ?_
        rw [← of_decide_eq_true hname]
        exact List.mem_map_of_mem hz
      rw [List.filter_cons_of_pos (by simp), hnone]
    · have hne : ¬ N.name y = N.name x := fun heq => hy (heq ▸ List.mem_map_of_mem hx)
      rw [List.filter_cons_of_neg (by simpa using hne), ih hxs hx]

theorem find_eq_some (hnodup : (xs.map N.name).Nodup) {k : κ} {x : α} :
    N.find xs k = some x ↔ x ∈ xs ∧ N.name x = k := by
  unfold find
  rw [List.findRev?_eq_find?_reverse]
  constructor
  · intro h
    exact ⟨List.mem_reverse.1 (List.mem_of_find?_eq_some h), by simpa using List.find?_some h⟩
  · rintro ⟨hx, rfl⟩
    cases hfind : xs.reverse.find? fun y => N.name y = N.name x with
    | none => exact absurd (List.find?_eq_none.1 hfind x (List.mem_reverse.2 hx)) (by simp)
    | some y =>
      have hmem := List.mem_reverse.1 (List.mem_of_find?_eq_some hfind)
      have hname : N.name y = N.name x := by simpa using List.find?_some hfind
      rw [List.inj_on_of_nodup_map hnodup hmem hx hname]

theorem find_isSome (hnodup : (xs.map N.name).Nodup) {k : κ} :
    (N.find xs k).isSome = true ↔ k ∈ xs.map N.name := by
  rw [Option.isSome_iff_exists, List.mem_map]
  simp only [find_eq_some hnodup]

theorem mem_edges {d k : κ} : d ∈ N.edges xs k ↔ ∃ x ∈ xs, N.name x = k ∧ d ∈ N.deps x := by
  simp [edges, and_assoc]

theorem mem_keys {k : κ} (h : N.edges xs k ≠ []) : k ∈ N.keys xs := by
  obtain ⟨d, hd⟩ := List.exists_mem_of_ne_nil _ h
  obtain ⟨x, hx, rfl, -⟩ := mem_edges.1 hd
  exact List.mem_filter.2 ⟨List.mem_map_of_mem hx, by simpa using h⟩

theorem edges_name (hnodup : (xs.map N.name).Nodup) {x : α} (hx : x ∈ xs) :
    N.edges xs (N.name x) = N.deps x := by
  rw [edges, filter_name hnodup hx, List.flatMap_singleton]

/-- Names of items, turned into items, are the names of these. -/
theorem map_name_filterMap_find (hnodup : (xs.map N.name).Nodup) {ks : List κ}
    (hks : ∀ k ∈ ks, k ∈ xs.map N.name) : (ks.filterMap (N.find xs)).map N.name = ks := by
  induction ks with
  | nil => rfl
  | cons k ks ih =>
    obtain ⟨x, hx⟩ := Option.isSome_iff_exists.1 ((find_isSome hnodup).2 (hks k List.mem_cons_self))
    rw [List.filterMap_cons_some hx, List.map_cons, ((find_eq_some hnodup).1 hx).2,
      ih fun k' hk' => hks k' (List.mem_cons_of_mem _ hk')]

theorem filterMap_find_names (hnodup : (xs.map N.name).Nodup) {ys : List α}
    (hys : ∀ y ∈ ys, y ∈ xs) : (ys.map N.name).filterMap (N.find xs) = ys := by
  have hself : ∀ y ∈ ys, N.find xs (N.name y) = some y :=
    fun y hy => (find_eq_some hnodup).2 ⟨hys y hy, rfl⟩
  rw [List.filterMap_map]
  show ys.filterMap (fun y => N.find xs (N.name y)) = ys
  rw [List.filterMap_congr hself, List.filterMap_some]

theorem missing_eq_none_iff (hnodup : (xs.map N.name).Nodup) :
    N.missing xs = none ↔ N.Closed xs := by
  simp only [missing, List.findSome?_eq_none_iff, Option.map_eq_none_iff, List.find?_eq_none,
    Option.isNone_iff_eq_none, Closed, ← find_isSome hnodup, ← Option.ne_none_iff_isSome, ne_eq]

omit [DecidableEq κ] in
/-- Items without dependencies are in order as they are. -/
theorem of_no_deps (h : ∀ x ∈ xs, N.deps x = []) :
    N.Closed xs ∧ N.Acyclic xs ∧ N.AfterDeps xs := by
  have hnone : ∀ x ∈ xs, ∀ d, d ∉ N.deps x := fun x hx d => by simp [h x hx]
  refine ⟨fun x hx d hd => absurd hd (hnone x hx d), fun k hcycle => ?_, ?_⟩
  · obtain ⟨_, _, x, hx, -, hd⟩ := Relation.TransGen.tail'_iff.1 hcycle
    exact hnone x hx _ hd
  · intro before x rest hsplit d hd
    exact absurd hd (hnone x (by rw [hsplit]; simp) d)

/-- In a list in which each item comes after its dependencies, these stand further to the front. -/
theorem idxOf_lt (hnodup : (xs.map N.name).Nodup) (hafter : N.AfterDeps xs) {x : α} (hx : x ∈ xs)
    {d : κ} (hd : d ∈ N.deps x) :
    (xs.map N.name).idxOf d < (xs.map N.name).idxOf (N.name x) := by
  obtain ⟨before, rest, rfl⟩ := List.append_of_mem hx
  obtain ⟨y, hy, rfl⟩ := hafter before x rest rfl d hd
  have hmem : N.name y ∈ before.map N.name := List.mem_map_of_mem hy
  rw [List.map_append, List.map_cons] at hnodup ⊢
  have hnot : N.name x ∉ before.map N.name := fun hin =>
    List.disjoint_of_nodup_append hnodup hin List.mem_cons_self
  rw [List.idxOf_append_of_mem hmem, List.idxOf_append_of_notMem hnot]
  have := List.idxOf_lt_length_of_mem hmem
  omega

/-- If the items can be put into an order in which each comes after its dependencies, then the
dependencies are among the items and there is no cycle. -/
theorem of_afterDeps {ys : List α} (hnodup : (ys.map N.name).Nodup) (hafter : N.AfterDeps ys)
    (hperm : ys.Perm xs) : N.Closed xs ∧ N.Acyclic xs := by
  refine ⟨fun x hx d hd => ?_, fun k hcycle => ?_⟩
  · obtain ⟨before, rest, hsplit⟩ := List.append_of_mem (hperm.mem_iff.2 hx)
    obtain ⟨y, hy, rfl⟩ := hafter before x rest hsplit d hd
    refine List.mem_map_of_mem (hperm.mem_iff.1 ?_)
    rw [hsplit]
    exact List.mem_append_left _ hy
  · have hlt : ∀ d k, Relation.TransGen (fun d k => ∃ x ∈ xs, N.name x = k ∧ d ∈ N.deps x) d k →
        (ys.map N.name).idxOf d < (ys.map N.name).idxOf k := by
      intro d k hdk
      induction hdk with
      | single h =>
        obtain ⟨x, hx, rfl, hd⟩ := h
        exact idxOf_lt hnodup hafter (hperm.mem_iff.2 hx) hd
      | tail _ h ih =>
        obtain ⟨x, hx, rfl, hd⟩ := h
        exact ih.trans (idxOf_lt hnodup hafter (hperm.mem_iff.2 hx) hd)
    exact lt_irrefl _ (hlt k k hcycle)

/-! ### The graph of the names -/

def graph (N : Naming α κ) (xs : List α) (hnodup : (xs.map N.name).Nodup) (hclosed : N.Closed xs) :
    Graph κ where
  nodes := xs.map N.name
  deps := N.edges xs
  nodup := hnodup
  closed := fun k d hd => by
    obtain ⟨x, hx, rfl, hd'⟩ := mem_edges.1 hd
    exact ⟨hclosed x hx d hd', List.mem_map_of_mem hx⟩

/-- **The loop ends with an empty queue.** -/
theorem loop_drained {range : List κ} (hrange : range.Perm (N.keys xs)) :
    (N.loop xs range).queue = [] := by
  refine queue_drain (fun d k hk => ?_) le_rfl
  obtain ⟨k', hmem, hk⟩ := List.mem_flatMap.1 hk
  obtain ⟨_, -, rfl⟩ := List.mem_map.1 hk
  exact List.mem_of_mem_filter (hrange.mem_iff.1 hmem)

section

variable (hnodup : (xs.map N.name).Nodup) (hclosed : N.Closed xs)

theorem graph_acyclic : (N.graph xs hnodup hclosed).Acyclic ↔ N.Acyclic xs := by
  unfold Graph.Acyclic Acyclic graph
  simp only [mem_edges]

variable {range : List κ} (hrange : range.Perm (N.keys xs))

include hnodup hclosed hrange

/-- The loop is that of Kahn's algorithm on the graph of the names, whatever the iteration order. -/
theorem loop_invariant : (N.graph xs hnodup hclosed).Invariant (N.loop xs range) :=
  Graph.invariant_start.drain (hrange.nodup_iff.2 (hnodup.filter _))
    (fun _ hne => hrange.mem_iff.2 (mem_keys hne)) _

theorem map_name_items : (N.items xs range).map N.name = (N.loop xs range).sorted :=
  map_name_filterMap_find hnodup fun k hk =>
    (loop_invariant hnodup hclosed hrange).subset k (List.mem_append_left _ hk)

/-- **All items come out if and only if there is no cycle.** -/
theorem length_items_iff : (N.items xs range).length = xs.length ↔ N.Acyclic xs := by
  have hinv := loop_invariant hnodup hclosed hrange
  rw [← graph_acyclic hnodup hclosed, ← hinv.length_sorted_iff (loop_drained hrange)]
  show _ ↔ _ = (xs.map N.name).length
  rw [List.length_map, ← List.length_map N.name, map_name_items hnodup hclosed hrange]

/-- **Without a cycle, the items come out in another order, each after its dependencies.** -/
theorem items_of_acyclic (hacyclic : N.Acyclic xs) :
    (N.items xs range).Perm xs ∧ N.AfterDeps (N.items xs range) := by
  have hinv := loop_invariant hnodup hclosed hrange
  have hlen := (hinv.length_sorted_iff (loop_drained hrange)).2
    ((graph_acyclic hnodup hclosed).2 hacyclic)
  have hperm : (N.items xs range).Perm xs := by
    have hfind := (hinv.perm_of_length hlen).filterMap (N.find xs)
    have hself : (N.graph xs hnodup hclosed).nodes.filterMap (N.find xs) = xs :=
      filterMap_find_names hnodup fun _ hx => hx
    rwa [hself] at hfind
  refine ⟨hperm, fun before x rest hsplit d hd => ?_⟩
  have hx : x ∈ xs := hperm.mem_iff.1 (by rw [hsplit]; simp)
  have hsorted : (N.loop xs range).sorted =
      before.map N.name ++ N.name x :: rest.map N.name := by
    rw [← map_name_items hnodup hclosed hrange, hsplit, List.map_append, List.map_cons]
  have hd' : d ∈ N.edges xs (N.name x) := by rwa [edges_name hnodup hx]
  exact List.mem_map.1 (hinv.after _ _ _ hsorted d hd')

end

end Naming

end Kahn
