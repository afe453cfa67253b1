import WolfCore.Lib.Go
import WolfCore.Lib.Named

/-!
# Seeders, their selection and their order

This is `seeder.go`, `registry.go`, `filter.go` and `sort.go` of `infra/seed`.  A seeder works on a
session: the committed database, the working copy of the open transaction, and the memory the
seeders share (the `ReferenceStore` and what they keep themselves).  `filterSeeders` selects the
seeders of a run, and `topologicalSort` puts them into an order by Kahn's algorithm.

* `filterSeeders_eq_filter`: the seeders that are selected are those that pass all four filters;
* `kahnSort_drained`: the loop of the sort is modelled to its end;
* `topologicalSort_ok_iff`, `topologicalSort_ok`: when the sort succeeds, and what it returns.
-/

namespace WolfCore.Seed

open Go

/-- The committed database, the working copy of the open transaction, and the memory of the
seeders. -/
structure Session (δ μ : Type) where
  committed : δ
  tx : Option δ
  mem : μ

/-- What a seeder reads from its `SeedContext` beside the database. -/
structure SeedContext where
  env : String
  dryRun : Bool

/-- `Seeder`, with the optional interfaces `TruncatingSeeder` and `ConditionalSeeder`. -/
structure Seeder (δ μ : Type) where
  name : String
  groups : List String
  environments : List String
  dependsOn : List String
  truncateTables : Option (List String)
  shouldRun : Option (SeedContext → Session δ μ → Outcome Bool × Session δ μ)
  seed : SeedContext → Proc (Session δ μ)

/-- `Registry`: no two seeders have the same name. -/
structure Registry (δ μ : Type) where
  seeders : List (Seeder δ μ)
  nodup : (seeders.map Seeder.name).Nodup

namespace Registry

variable {δ μ : Type}

/-- `NewRegistry`. -/
def new : Registry δ μ := ⟨[], List.nodup_nil⟩

/-- `Register`; the names that were seen are those of the seeders. -/
def register (r : Registry δ μ) (s : Seeder δ μ) : Except Err (Registry δ μ) :=
  if h : s.name ∈ r.seeders.map Seeder.name then
    .error (.msg ("seed: duplicate seeder " ++ s.name.quote))
  else .ok {
    seeders := r.seeders ++ [s]
    nodup := by
      rw [List.map_append, List.nodup_append]
      refine ⟨r.nodup, List.nodup_singleton _, fun a ha b hb hab => h ?_⟩
      rwa [← List.mem_singleton.1 hb, ← hab] }

/-- `Register`, for each seeder of a list. -/
def registerAll : List (Seeder δ μ) → Registry δ μ → Except Err (Registry δ μ)
  | [], r => .ok r
  | s :: seeders, r => (r.register s).bind (registerAll seeders)

/-- Seeders that are accepted are registered in their order. -/
theorem seeders_of_registerAll {seeders : List (Seeder δ μ)} {r r' : Registry δ μ}
    (h : registerAll seeders r = .ok r') : r'.seeders = r.seeders ++ seeders := by
  induction seeders generalizing r with
  | nil =>
    cases h
    simp
  | cons s seeders ih =>
    unfold registerAll register at h
    split_ifs at h
    · cases h
    · rw [ih h, List.append_assoc]
      rfl

end Registry

section

variable {δ μ : Type}

/-! ### The filters -/

/-- `filterByEnv`. -/
def filterByEnv (seeders : List (Seeder δ μ)) (env : String) : List (Seeder δ μ) :=
  if env = "" then seeders
  else seeders.filter fun s => s.environments = [] ∨ env ∈ s.environments

/-- `filterByGroups`. -/
def filterByGroups (seeders : List (Seeder δ μ)) (groups : List String) : List (Seeder δ μ) :=
  if groups = [] then seeders else seeders.filter fun s => ∃ g ∈ s.groups, g ∈ groups

/-- `filterByClass`. -/
def filterByClass (seeders : List (Seeder δ μ)) (classes : List String) : List (Seeder δ μ) :=
  if classes = [] then seeders else seeders.filter fun s => s.name ∈ classes

/-- `filterBySkip`. -/
def filterBySkip (seeders : List (Seeder δ μ)) (skip : List String) : List (Seeder δ μ) :=
  if skip = [] then seeders else seeders.filter fun s => s.name ∉ skip

/-- `filterSeeders`. -/
def filterSeeders (seeders : List (Seeder δ μ)) (env : String) (groups classes skip : List String) :
    List (Seeder δ μ) :=
  filterBySkip (filterByClass (filterByGroups (filterByEnv seeders env) groups) classes) skip

/-- The seeder passes the four filters. -/
def Seeder.Passes (env : String) (groups classes skip : List String) (s : Seeder δ μ) : Prop :=
  (env = "" ∨ s.environments = [] ∨ env ∈ s.environments) ∧
    (groups = [] ∨ ∃ g ∈ s.groups, g ∈ groups) ∧ (classes = [] ∨ s.name ∈ classes) ∧ s.name ∉ skip

instance (env : String) (groups classes skip : List String) (s : Seeder δ μ) :
    Decidable (s.Passes env groups classes skip) := inferInstanceAs (Decidable (_ ∧ _ ∧ _ ∧ _))

theorem ite_filter {α : Type} (c : Prop) [Decidable c] (p : α → Prop) [DecidablePred p]
    (l : List α) : (if c then l else l.filter p) = l.filter fun x => c ∨ p x := by
  by_cases hc : c
  · simp [hc]
  · simp [hc]

/-- **The selected seeders** are those that pass all four filters, in the order of registration. -/
theorem filterSeeders_eq_filter (seeders : List (Seeder δ μ)) (env : String)
    (groups classes skip : List String) :
    filterSeeders seeders env groups classes skip =
      seeders.filter (Seeder.Passes env groups classes skip ·) := by
  have hskip : ∀ s : Seeder δ μ, (skip = [] ∨ s.name ∉ skip) ↔ s.name ∉ skip := by
    intro s
    refine ⟨fun h => h.elim (fun hnil => by simp [hnil]) id, Or.inr⟩
  unfold filterSeeders filterBySkip filterByClass filterByGroups filterByEnv
  rw [ite_filter, ite_filter, ite_filter, ite_filter, List.filter_filter, List.filter_filter,
    List.filter_filter]
  refine List.filter_congr fun s _ => ?_
  rw [Bool.eq_iff_iff]
  simp only [Bool.and_eq_true, decide_eq_true_eq, hskip]
  unfold Seeder.Passes
  tauto

/-! ### The order -/

/-- The map `byName`; a later seeder replaces an earlier one with its name. -/
def byName (seeders : List (Seeder δ μ)) (name : String) : Option (Seeder δ μ) :=
  seeders.findRev? fun s => s.name = name

/-- The dependency of a seeder that is not registered, if any. -/
def missingDep (seeders : List (Seeder δ μ)) (s : Seeder δ μ) : Option String :=
  s.dependsOn.find? fun dep => (byName seeders dep).isNone

/-- `buildDeps`: the dependencies of each name. -/
def buildDeps (seeders : List (Seeder δ μ)) : Except Err (String → List String) :=
  match seeders.findSome? fun s => (missingDep seeders s).map fun dep => (s, dep) with
  | some (s, dep) => .error (.msg ("seed: seeder " ++ s.name.quote ++
      " depends on unregistered seeder " ++ dep.quote))
  | none => .ok fun name => (seeders.filter fun s => s.name = name).flatMap Seeder.dependsOn

/-- The map `revDeps`: for each name the names that depend on it, in the order in which the loop
goes through `deps`. -/
def revDeps (order : MapOrder) (seeders : List (Seeder δ μ)) (deps : String → List String)
    (dep : String) : List String :=
  (order.range ((seeders.map Seeder.name).filter fun name => deps name ≠ [])).flatMap fun name =>
    ((deps name).filter (· = dep)).map fun _ => name

/-- The loop of `kahnSort` before its first round. -/
def kahnStart (seeders : List (Seeder δ μ)) (deps : String → List String) : Kahn.State String where
  inDegree := fun name => (deps name).length
  queue := (seeders.map Seeder.name).filter fun name => deps name = []
  sorted := []

/-- The loop of `kahnSort`. -/
def kahnLoop (order : MapOrder) (seeders : List (Seeder δ μ)) (deps : String → List String) :
    Kahn.State String :=
  Kahn.drain (revDeps order seeders deps)
    (Kahn.potential (seeders.map Seeder.name) (kahnStart seeders deps)) (kahnStart seeders deps)

/-- `kahnSort`. -/
def kahnSort (order : MapOrder) (seeders : List (Seeder δ μ)) (deps : String → List String) :
    Except Err (List (Seeder δ μ)) :=
  let sorted := (kahnLoop order seeders deps).sorted.filterMap (byName seeders)
  if sorted.length ≠ seeders.length then
    .error (.msg "seed: dependency cycle detected among seeders")
  else .ok sorted

/-- `topologicalSort`. -/
def topologicalSort (order : MapOrder) (seeders : List (Seeder δ μ)) :
    Except Err (List (Seeder δ μ)) :=
  if seeders = [] then .ok []
  else
    match buildDeps seeders with
    | .error err => .error err
    | .ok deps => kahnSort order seeders deps

/-- **The loop of the sort ends with an empty queue.** -/
theorem kahnSort_drained (order : MapOrder) (seeders : List (Seeder δ μ))
    (deps : String → List String) : (kahnLoop order seeders deps).queue = [] := by
  refine Kahn.queue_drain (fun dep name hname => ?_) le_rfl
  unfold revDeps at hname
  obtain ⟨name', hrange, hname⟩ := List.mem_flatMap.1 hname
  obtain ⟨_, -, rfl⟩ := List.mem_map.1 hname
  exact List.mem_of_mem_filter ((order.perm _).mem_iff.1 hrange)

/-- Seeders, which name what they depend on. -/
def Seeder.naming : Kahn.Naming (Seeder δ μ) String := ⟨Seeder.name, Seeder.dependsOn⟩

section

variable {seeders : List (Seeder δ μ)} (hnodup : (seeders.map Seeder.name).Nodup)
include hnodup

theorem buildDeps_cases :
    (Seeder.naming.Closed seeders ∧ buildDeps seeders = .ok (Seeder.naming.edges seeders)) ∨
      (¬ Seeder.naming.Closed seeders ∧ ∃ err, buildDeps seeders = .error err) := by
  have hmissing := Kahn.Naming.missing_eq_none_iff (N := Seeder.naming) hnodup
  have hbuild : buildDeps seeders = match Seeder.naming.missing seeders with
      | some (s, dep) => .error (.msg ("seed: seeder " ++ s.name.quote ++
          " depends on unregistered seeder " ++ dep.quote))
      | none => .ok (Seeder.naming.edges seeders) := rfl
  rw [hbuild]
  cases hfind : Seeder.naming.missing seeders with
  | none => exact Or.inl ⟨hmissing.1 hfind, rfl⟩
  | some found =>
    refine Or.inr ⟨fun hclosed => ?_, _, rfl⟩
    rw [hmissing.2 hclosed] at hfind
    cases hfind

theorem topologicalSort_of_closed (order : MapOrder) (hclosed : Seeder.naming.Closed seeders)
    (hne : seeders ≠ []) :
    topologicalSort order seeders =
      if (Seeder.naming.items seeders (order.range (Seeder.naming.keys seeders))).length ≠
          seeders.length then .error (.msg "seed: dependency cycle detected among seeders")
      else .ok (Seeder.naming.items seeders (order.range (Seeder.naming.keys seeders))) := by
  rcases buildDeps_cases hnodup with ⟨-, hdeps⟩ | ⟨hopen, -⟩
  · unfold topologicalSort
    rw [if_neg hne, hdeps]
    rfl
  · exact absurd hclosed hopen

/-- **The sort succeeds** if and only if all dependencies are there and there is no cycle. -/
theorem topologicalSort_ok_iff (order : MapOrder) :
    (∃ sorted, topologicalSort order seeders = .ok sorted) ↔
      Seeder.naming.Closed seeders ∧ Seeder.naming.Acyclic seeders := by
  by_cases hnil : seeders = []
  · subst hnil
    have hnone : ∀ s ∈ ([] : List (Seeder δ μ)), Seeder.naming.deps s = [] := nofun
    obtain ⟨hclosed, hacyclic, -⟩ := Seeder.naming.of_no_deps hnone
    exact iff_of_true ⟨[], rfl⟩ ⟨hclosed, hacyclic⟩
  rcases buildDeps_cases hnodup with ⟨hclosed, -⟩ | ⟨hopen, err, hdeps⟩
  · rw [topologicalSort_of_closed hnodup order hclosed hnil,
      ← Kahn.Naming.length_items_iff (N := Seeder.naming) hnodup hclosed (order.perm _)]
    split_ifs with hlen
    · exact iff_of_false nofun fun h => hlen h.2
    · exact iff_of_true ⟨_, rfl⟩ ⟨hclosed, not_not.1 hlen⟩
  · refine iff_of_false ?_ fun h => hopen h.1
    rintro ⟨sorted, hsorted⟩
    unfold topologicalSort at hsorted
    rw [if_neg hnil, hdeps] at hsorted
    cases hsorted

/-- **What the sort returns**: the seeders in another order, each after its dependencies. -/
theorem topologicalSort_ok {order : MapOrder} {sorted : List (Seeder δ μ)}
    (h : topologicalSort order seeders = .ok sorted) :
    sorted.Perm seeders ∧ Seeder.naming.AfterDeps sorted := by
  by_cases hnil : seeders = []
  · subst hnil
    cases h
    exact ⟨.refl _, fun before s rest hsplit => by simp at hsplit⟩
  obtain ⟨hclosed, hacyclic⟩ := (topologicalSort_ok_iff hnodup order).1 ⟨sorted, h⟩
  rw [topologicalSort_of_closed hnodup order hclosed hnil] at h
  split_ifs at h
  cases h
  exact Kahn.Naming.items_of_acyclic hnodup hclosed (order.perm _) hacyclic

end

end

end WolfCore.Seed
