import WolfCore.Lib.Go
import WolfCore.Lib.Ties

/-!
# The boot order of modules (`infra/modular/registry.go`)

`Registry.Register` collects modules with different names, and `Registry.Modules` returns them in
the order in which they are to be booted: as they were registered if no module declares a
dependency, and sorted by Kahn's algorithm otherwise.

* `Registry`: the modules and the names seen so far, which belong together;
* `Registry.naming`: the modules as items that are sorted by their names;
* `modulesInOrder_correct`: for every list of modules and every iteration order of the maps,
  `Modules` returns the modules, each after its dependencies, if and only if all dependencies are
  registered and there is no cycle;
* `modulesInOrder_eq_iff`: when the order is the same for all iteration orders of the maps.

The names and the dependencies of a module do not change.
-/

namespace WolfCore.Modular

open Go

/-- `runtime.Module`: its name, and `DependsOn` if it is a `runtime.DependencyDeclarer`. -/
structure Module where
  name : String
  dependsOn : Option (List String)
  deriving DecidableEq

def Module.deps (m : Module) : List String := m.dependsOn.getD []

/-- `Registry`. -/
structure Registry where
  modules : List Module
  seen : String → Bool
  seen_iff : ∀ name, seen name = true ↔ name ∈ modules.map Module.name
  nodup : (modules.map Module.name).Nodup

namespace Registry

/-- `NewRegistry`. -/
def new : Registry := ⟨[], fun _ => false, by simp, List.nodup_nil⟩

/-- `Register`. -/
def register (r : Registry) (m : Module) : Except Err Registry :=
  if h : r.seen m.name then .error (.msg ("modular: duplicate module " ++ m.name.quote))
  else .ok {
    modules := r.modules ++ [m]
    seen := fun name => name = m.name || r.seen name
    seen_iff := fun name => by simp [r.seen_iff, or_comm]
    nodup := by
      rw [List.map_append, List.nodup_append]
      refine ⟨r.nodup, List.nodup_singleton _, fun a ha b hb hab => h ((r.seen_iff _).2 ?_)⟩
      rwa [← List.mem_singleton.1 hb, ← hab] }

/-- `Register`, for each module of a list. -/
def registerAll : List Module → Registry → Except Err Registry
  | [], r => .ok r
  | m :: ms, r => (r.register m).bind (registerAll ms)

/-- `hasDependencies`. -/
def hasDependencies (r : Registry) : Bool := r.modules.any fun m => m.deps ≠ []

/-! ### The sort -/

/-- The map `byName`. -/
def byName (r : Registry) (name : String) : Option Module :=
  r.modules.findRev? fun m => m.name = name

/-- The dependency of a module that is not registered, if any. -/
def missingDep (r : Registry) (m : Module) : Option String :=
  m.deps.find? fun dep => (r.byName dep).isNone

/-- The map `deps`, which is built before anything is known to be missing. -/
def deps (r : Registry) (name : String) : List String :=
  (r.modules.filter fun m => m.name = name).flatMap Module.deps

/-- The map `revDeps`: for each name the names that depend on it, in the order in which the loop
goes through `deps`. -/
def revDeps (r : Registry) (order : MapOrder) (dep : String) : List String :=
  (order.range ((r.modules.map Module.name).filter fun name => r.deps name ≠ [])).flatMap
    fun name =>
    ((r.deps name).filter (· = dep)).map fun _ => name

def kahnStart (r : Registry) : Kahn.State String where
  inDegree := fun name => (r.deps name).length
  queue := (r.modules.map Module.name).filter fun name => r.deps name = []
  sorted := []

/-- The loop of `topologicalSort`. -/
def kahnLoop (r : Registry) (order : MapOrder) : Kahn.State String :=
  Kahn.drain (r.revDeps order) (Kahn.potential (r.modules.map Module.name) r.kahnStart) r.kahnStart

/-- `topologicalSort`. -/
def topologicalSort (r : Registry) (order : MapOrder) : Except Err (List Module) :=
  match r.modules.findSome? fun m => (r.missingDep m).map fun dep => (m, dep) with
  | some (m, dep) => .error (.msg ("modular: module " ++ m.name.quote ++
      " depends on unregistered module " ++ dep.quote))
  | none =>
      let sorted := (r.kahnLoop order).sorted.filterMap r.byName
      if sorted.length ≠ r.modules.length then
        .error (.msg "modular: dependency cycle detected among modules")
      else .ok sorted

/-- `Modules`. -/
def modulesInOrder (r : Registry) (order : MapOrder) : Except Err (List Module) :=
  if r.hasDependencies then r.topologicalSort order else .ok r.modules

/-! ### Registration -/

theorem modules_of_register {r r' : Registry} {m : Module} (h : r.register m = .ok r') :
    r'.modules = r.modules ++ [m] := by
  unfold register at h
  split_ifs at h
  cases h
  rfl

/-- A list of modules that is accepted is registered as it is. -/
theorem modules_of_registerAll {ms : List Module} {r r' : Registry}
    (h : registerAll ms r = .ok r') :
    r'.modules = r.modules ++ ms := by
  induction ms generalizing r with
  | nil =>
    cases h
    simp
  | cons m ms ih =>
    unfold registerAll at h
    cases hm : r.register m with
    | error err => rw [hm] at h; cases h
    | ok r₁ =>
      rw [hm] at h
      rw [ih h, modules_of_register hm, List.append_assoc]
      rfl

/-! ### The boot order -/

/-- All dependencies of the modules are among them. -/
def Closed (ms : List Module) : Prop := ∀ m ∈ ms, ∀ dep ∈ m.deps, dep ∈ ms.map Module.name

/-- No module depends on itself, directly or through others. -/
def Acyclic (ms : List Module) : Prop :=
  ∀ name, ¬ Relation.TransGen (fun dep name => ∃ m ∈ ms, m.name = name ∧ dep ∈ m.deps) name name

/-- Each module comes after all its dependencies. -/
def AfterDeps (ms : List Module) : Prop :=
  ∀ before m rest, ms = before ++ m :: rest → ∀ dep ∈ m.deps, ∃ m' ∈ before, m'.name = dep

/-- The position in a list of modules of the dependency of a module that comes last. -/
def lastDep (ms : List Module) (m : Module) : ℕ := m.deps.toFinset.sup (ms.map Module.name).idxOf

/-- The modules can be put into an order, those without dependencies first and as they were
registered, each after its dependencies, such that no two of the others have the same last
dependency, and these come in the order of the modules. -/
def Untied (ms : List Module) : Prop :=
  ∃ rest, (ms.filter (·.deps = []) ++ rest).Perm ms ∧ AfterDeps (ms.filter (·.deps = []) ++ rest) ∧
    rest.Pairwise fun m m' => lastDep (ms.filter (·.deps = []) ++ rest) m <
      lastDep (ms.filter (·.deps = []) ++ rest) m'

/-- The modules, which name what they depend on. -/
def naming : Kahn.Naming Module String := ⟨Module.name, Module.deps⟩

section

variable {r : Registry}

/-- **The loop of the sort ends with an empty queue.** -/
theorem kahnLoop_drained (r : Registry) (order : MapOrder) : (r.kahnLoop order).queue = [] :=
  naming.loop_drained (order.perm (naming.keys r.modules))

/-- The sort, when all dependencies are registered. -/
theorem topologicalSort_eq (order : MapOrder) (h : Closed r.modules) :
    r.topologicalSort order =
      if (naming.items r.modules
        (order.range (naming.keys r.modules))).length ≠ r.modules.length then
        .error (.msg "modular: dependency cycle detected among modules")
      else .ok (naming.items r.modules (order.range (naming.keys r.modules))) := by
  have hmissing : (r.modules.findSome? fun m => (r.missingDep m).map fun dep => (m, dep)) = none :=
    (Kahn.Naming.missing_eq_none_iff (N := naming) r.nodup).2 h
  unfold topologicalSort
  rw [hmissing]
  rfl

theorem topologicalSort_of_acyclic (order : MapOrder) (h : Closed r.modules)
    (hacyclic : Acyclic r.modules) : r.topologicalSort order =
      .ok (naming.items r.modules (order.range (naming.keys r.modules))) := by
  have hlen := (Kahn.Naming.length_items_iff (N := naming) r.nodup h (order.perm _)).2 hacyclic
  rw [topologicalSort_eq order h, if_neg (not_not.2 hlen)]

/-- What the sort returns when all dependencies are registered. -/
theorem topologicalSort_ok (order : MapOrder) (h : Closed r.modules) {sorted : List Module}
    (hsorted : r.topologicalSort order = .ok sorted) :
    Acyclic r.modules ∧ sorted.Perm r.modules ∧ AfterDeps sorted := by
  rw [topologicalSort_eq order h] at hsorted
  split_ifs at hsorted with hlen
  cases hsorted
  have hrange := order.perm (naming.keys r.modules)
  have hacyclic := (Kahn.Naming.length_items_iff (N := naming) r.nodup h hrange).1 (not_not.1 hlen)
  exact ⟨hacyclic, Kahn.Naming.items_of_acyclic (N := naming) r.nodup h hrange hacyclic⟩

theorem topologicalSort_closed {order : MapOrder} {sorted : List Module}
    (h : r.topologicalSort order = .ok sorted) : Closed r.modules := by
  unfold topologicalSort at h
  refine (Kahn.Naming.missing_eq_none_iff (N := naming) r.nodup).1 ?_
  show (r.modules.findSome? fun m => (r.missingDep m).map fun dep => (m, dep)) = none
  rcases hmissing : r.modules.findSome? fun m => (r.missingDep m).map fun dep => (m, dep) with
    _ | ⟨m, dep⟩
  · rfl
  · rw [hmissing] at h
    cases h

theorem modulesInOrder_ok {order : MapOrder} {sorted : List Module}
    (h : r.modulesInOrder order = .ok sorted) :
    (Closed r.modules ∧ Acyclic r.modules) ∧ sorted.Perm r.modules ∧ AfterDeps sorted := by
  unfold modulesInOrder at h
  cases hdeps : r.hasDependencies with
  | false =>
    rw [hdeps] at h
    cases h
    have hnone : ∀ m ∈ r.modules, m.deps = [] := by simpa [hasDependencies] using hdeps
    obtain ⟨hclosed, hacyclic, hafter⟩ := naming.of_no_deps hnone
    exact ⟨⟨hclosed, hacyclic⟩, List.Perm.refl _, hafter⟩
  | true =>
    rw [hdeps] at h
    have hclosed := topologicalSort_closed h
    obtain ⟨hacyclic, hsorted⟩ := topologicalSort_ok order hclosed h
    exact ⟨⟨hclosed, hacyclic⟩, hsorted⟩

end

/-- **The boot order of modules.**  Let a list of modules be accepted by `Register`.  The sort of
the modules ends, whatever the iteration order of the maps.  `Modules` returns no error if and only
if every dependency is registered and there is no cycle; it then returns the modules in another
order, each after all its dependencies.  Without dependencies, this is the order of registration. -/
theorem modulesInOrder_correct {ms : List Module} {r : Registry} (hms : registerAll ms new = .ok r)
    (order : MapOrder) :
    (r.kahnLoop order).queue = [] ∧
    ((∃ sorted, r.modulesInOrder order = .ok sorted) ↔ Closed ms ∧ Acyclic ms) ∧
    (∀ sorted, r.modulesInOrder order = .ok sorted → sorted.Perm ms ∧ AfterDeps sorted) ∧
    ((∀ m ∈ ms, m.deps = []) → r.modulesInOrder order = .ok ms) := by
  obtain rfl : r.modules = ms := modules_of_registerAll hms
  refine ⟨kahnLoop_drained r order, ⟨?_, ?_⟩, fun _ h => (modulesInOrder_ok h).2, fun hnone => ?_⟩
  · rintro ⟨sorted, hsorted⟩
    exact (modulesInOrder_ok hsorted).1
  · rintro ⟨hclosed, hacyclic⟩
    unfold modulesInOrder
    cases r.hasDependencies with
    | false => exact ⟨_, rfl⟩
    | true => exact ⟨_, topologicalSort_of_acyclic order hclosed hacyclic⟩
  · have hfalse : r.hasDependencies = false := by simpa [hasDependencies] using hnone
    rw [modulesInOrder, hfalse]
    rfl

/-- **When the boot order is reproducible**: it is the same for all iteration orders of the maps if
and only if the modules can be put into an order without ties. -/
theorem modulesInOrder_eq_iff {r : Registry} (hclosed : Closed r.modules)
    (hacyclic : Acyclic r.modules) :
    (∀ order order', r.modulesInOrder order = r.modulesInOrder order') ↔ Untied r.modules := by
  unfold modulesInOrder
  cases hdeps : r.hasDependencies with
  | false =>
    have hnone : ∀ m ∈ r.modules, m.deps = [] := by simpa [hasDependencies] using hdeps
    have hall : r.modules.filter (·.deps = []) = r.modules :=
      List.filter_eq_self.2 fun m hm => by simpa using hnone m hm
    refine iff_of_true (fun _ _ => rfl) ⟨[], ?_⟩
    rw [List.append_nil, hall]
    exact ⟨.refl _, (naming.of_no_deps hnone).2.2, .nil⟩
  | true =>
    simp only [if_true, topologicalSort_of_acyclic _ hclosed hacyclic, Except.ok.injEq]
    refine Iff.trans ?_ (Kahn.Naming.items_eq_iff (N := naming) r.nodup hclosed hacyclic)
    constructor
    · intro h range range' hrange hrange'
      obtain ⟨order, rfl⟩ := MapOrder.exists_range hrange
      obtain ⟨order', rfl⟩ := MapOrder.exists_range hrange'
      exact h order order'
    · exact fun h order order' => h _ _ (order.perm _) (order'.perm _)

/-- Orders need users and products, products need users twice. -/
def shopModules : List Module :=
  [⟨"order", some ["user", "product"]⟩, ⟨"user", none⟩, ⟨"product", some ["user", "user"]⟩]

/-- The iteration order in which the keys were listed. -/
def listed : MapOrder := ⟨id, List.Perm.refl⟩

theorem modulesInOrder_shop : ∃ r, registerAll shopModules new = .ok r ∧
    ∃ sorted, r.modulesInOrder listed = .ok sorted ∧ sorted.Perm shopModules ∧ AfterDeps sorted ∧
      sorted.map Module.name = ["user", "product", "order"] := by
  obtain ⟨r, hr⟩ : ∃ r, registerAll shopModules new = .ok r := ⟨_, rfl⟩
  obtain ⟨-, -, hcorrect, -⟩ := modulesInOrder_correct hr listed
  cases hr
  obtain ⟨hperm, hafter⟩ := hcorrect _ rfl
  exact ⟨_, rfl, _, rfl, hperm, hafter, rfl⟩

end Registry

end WolfCore.Modular
