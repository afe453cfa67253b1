import WolfCore.Modular.Registry

/-!
# Registering the modules of an application (`infra/bootstrap/app.go`)

`App.RegisterModules` creates the modules of a manifest that the configuration enables, has them
sorted by `Registry.Modules`, wires the session revocation checker of the first module that provides
one, and registers the modules with the application in their order.

* `App.registerModules`: the method;
* `registerModules_ok`: an application that was empty has the modules in boot order, and the checker
  is that of the first provider in it;
* `bootOrder_reproducible_iff`: when two starts of the process agree on the order, whatever the
  iteration orders of the maps, and so on the provider.
-/

namespace WolfCore.Bootstrap

open Go WolfCore.Modular

/-- `modular.CatalogEntry`, with the module its factory returns. -/
structure CatalogEntry where
  name : String
  module : Module

/-- `config.ModulesConfig`. -/
abbrev ModulesConfig := String → Option Bool

/-- `ModulesConfig.IsEnabled`. -/
def ModulesConfig.isEnabled (cfg : ModulesConfig) (name : String) : Bool := (cfg name).getD true

/-- `App`: the modules it has registered, and the one whose session revocation checker is wired. -/
structure App where
  modules : List Module
  revocationProvider : Option Module

/-- What the modules themselves decide: the error of `RegisterModule`, if any, and whether a module
is a `runtime.SessionRevocationProvider`. -/
structure Hooks where
  register : Module → Option Err
  providesRevocation : Module → Bool

/-- The first loop of `RegisterModules`. -/
def registerEntries (cfg : ModulesConfig) : List CatalogEntry → Registry → Except Err Registry
  | [], r => .ok r
  | entry :: manifest, r =>
      if cfg.isEnabled entry.name then
        match r.register entry.module with
        | .error err => .error (.wrap "bootstrap: %w" none err)
        | .ok r => registerEntries cfg manifest r
      else registerEntries cfg manifest r

/-- The second loop: the first module that is a provider. -/
def findRevocationProvider (hooks : Hooks) (ordered : List Module) : Option Module :=
  ordered.find? hooks.providesRevocation

namespace App

/-- `RegisterModule`. -/
def registerModule (hooks : Hooks) (m : Module) (a : App) : Option Err × App :=
  match hooks.register m with
  | some err => (some err, a)
  | none => (none, { a with modules := a.modules ++ [m] })

/-- The last loop of `RegisterModules`. -/
def registerAll (hooks : Hooks) : List Module → App → Option Err × App
  | [], a => (none, a)
  | m :: ms, a =>
      match a.registerModule hooks m with
      | (some err, a) => (some err, a)
      | (none, a) => registerAll hooks ms a

/-- `RegisterModules`. -/
def registerModules (cfg : ModulesConfig) (hooks : Hooks) (order : MapOrder)
    (manifest : List CatalogEntry) (a : App) : Option Err × App :=
  match registerEntries cfg manifest Registry.new with
  | .error err => (some err, a)
  | .ok r =>
      match r.modulesInOrder order with
      | .error err => (some (.wrap "bootstrap: %w" none err), a)
      | .ok ordered =>
          let provider := (findRevocationProvider hooks ordered).or a.revocationProvider
          registerAll hooks ordered { a with revocationProvider := provider }

end App

/-! ### What is registered -/

theorem registerAll_ok {hooks : Hooks} {ms : List Module} {a a' : App}
    (h : a.registerAll hooks ms = (none, a')) : a' = { a with modules := a.modules ++ ms } := by
  induction ms generalizing a with
  | nil =>
    cases h
    simp
  | cons m ms ih =>
    unfold App.registerAll App.registerModule at h
    cases hreg : hooks.register m with
    | some err =>
      rw [hreg] at h
      cases h
    | none =>
      rw [hreg] at h
      rw [ih h]
      simp

def enabledModules (cfg : ModulesConfig) (manifest : List CatalogEntry) : List Module :=
  (manifest.filter (cfg.isEnabled ·.name)).map CatalogEntry.module

theorem registerEntries_ok {cfg : ModulesConfig} {manifest : List CatalogEntry} {r r' : Registry}
    (h : registerEntries cfg manifest r = .ok r') :
    Registry.registerAll (enabledModules cfg manifest) r = .ok r' := by
  induction manifest generalizing r with
  | nil => exact h
  | cons entry manifest ih =>
    unfold registerEntries at h
    unfold enabledModules
    split_ifs at h with henabled
    · rw [List.filter_cons, if_pos henabled, List.map_cons, Registry.registerAll]
      cases hreg : r.register entry.module with
      | error err =>
        rw [hreg] at h
        cases h
      | ok r₁ =>
        rw [hreg] at h
        exact ih h
    · rw [List.filter_cons, if_neg henabled]
      exact ih h

/-- **What `RegisterModules` leaves behind** in an application that was empty: the modules that are
enabled, in boot order, and the first provider in that order. -/
theorem registerModules_ok {cfg : ModulesConfig} {hooks : Hooks} {order : MapOrder}
    {manifest : List CatalogEntry} {a : App}
    (h : App.registerModules cfg hooks order manifest ⟨[], none⟩ = (none, a)) :
    ∃ r, Registry.registerAll (enabledModules cfg manifest) Registry.new = .ok r ∧
      r.modulesInOrder order = .ok a.modules ∧
      a.revocationProvider = findRevocationProvider hooks a.modules := by
  unfold App.registerModules at h
  cases hentries : registerEntries cfg manifest Registry.new with
  | error err =>
    rw [hentries] at h
    cases h
  | ok r =>
    rw [hentries] at h
    refine ⟨r, registerEntries_ok hentries, ?_⟩
    simp only at h
    cases hordered : r.modulesInOrder order with
    | error err =>
      rw [hordered] at h
      cases h
    | ok ordered =>
      rw [hordered] at h
      rw [registerAll_ok h]
      simp

/-! ### Two starts of the process -/

/-- **When the boot order is reproducible.**  Let a list of modules be accepted by `Register`, with
registered dependencies and without a cycle.  `Modules` returns the same order for any two iteration
orders of the maps if and only if the modules can be put into an order without ties: those without
dependencies first, as they were registered, and the others by last dependencies that are all
different.  In that case two starts of the process also find the same provider. -/
theorem bootOrder_reproducible_iff {ms : List Module} {r : Registry}
    (hms : Registry.registerAll ms Registry.new = .ok r) (hclosed : Registry.Closed ms)
    (hacyclic : Registry.Acyclic ms) :
    ((∀ order order', r.modulesInOrder order = r.modulesInOrder order') ↔ Registry.Untied ms) ∧
    (Registry.Untied ms → ∀ hooks order order',
      (r.modulesInOrder order).map (findRevocationProvider hooks) =
        (r.modulesInOrder order').map (findRevocationProvider hooks)) := by
  obtain rfl : r.modules = ms := Registry.modules_of_registerAll hms
  have hiff := Registry.modulesInOrder_eq_iff hclosed hacyclic
  refine ⟨hiff, fun huntied hooks order order' => ?_⟩
  rw [hiff.2 huntied order order']

/-- Products need users, orders need both: no two modules have the same last dependency. -/
def chainModules : List Module :=
  [⟨"order", some ["user", "product"]⟩, ⟨"user", none⟩, ⟨"product", some ["user"]⟩]

theorem bootOrder_reproducible_chain :
    ∃ r, Registry.registerAll chainModules Registry.new = .ok r ∧
      ∀ order order', r.modulesInOrder order = r.modulesInOrder order' := by
  obtain ⟨r, hr⟩ : ∃ r, Registry.registerAll chainModules Registry.new = .ok r := ⟨_, rfl⟩
  have hsort : r.topologicalSort Registry.listed = .ok
      [⟨"user", none⟩, ⟨"product", some ["user"]⟩, ⟨"order", some ["user", "product"]⟩] := by
    cases hr
    rfl
  have hclosed := Registry.topologicalSort_closed hsort
  obtain ⟨hacyclic, -, hafter⟩ := Registry.topologicalSort_ok _ hclosed hsort
  rw [Registry.modules_of_registerAll hr] at hclosed hacyclic
  refine ⟨r, hr, (bootOrder_reproducible_iff hr hclosed hacyclic).1.2
    ⟨[⟨"product", some ["user"]⟩, ⟨"order", some ["user", "product"]⟩], by decide, hafter,
      by decide⟩⟩

/-- The iteration order that is the reverse of how the keys were listed. -/
def backwards : MapOrder := ⟨List.reverse, List.reverse_perm⟩

/-- Two modules that need a third one, and both provide a session revocation checker. -/
def tiedModules : List Module :=
  [⟨"core", none⟩, ⟨"iam", some ["core"]⟩, ⟨"sso", some ["core"]⟩]

/-- The modules with dependencies are providers. -/
def tiedHooks : Hooks := ⟨fun _ => none, fun m => m.deps ≠ []⟩

/-- Two starts boot the modules in different orders, and wire the checkers of different modules. -/
theorem bootOrder_varies :
    ∃ r, Registry.registerAll tiedModules Registry.new = .ok r ∧ Registry.Closed tiedModules ∧
      Registry.Acyclic tiedModules ∧
      r.modulesInOrder Registry.listed = .ok
        [⟨"core", none⟩, ⟨"iam", some ["core"]⟩, ⟨"sso", some ["core"]⟩] ∧
      r.modulesInOrder backwards = .ok
        [⟨"core", none⟩, ⟨"sso", some ["core"]⟩, ⟨"iam", some ["core"]⟩] ∧
      (r.modulesInOrder Registry.listed).map (findRevocationProvider tiedHooks) =
        .ok (some ⟨"iam", some ["core"]⟩) ∧
      (r.modulesInOrder backwards).map (findRevocationProvider tiedHooks) =
        .ok (some ⟨"sso", some ["core"]⟩) := by
  obtain ⟨r, hr⟩ : ∃ r, Registry.registerAll tiedModules Registry.new = .ok r := ⟨_, rfl⟩
  have hsort : r.topologicalSort Registry.listed = .ok tiedModules := by
    cases hr
    rfl
  have hclosed := Registry.topologicalSort_closed hsort
  have hacyclic := (Registry.topologicalSort_ok _ hclosed hsort).1
  rw [Registry.modules_of_registerAll hr] at hclosed hacyclic
  refine ⟨r, hr, hclosed, hacyclic, ?_⟩
  cases hr
  exact ⟨rfl, rfl, rfl, rfl⟩

end WolfCore.Bootstrap
