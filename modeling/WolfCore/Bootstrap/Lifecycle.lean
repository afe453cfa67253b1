import WolfCore.Bootstrap.Modules
import WolfCore.Concurrency.Shutdown

/-!
# Stopping an application (`infra/bootstrap/lifecycle.go`)

`App.Shutdown` puts the modules, last one first, and the shared resources into a `ShutdownGroup`:
all modules with priority 1, and the resources with higher priorities.

* `App.shutdownGroup`: what is put into the group;
* `stops_before_resources`: no resource is closed before every module has been stopped;
* `stopsAfterDependents_iff`: the modules are stopped concurrently, so a module is stopped after
  those that depend on it under every schedule only if there are no dependencies.

The timeout of the shutdown context is part of the surroundings of the closers.
-/

namespace WolfCore.Bootstrap

open Go WolfCore.Modular Concurrency ForkJoin

variable {τ σ O A : Type}

/-- What `Shutdown` closes. -/
inductive Resource
  /-- `OnStop` of a module -/
  | module (m : Module)
  | eventBus
  | messagingStream
  | cacheClient
  | writeDB
  | readDB
  | tracerProvider
  deriving DecidableEq

/-- The error of a closer around the error of its resource. -/
def Resource.wrapErr (err : Err) : Resource → Err
  | module m => .wrap "bootstrap: module %q OnStop: %w" (some m.name) err
  | eventBus => .wrap "bootstrap: close event bus: %w" none err
  | messagingStream => .wrap "bootstrap: close messaging stream: %w" none err
  | cacheClient => .wrap "bootstrap: close cache client: %w" none err
  | writeDB => .wrap "bootstrap: close write db pool: %w" none err
  | readDB => .wrap "bootstrap: close read db pool: %w" none err
  | tracerProvider => .wrap "bootstrap: shutdown tracer provider: %w" none err

/-- The closers that `Shutdown` registers, over what the resources themselves do. -/
def closers (own : CloseFn Resource Err τ σ O A) : CloseFn Resource Err (Resource × τ) σ O A where
  start := fun r => (r, own.start r)
  step := fun o t s =>
    match own.step o t.2 s with
    | (.inl t', s') => (.inl (t.1, t'), s')
    | (.inr err, s') => (.inr (err.map fun err => t.1.wrapErr err), s')
  env := own.env

/-- The modules are added in the reverse of their order. -/
def addModules (g : ShutdownGroup Resource) (modules : List Module) : ShutdownGroup Resource :=
  modules.reverse.foldl (fun g m => g.add 1 ("module-" ++ m.name) (.module m)) g

/-- The group that `App.Shutdown` shuts down; there may be no tracer provider. -/
def App.shutdownGroup (a : App) (hasTracer : Bool) : ShutdownGroup Resource :=
  let sg := addModules ⟨[]⟩ a.modules
  let sg := sg.add 2 "event-bus" .eventBus
  let sg := sg.add 2 "messaging-stream" .messagingStream
  let sg := sg.add 3 "cache-client" .cacheClient
  let sg := sg.add 4 "write-db" .writeDB
  let sg := sg.add 4 "read-db" .readDB
  if hasTracer then sg.add 5 "tracer-provider" .tracerProvider else sg

/-- `App.Shutdown`, after a schedule. -/
def App.shutdownRun (a : App) (hasTracer : Bool) (own : CloseFn Resource Err τ σ O A) (s : σ)
    (ms : List (BatchMove O A)) :
    Batches (ShutdownEntry Resource) (Resource × τ) (Option Err) σ :=
  (a.shutdownGroup hasTracer).run (closers own) s ms

/-! ### The entries -/

def moduleEntry (m : Module) : ShutdownEntry Resource := ⟨1, "module-" ++ m.name, .module m⟩

def resourceEntries (hasTracer : Bool) : List (ShutdownEntry Resource) :=
  [⟨2, "event-bus", .eventBus⟩, ⟨2, "messaging-stream", .messagingStream⟩,
    ⟨3, "cache-client", .cacheClient⟩, ⟨4, "write-db", .writeDB⟩, ⟨4, "read-db", .readDB⟩] ++
    if hasTracer then [⟨5, "tracer-provider", .tracerProvider⟩] else []

theorem entries_addModules (g : ShutdownGroup Resource) (modules : List Module) :
    (addModules g modules).entries = g.entries ++ modules.reverse.map moduleEntry := by
  unfold addModules
  induction modules.reverse generalizing g with
  | nil => simp
  | cons m ms ih =>
    rw [List.foldl_cons, ih]
    simp [ShutdownGroup.add, moduleEntry]

theorem entries_shutdownGroup (a : App) (hasTracer : Bool) :
    (a.shutdownGroup hasTracer).entries =
      a.modules.reverse.map moduleEntry ++ resourceEntries hasTracer := by
  have hmodules := entries_addModules ⟨[]⟩ a.modules
  cases hasTracer <;>
    simp [App.shutdownGroup, ShutdownGroup.add, hmodules, resourceEntries]

theorem priority_of_mem_modules {modules : List Module} {e : ShutdownEntry Resource}
    (he : e ∈ modules.reverse.map moduleEntry) : e.priority = 1 := by
  obtain ⟨m, -, rfl⟩ := List.mem_map.1 he
  rfl

theorem one_lt_priority {hasTracer : Bool} {e : ShutdownEntry Resource}
    (he : e ∈ resourceEntries hasTracer) : 1 < e.priority := by
  revert e
  cases hasTracer <;> decide

/-- The entries are added in the order of their priorities. -/
theorem sorted_shutdownGroup (a : App) (hasTracer : Bool) :
    sorted (a.shutdownGroup hasTracer).entries = (a.shutdownGroup hasTracer).entries := by
  refine List.Pairwise.insertionSort_eq ?_
  rw [entries_shutdownGroup, List.pairwise_append]
  refine ⟨?_, by cases hasTracer <;> decide, fun e he e' he' => ?_⟩
  · rw [List.pairwise_map]
    exact List.pairwise_of_forall fun _ _ => le_rfl
  · rw [priority_of_mem_modules he]
    exact (one_lt_priority he').le

/-! ### Stopping the modules -/

/-- `OnStop` of the module has returned. -/
def Stopped (a : App) (hasTracer : Bool)
    (log : List (ForkJoin.Event (ShutdownEntry Resource) (Option Err))) (m : Module) : Prop :=
  ∃ j err, (sorted (a.shutdownGroup hasTracer).entries)[j]? = some (moduleEntry m) ∧
    .ret j err ∈ log

/-- `OnStop` of a module is called only when that of every module that depends on it has
returned. -/
def StopsAfterDependents (a : App) (hasTracer : Bool)
    (log : List (ForkJoin.Event (ShutdownEntry Resource) (Option Err))) : Prop :=
  ∀ later k m earlier, log = later ++ .call k (moduleEntry m) :: earlier →
    ∀ m' ∈ a.modules, m.name ∈ m'.deps → Stopped a hasTracer earlier m'

/-- When a resource is closed, every module has been stopped. -/
theorem stops_before_resources {a : App} {hasTracer : Bool} {own : CloseFn Resource Err τ σ O A}
    {s : σ} {ms : List (BatchMove O A)} {k : ℕ} {e : ShutdownEntry Resource}
    {later earlier : List (ForkJoin.Event (ShutdownEntry Resource) (Option Err))}
    (hlog : (a.shutdownRun hasTracer own s ms).fork.log = later ++ .call k e :: earlier)
    (he : ∀ m, e.closer ≠ .module m) {m : Module} (hm : m ∈ a.modules) :
    Stopped a hasTracer earlier m := by
  obtain ⟨hk, hlower⟩ := ShutdownGroup.lower_returned hlog
  have hmem : e ∈ a.modules.reverse.map moduleEntry ++ resourceEntries hasTracer := by
    rw [← entries_shutdownGroup, ← sorted_shutdownGroup]
    exact List.mem_of_getElem? hk
  have hpriority : 1 < e.priority := by
    rcases List.mem_append.1 hmem with hmem | hmem
    · obtain ⟨m, -, rfl⟩ := List.mem_map.1 hmem
      exact absurd rfl (he m)
    · exact one_lt_priority hmem
  have hentry : moduleEntry m ∈ sorted (a.shutdownGroup hasTracer).entries := by
    rw [sorted_shutdownGroup, entries_shutdownGroup]
    exact List.mem_append_left _ (List.mem_map_of_mem (List.mem_reverse.2 hm))
  obtain ⟨j, hj⟩ := List.mem_iff_getElem?.1 hentry
  obtain ⟨err, hret⟩ := hlower j _ hj hpriority
  exact ⟨j, err, hj, hret⟩

/-- Under some schedule `OnStop` of a given module is called before anything else. -/
theorem exists_first_stop {a : App} (hasTracer : Bool) (own : CloseFn Resource Err τ σ O A) (s : σ)
    (o : O) {m : Module} (hm : m ∈ a.modules) :
    ∃ ms k, (a.shutdownRun hasTracer own s ms).fork.log = [.call k (moduleEntry m)] := by
  have hentry : moduleEntry m ∈ a.modules.reverse.map moduleEntry :=
    List.mem_map_of_mem (List.mem_reverse.2 hm)
  obtain ⟨k, hk⟩ := List.mem_iff_getElem?.1 hentry
  obtain ⟨rest, hbatches⟩ := exists_batches_append (p := 1) (List.ne_nil_of_mem hentry)
    (fun e he => priority_of_mem_modules he)
    fun e (he : e ∈ resourceEntries hasTracer) => (one_lt_priority he).ne'
  obtain ⟨ms, hms⟩ := Batches.exists_first_call (closers own).body o s hk rest
  refine ⟨ms, k, ?_⟩
  rw [App.shutdownRun, ShutdownGroup.run, sorted_shutdownGroup, entries_shutdownGroup, hbatches]
  exact hms

/-- **Modules are stopped concurrently.**  Let modules be registered with an application in the
order that `Registry.Modules` returned.  `Shutdown` stops each module after those that depend on it,
under every schedule, if and only if no module has dependencies.  In any case every module has been
stopped when a shared resource is closed. -/
theorem stopsAfterDependents_iff {ms : List Module} {r : Registry}
    (hms : Registry.registerAll ms Registry.new = .ok r) {order : MapOrder} {a : App}
    (hordered : r.modulesInOrder order = .ok a.modules) (hasTracer : Bool)
    (own : CloseFn Resource Err τ σ O A) (s : σ) (o : O) :
    ((∀ schedule,
        StopsAfterDependents a hasTracer (a.shutdownRun hasTracer own s schedule).fork.log) ↔
      ∀ m ∈ ms, m.deps = []) ∧
    ∀ schedule later k e earlier,
      (a.shutdownRun hasTracer own s schedule).fork.log = later ++ .call k e :: earlier →
        (∀ m, e.closer ≠ .module m) → ∀ m ∈ a.modules, Stopped a hasTracer earlier m := by
  obtain rfl : r.modules = ms := Registry.modules_of_registerAll hms
  obtain ⟨⟨hclosed, -⟩, hperm, -⟩ := Registry.modulesInOrder_ok hordered
  refine ⟨⟨fun hsafe m' hm' => ?_, fun hnone schedule later k m earlier _ m' hm' hdep => ?_⟩,
    fun schedule later k e earlier hlog he m hm => stops_before_resources hlog he hm⟩
  · by_contra hdeps
    obtain ⟨dep, hdep⟩ := List.exists_mem_of_ne_nil _ hdeps
    obtain ⟨m, hm, rfl⟩ := List.mem_map.1 (hclosed m' hm' dep hdep)
    -- Nothing has returned when `OnStop` of the dependency is called first.
    obtain ⟨schedule, k, hlog⟩ := exists_first_stop hasTracer own s o (hperm.symm.subset hm)
    obtain ⟨j, err, -, hmem⟩ := hsafe schedule [] k m [] hlog m' (hperm.symm.subset hm') hdep
    cases hmem
  · rw [hnone m' (hperm.subset hm')] at hdep
    cases hdep

/-- Closers that return nil in one step. -/
def quick : CloseFn Resource Err Unit Unit Unit Unit where
  start := fun _ => ()
  step := fun _ _ s => (.inr none, s)
  env := fun _ s => s

/-- Orders depend on users, so they are started after them and put first into the group. -/
def orderModules : List Module := [⟨"order", some ["user"]⟩, ⟨"user", none⟩]

def ordersApp : App := ⟨[⟨"user", none⟩, ⟨"order", some ["user"]⟩], none⟩

/-- Both goroutines are started, and the one that stops users is the first to run. -/
def usersFirst : List (BatchMove Unit Unit) := [.fork .spawn, .fork .spawn, .fork (.step 1 ())]

/-- Both modules are stopped, and then the event bus is closed. -/
def untilEventBus : List (BatchMove Unit Unit) :=
  usersFirst ++ [.fork (.step 0 ()), .fork (.step 1 ()), .fork (.step 0 ()), .fork (.step 1 ()),
    .fork (.step 0 ()), .join, .fork .spawn, .fork (.step 0 ())]

theorem stopsAfterDependents_orders :
    ∃ r, Registry.registerAll orderModules Registry.new = .ok r ∧
      r.modulesInOrder Registry.listed = .ok ordersApp.modules ∧
      (¬∀ schedule, StopsAfterDependents ordersApp true
        (ordersApp.shutdownRun true quick () schedule).fork.log) ∧
      ∃ earlier, (ordersApp.shutdownRun true quick () untilEventBus).fork.log =
          .call 2 ⟨2, "event-bus", .eventBus⟩ :: earlier ∧
        ∀ m ∈ ordersApp.modules, Stopped ordersApp true earlier m := by
  obtain ⟨r, hr⟩ : ∃ r, Registry.registerAll orderModules Registry.new = .ok r := ⟨_, rfl⟩
  have hordered : r.modulesInOrder Registry.listed = .ok ordersApp.modules := by
    cases hr
    rfl
  obtain ⟨hiff, hresources⟩ := stopsAfterDependents_iff hr hordered true quick () ()
  have hlog : ∃ earlier, (ordersApp.shutdownRun true quick () untilEventBus).fork.log =
      .call 2 ⟨2, "event-bus", .eventBus⟩ :: earlier := ⟨_, rfl⟩
  obtain ⟨earlier, hlog⟩ := hlog
  refine ⟨r, hr, hordered, fun hall => absurd (hiff.1 hall) (by decide), earlier, hlog, ?_⟩
  exact hresources untilEventBus [] 2 _ earlier hlog (fun _ => nofun)

/-- The users are stopped before the orders, which depend on them. -/
theorem stops_dependency_first :
    ∃ r a, Registry.registerAll orderModules Registry.new = .ok r ∧
      r.modulesInOrder Registry.listed = .ok a.modules ∧
      a.modules = [⟨"user", none⟩, ⟨"order", some ["user"]⟩] ∧
      (a.shutdownRun true quick () usersFirst).fork.log = [.call 1 (moduleEntry ⟨"user", none⟩)] ∧
      ¬StopsAfterDependents a true (a.shutdownRun true quick () usersFirst).fork.log := by
  obtain ⟨r, hr⟩ : ∃ r, Registry.registerAll orderModules Registry.new = .ok r := ⟨_, rfl⟩
  have hlog : (ordersApp.shutdownRun true quick () usersFirst).fork.log =
      [.call 1 (moduleEntry ⟨"user", none⟩)] := rfl
  refine ⟨r, ordersApp, hr, ?_, rfl, hlog, fun hsafe => ?_⟩
  · cases hr
    rfl
  · obtain ⟨j, err, -, hmem⟩ :=
      hsafe [] 1 _ [] hlog ⟨"order", some ["user"]⟩ (by decide) (by decide)
    cases hmem

end WolfCore.Bootstrap
