import WolfCore.DI.Container

/-!
# Resolving dependencies (`infra/di/container.go`)

A factory is given the container it was asked from and resolves its own dependencies through it, so
`Get` and the factories call each other.  A factory is therefore a tree of the `Get`s it makes and
of what it does with their outcomes, and `Get` runs the tree.

Three pieces of state decide how such a call goes.  Each singleton has a `sync.Once`: the factory
runs when it is fresh, a call that comes back to it while it runs waits for itself, and afterwards
it is done, also when the factory panicked.  Each scope has a mutex, held while a scoped factory
runs, and it is not reentrant.  And each scope has its cache.

The trace records what happened in the process, latest event first.  No code reads it, but a factory
gets its length as the moment of the call, so it need not do the same thing twice.

Only calls one after another are modelled, and the registrations are fixed before the first.
-/

namespace WolfCore.DI.Resolution

open Go

/-- What a factory does: it returns a value (`none` is a nil `any`), it panics, or it resolves a key
through the container it was given and goes on with the outcome, recovering the panic if it
likes. -/
inductive Body (V : Type)
  | ret (v : Option V)
  | panic (p : String)
  | get (key : String) (k : Outcome (Option V) → Body V)

/-- `Factory`, by the moment of the call. -/
abbrev Factory (V : Type) := ℕ → Body V

/-- The registrations of a root container: a map with finitely many keys. -/
structure Registry (V : Type) where
  entries : String → Option (Entry (Factory V))
  keys : List String
  nodup : keys.Nodup
  mem_keys : ∀ key, key ∈ keys ↔ (entries key).isSome

/-- The state of a `sync.Once`. -/
inductive Once
  | fresh
  | running
  | done
  deriving DecidableEq

/-- `singletonEntry`. -/
structure SingletonEntry (V : Type) where
  once : Once
  value : Option V

/-- The state of a `scopedContainer`: its mutex and its cache. -/
structure Scope (V : Type) where
  locked : Bool
  values : String → Option (Option V)

inductive Event (V : Type)
  /-- The `once.Do` of the singleton was called. -/
  | resolve (key : String)
  /-- The factory of the key was called with the container. -/
  | called (ref : ContainerRef) (key : String)
  /-- The factory of the key returned. -/
  | built (key : String) (v : Option V)
  /-- The factory of the key panicked. -/
  | failed (key : String) (p : String)
  /-- `Get` of the singleton returned, to the caller or to a factory. -/
  | got (key : String) (v : Option V)
  /-- `Validate` returned the joined errors. -/
  | validated (errs : List Err)

/-- The state of a container and its scopes.  `LoadOrStore` stores a fresh entry for a singleton
without one, so every singleton has an entry. -/
structure State (V : Type) where
  singletons : String → SingletonEntry V
  scopes : ℕ → Scope V
  trace : List (Event V)

/-- How a call goes: it ends, it waits for a lock its own call chain holds, or it has not ended
within the fuel. -/
inductive Result (V α : Type)
  | finished (o : Outcome α) (st : State V)
  | blocked
  | outOfFuel

section

variable {V : Type}

namespace State

/-- `New`, and scopes without values. -/
def new : State V :=
  ⟨fun _ => ⟨.fresh, none⟩, fun _ => ⟨false, fun _ => none⟩, []⟩

def record (st : State V) (e : Event V) : State V := { st with trace := e :: st.trace }

/-- The singleton's entry becomes `se`. -/
def setEntry (st : State V) (key : String) (se : SingletonEntry V) : State V :=
  { st with singletons := Function.update st.singletons key se }

/-- `s.mu` is locked or unlocked. -/
def setLock (st : State V) (s : ℕ) (locked : Bool) : State V :=
  { st with scopes := Function.update st.scopes s { st.scopes s with locked := locked } }

/-- `s.values[key] = v`. -/
def cache (st : State V) (s : ℕ) (key : String) (v : Option V) : State V :=
  let values := Function.update (st.scopes s).values key (some v)
  { st with scopes := Function.update st.scopes s { st.scopes s with values := values } }

end State

/-- What the trace keeps of the end of a factory call. -/
def ending (key : String) : Outcome (Option V) → Event V
  | .returned v => .built key v
  | .panicked p => .failed key p

/-- The factory runs, with `Get` on the container it was given. -/
def Body.run (get : String → State V → Result V (Option V)) :
    Body V → State V → Result V (Option V)
  | .ret v, st => .finished (.returned v) st
  | .panic p, st => .finished (.panicked p) st
  | .get key k, st =>
      match get key st with
      | .finished o st' => (k o).run get st'
      | .blocked => .blocked
      | .outOfFuel => .outOfFuel

/-- `e.factory(c)`. -/
def callFactory (get : String → State V → Result V (Option V)) (factory : Factory V)
    (ref : ContainerRef) (key : String) (st : State V) : Result V (Option V) :=
  match (factory st.trace.length).run get (st.record (.called ref key)) with
  | .finished o st' => .finished o (st'.record (ending key o))
  | .blocked => .blocked
  | .outOfFuel => .outOfFuel

/-- `se.once.Do(func() { se.value = e.factory(c) })`: once the function has ended in any way the
`Once` is done, and a panic leaves the value as it was. -/
def onceDo (get : String → State V → Result V (Option V)) (factory : Factory V) (key : String)
    (st : State V) : Result V Unit :=
  match (st.singletons key).once with
  | .done => .finished (.returned ()) st
  | .running => .blocked
  | .fresh =>
      match callFactory get factory .root key
          (st.setEntry key { st.singletons key with once := .running }) with
      | .finished (.returned v) st' => .finished (.returned ()) (st'.setEntry key ⟨.done, v⟩)
      | .finished (.panicked p) st' =>
          .finished (.panicked p) (st'.setEntry key { st'.singletons key with once := .done })
      | .blocked => .blocked
      | .outOfFuel => .outOfFuel

namespace Registry

variable (reg : Registry V)

/-- `container.Get`, where `get` is the `Get` its factories call. -/
def rootGet (get : String → State V → Result V (Option V)) (key : String) (st : State V) :
    Result V (Option V) :=
  match reg.entries key with
  | none => .finished (.panicked (notRegistered key)) st
  | some e =>
      if e.isScoped then callFactory get e.factory .root key st
      else
        match onceDo get e.factory key (st.record (.resolve key)) with
        | .finished (.returned _) st' =>
            .finished (.returned (st'.singletons key).value)
              (st'.record (.got key (st'.singletons key).value))
        | .finished (.panicked p) st' => .finished (.panicked p) st'
        | .blocked => .blocked
        | .outOfFuel => .outOfFuel

/-- `scopedContainer.Get`, where `get` is the `Get` on each container that the factories call.  The
mutex is held from before the lookup in the cache to the end of the call. -/
def scopeGet (get : ContainerRef → String → State V → Result V (Option V)) (s : ℕ) (key : String)
    (st : State V) : Result V (Option V) :=
  match reg.entries key with
  | none => .finished (.panicked (notRegistered key)) st
  | some e =>
      if !e.isScoped then reg.rootGet (get .root) key st
      else if (st.scopes s).locked then .blocked
      else
        match (st.scopes s).values key with
        | some v => .finished (.returned v) st
        | none =>
            match callFactory (get (.scope s)) e.factory (.scope s) key (st.setLock s true) with
            | .finished (.returned v) st' =>
                .finished (.returned v) ((st'.cache s key v).setLock s false)
            | .finished (.panicked p) st' => .finished (.panicked p) (st'.setLock s false)
            | .blocked => .blocked
            | .outOfFuel => .outOfFuel

/-- `Get` on a container, with at most `fuel` nested calls. -/
def get : ℕ → ContainerRef → String → State V → Result V (Option V)
  | 0, _, _, _ => .outOfFuel
  | fuel + 1, .root, key, st => reg.rootGet (get fuel .root) key st
  | fuel + 1, .scope s, key, st => reg.scopeGet (get fuel) s key st

/-- The error for a singleton whose factory panicked. -/
def validationErr (key p : String) : Err :=
  .wrap "di: singleton %q panicked during validation: %v" (some key) (.msg p)

/-- `container.tryResolve`. -/
def tryResolve (fuel : ℕ) (key : String) (e : Entry (Factory V)) (st : State V) :
    Result V (Option Err) :=
  match onceDo (reg.get fuel .root) e.factory key (st.record (.resolve key)) with
  | .finished (.returned _) st' => .finished (.returned none) st'
  | .finished (.panicked p) st' => .finished (.returned (some (validationErr key p))) st'
  | .blocked => .blocked
  | .outOfFuel => .outOfFuel

/-- The loop of `container.Validate` over the snapshot; it collects the errors. -/
def validateLoop (fuel : ℕ) : List String → State V → Result V (List Err)
  | [], st => .finished (.returned []) st
  | key :: keys, st =>
      match reg.entries key with
      | none => validateLoop fuel keys st
      | some e =>
          if e.isScoped then validateLoop fuel keys st
          else
            match reg.tryResolve fuel key e st with
            | .finished (.returned err) st' =>
                match validateLoop fuel keys st' with
                | .finished (.returned errs) st'' =>
                    .finished (.returned (err.toList ++ errs)) st''
                | r => r
            | .finished (.panicked p) st' => .finished (.panicked p) st'
            | .blocked => .blocked
            | .outOfFuel => .outOfFuel

/-- `container.Validate`, and `scopedContainer.Validate`, which delegates to it.  `errors.Join` of
no errors is nil, so the empty list is the nil error. -/
def validate (fuel : ℕ) (order : MapOrder) (st : State V) : Result V (List Err) :=
  match reg.validateLoop fuel (order.range reg.keys) st with
  | .finished (.returned errs) st' => .finished (.returned errs) (st'.record (.validated errs))
  | r => r

/-- The states a sequence of calls leads to.  The caller recovers the panics of `Get`. -/
inductive Reachable : State V → Prop
  | new : Reachable .new
  | get {fuel ref key st o st'} : Reachable st → reg.get fuel ref key st = .finished o st' →
      Reachable st'
  | validate {fuel order st o st'} : Reachable st → reg.validate fuel order st = .finished o st' →
      Reachable st'

def IsSingleton (key : String) : Prop := ∃ factory, reg.entries key = some ⟨factory, false⟩

def IsScoped (key : String) : Prop := ∃ factory, reg.entries key = some ⟨factory, true⟩

end Registry

/-! ### More fuel -/

/-- The second result is the first, unless the first ran out of fuel. -/
def Within {α : Type} (r r' : Result V α) : Prop := r = .outOfFuel ∨ r' = r

theorem Within.finished {α : Type} {r r' : Result V α} (h : Within r r') {o : Outcome α}
    {st : State V} (hr : r = .finished o st) : r' = .finished o st := by
  rcases h with h | h
  · rw [hr] at h
    cases h
  · rw [h, hr]

section

variable {g g' : String → State V → Result V (Option V)}

theorem Body.run_within (hg : ∀ key st, Within (g key st) (g' key st)) (b : Body V)
    (st : State V) : Within (b.run g st) (b.run g' st) := by
  induction b generalizing st with
  | ret v => exact .inr rfl
  | panic p => exact .inr rfl
  | get key k ih =>
    unfold Body.run
    rcases hg key st with h | h
    · rw [h]
      exact .inl rfl
    · rw [h]
      cases g key st with
      | finished o st' => exact ih o st'
      | blocked => exact .inr rfl
      | outOfFuel => exact .inl rfl

theorem callFactory_within (hg : ∀ key st, Within (g key st) (g' key st)) (factory : Factory V)
    (ref : ContainerRef) (key : String) (st : State V) :
    Within (callFactory g factory ref key st) (callFactory g' factory ref key st) := by
  unfold callFactory
  rcases Body.run_within hg (factory st.trace.length) (st.record (.called ref key)) with h | h
  · rw [h]
    exact .inl rfl
  · rw [h]
    exact .inr rfl

theorem onceDo_within (hg : ∀ key st, Within (g key st) (g' key st)) (factory : Factory V)
    (key : String) (st : State V) :
    Within (onceDo g factory key st) (onceDo g' factory key st) := by
  unfold onceDo
  cases (st.singletons key).once with
  | done => exact .inr rfl
  | running => exact .inr rfl
  | fresh =>
    rcases callFactory_within hg factory .root key
      (st.setEntry key { st.singletons key with once := .running }) with h | h
    · simp only [h]
      exact .inl rfl
    · simp only [h]
      exact .inr rfl

end

namespace Registry

variable {reg : Registry V}

theorem rootGet_within {g g' : String → State V → Result V (Option V)}
    (hg : ∀ key st, Within (g key st) (g' key st)) (key : String) (st : State V) :
    Within (reg.rootGet g key st) (reg.rootGet g' key st) := by
  unfold rootGet
  cases reg.entries key with
  | none => exact .inr rfl
  | some e =>
    by_cases hscoped : e.isScoped
    · simp only [hscoped, if_true]
      exact callFactory_within hg e.factory .root key st
    · simp only [hscoped]
      rcases onceDo_within hg e.factory key (st.record (.resolve key)) with h | h
      · rw [h]
        exact .inl rfl
      · rw [h]
        exact .inr rfl

theorem scopeGet_within {g g' : ContainerRef → String → State V → Result V (Option V)}
    (hg : ∀ ref key st, Within (g ref key st) (g' ref key st)) (s : ℕ) (key : String)
    (st : State V) : Within (reg.scopeGet g s key st) (reg.scopeGet g' s key st) := by
  unfold scopeGet
  cases reg.entries key with
  | none => exact .inr rfl
  | some e =>
    by_cases hscoped : e.isScoped
    · simp only [hscoped, Bool.not_true, Bool.false_eq_true, if_false]
      by_cases hlocked : (st.scopes s).locked
      · simp only [hlocked, if_true]
        exact .inr rfl
      · simp only [hlocked]
        cases (st.scopes s).values key with
        | some v => exact .inr rfl
        | none =>
          rcases callFactory_within (hg (.scope s)) e.factory (.scope s) key (st.setLock s true)
            with h | h
          · simp only [h]
            exact .inl rfl
          · simp only [h]
            exact .inr rfl
    · simp only [hscoped, Bool.not_false, if_true]
      exact rootGet_within (hg .root) key st

theorem get_within_succ (fuel : ℕ) (ref : ContainerRef) (key : String) (st : State V) :
    Within (reg.get fuel ref key st) (reg.get (fuel + 1) ref key st) := by
  induction fuel generalizing ref key st with
  | zero => exact .inl rfl
  | succ fuel ih =>
    cases ref with
    | root => exact rootGet_within (ih .root) key st
    | scope s => exact scopeGet_within ih s key st

/-- A call that has ended ends the same way with more fuel. -/
theorem get_within {fuel fuel' : ℕ} (h : fuel ≤ fuel') (ref : ContainerRef) (key : String)
    (st : State V) : Within (reg.get fuel ref key st) (reg.get fuel' ref key st) := by
  induction h with
  | refl => exact .inr rfl
  | step h ih =>
    rcases ih with ih | ih
    · exact .inl ih
    · rw [← ih]
      exact get_within_succ _ ref key st

/-- The outcome of a call does not depend on the fuel. -/
theorem get_unique {fuel fuel' : ℕ} {ref : ContainerRef} {key : String} {st st₁ st₂ : State V}
    {o₁ o₂ : Outcome (Option V)} (h₁ : reg.get fuel ref key st = .finished o₁ st₁)
    (h₂ : reg.get fuel' ref key st = .finished o₂ st₂) : o₁ = o₂ ∧ st₁ = st₂ := by
  have hmax₁ := (get_within (le_max_left fuel fuel') ref key st).finished h₁
  have hmax₂ := (get_within (le_max_right fuel fuel') ref key st).finished h₂
  rw [hmax₁] at hmax₂
  cases hmax₂
  exact ⟨rfl, rfl⟩

end Registry

end

end WolfCore.DI.Resolution
