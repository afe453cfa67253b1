import Mathlib.Logic.Relation
import WolfCore.DI.Calls

/-!
# Resolution ends

A `Get` on the root container of a key from which no cycle of dependencies can be reached ends,
provided that nothing it can come to is being built.  Between calls nothing is, so such a `Get`
always ends then, and so does `Validate` when it holds for all singletons.
-/

namespace WolfCore.DI.Resolution

open Go Relation

section

variable {V : Type}

/-- The factory may come to a `Get` of the key. -/
inductive Body.Asks : Body V → String → Prop
  | here {key k} : Asks (.get key k) key
  | later {key k key'} (o : Outcome (Option V)) : Asks (k o) key' → Asks (.get key k) key'

namespace Registry

/-- An edge of the dependency graph: the factory of the first key may ask for the second. -/
def DependsOn (reg : Registry V) (key key' : String) : Prop :=
  ∃ e n, reg.entries key = some e ∧ (e.factory n).Asks key'

/-- No chain of dependencies that starts at the key goes on forever.  A container has finitely many
keys, so this says that no cycle can be reached from the key. -/
def AcyclicFrom (reg : Registry V) (key : String) : Prop := Acc (fun a b => reg.DependsOn b a) key

variable {reg : Registry V}

theorem AcyclicFrom.not_cycle {key : String} (h : reg.AcyclicFrom key) :
    ¬TransGen reg.DependsOn key key := by
  rw [← transGen_swap]
  have hacc : Acc (TransGen (Function.swap reg.DependsOn)) key := Acc.transGen h
  clear h
  induction hacc with
  | intro key _ ih => exact fun hcycle => ih key hcycle hcycle

/-- A factory ends when the keys it asks for end in all the states it can come to. -/
theorem run_finishes {P : State V → Prop} {b : Body V}
    (hget : ∀ key, b.Asks key → ∀ st, P st →
      ∃ fuel o st', reg.get fuel .root key st = .finished o st' ∧ P st')
    {st : State V} (hst : P st) :
    ∃ fuel o st', b.run (reg.get fuel .root) st = .finished o st' := by
  induction b generalizing st with
  | ret v => exact ⟨0, _, _, rfl⟩
  | panic p => exact ⟨0, _, _, rfl⟩
  | get key k ih =>
    obtain ⟨fuel₁, o₁, st₁, hfirst, hst₁⟩ := hget key .here st hst
    obtain ⟨fuel₂, o₂, st₂, hrest⟩ := ih o₁ (fun key' hasks => hget key' (.later o₁ hasks)) hst₁
    refine ⟨max fuel₁ fuel₂, o₂, st₂, ?_⟩
    have hfirst' := (get_within (le_max_left fuel₁ fuel₂) .root key st).finished hfirst
    have hrest' :=
      (Body.run_within (fun key st => get_within (le_max_right fuel₁ fuel₂) .root key st)
      (k o₁) st₁).finished hrest
    unfold Body.run
    rw [hfirst']
    exact hrest'

/-- Nothing that can be reached from the key is being built. -/
def Clear (reg : Registry V) (key : String) (st : State V) : Prop :=
  ∀ key', ReflTransGen reg.DependsOn key key' → (st.singletons key').once ≠ .running

theorem Clear.of_keeps {key : String} {st st' : State V} (h : reg.Clear key st)
    (hkeeps : Keeps st st') : reg.Clear key st' :=
  fun key' hreach hrunning => h key' hreach ((hkeeps.running key').1 hrunning)

theorem Clear.of_dependsOn {key key' : String} {st : State V} (h : reg.Clear key st)
    (hdep : reg.DependsOn key key') : reg.Clear key' st :=
  fun key'' hreach => h key'' (.head hdep hreach)

/-- While a singleton is being built, nothing it depends on is. -/
theorem Clear.start {key key' : String} {st : State V} (h : reg.Clear key st)
    (hacyclic : reg.AcyclicFrom key) (hdep : reg.DependsOn key key') :
    reg.Clear key' (st.start key) := by
  intro key'' hreach
  have hne : key'' ≠ key := by
    rintro rfl
    exact hacyclic.not_cycle (TransGen.head' hdep hreach)
  rw [singletons_start_of_ne st hne]
  exact h key'' (.head hdep hreach)

/-- The `once.Do` of a singleton ends if the `Get`s of its dependencies do. -/
theorem onceDo_finishes {key : String} {factory : Factory V}
    (hkey : reg.entries key = some ⟨factory, false⟩) (hacyclic : reg.AcyclicFrom key)
    (hget : ∀ key', reg.DependsOn key key' → ∀ {st}, reg.Clear key' st →
      ∃ fuel o st', reg.get fuel .root key' st = .finished o st')
    {st : State V} (hst : reg.Clear key st) : ∃ fuel o st',
      onceDo (reg.get fuel .root) factory key (st.record (.resolve key)) = .finished o st' := by
  have hentry : (st.record (.resolve key)).singletons key = st.singletons key := rfl
  unfold onceDo
  rw [hentry]
  cases honce : (st.singletons key).once with
  | done => exact ⟨0, _, _, rfl⟩
  | running => exact absurd honce (hst key .refl)
  | fresh =>
    have hbody : ∃ fuel o st', (factory (st.trace.length + 1)).run (reg.get fuel .root)
        (st.start key) = .finished o st' := by
      refine run_finishes (P := fun st' => ∀ key', reg.DependsOn key key' → reg.Clear key' st') ?_
        fun key' hdep => hst.start hacyclic hdep
      intro key' hasks st₁ hst₁
      obtain ⟨fuel, o, st₂, hrun⟩ := hget key' ⟨_, _, hkey, hasks⟩ (hst₁ key' ⟨_, _, hkey, hasks⟩)
      exact ⟨fuel, o, st₂, hrun, fun key'' hdep =>
        (hst₁ key'' hdep).of_keeps (respectsScopes_keeps.get hrun)⟩
    obtain ⟨fuel, o, st₁, hrun⟩ := hbody
    refine ⟨fuel, ?_⟩
    have hcall : callFactory (reg.get fuel .root) factory .root key
        ((st.record (.resolve key)).setEntry key { st.singletons key with once := .running }) =
        .finished o (st₁.record (ending key o)) := callFactory_of_run hrun
    simp only [hcall]
    cases o <;> exact ⟨_, _, rfl⟩

theorem get_root_finishes {key : String} (hacyclic : reg.AcyclicFrom key) {st : State V}
    (hst : reg.Clear key st) : ∃ fuel o st', reg.get fuel .root key st = .finished o st' := by
  induction hacyclic generalizing st with
  | intro key hacc ih =>
    cases hkey : reg.entries key with
    | none => exact ⟨1, .panicked (notRegistered key), st, by simp [get, rootGet, hkey]⟩
    | some e =>
      obtain ⟨factory, isScoped⟩ := e
      cases isScoped with
      | true =>
        have hbody : ∃ fuel o st', (factory st.trace.length).run (reg.get fuel .root)
            (st.record (.called .root key)) = .finished o st' := by
          refine run_finishes (P := reg.Clear key) ?_ (hst.of_keeps (keeps_record _ _))
          intro key' hasks st₁ hst₁
          have hdep : reg.DependsOn key key' := ⟨_, _, hkey, hasks⟩
          obtain ⟨fuel, o, st₂, hrun⟩ := ih key' hdep (hst₁.of_dependsOn hdep)
          exact ⟨fuel, o, st₂, hrun, hst₁.of_keeps (respectsScopes_keeps.get hrun)⟩
        obtain ⟨fuel, o, st₁, hrun⟩ := hbody
        refine ⟨fuel + 1, o, st₁.record (ending key o), ?_⟩
        simp [get, rootGet, hkey, callFactory, hrun]
      | false =>
        obtain ⟨fuel, o, st₁, hrun⟩ := onceDo_finishes hkey ⟨key, hacc⟩
          (fun key' hdep _ hst' => ih key' hdep hst') hst
        cases o with
        | returned _ =>
          refine ⟨fuel + 1, .returned (st₁.singletons key).value,
            st₁.record (.got key (st₁.singletons key).value), ?_⟩
          simp [get, rootGet, hkey, hrun]
        | panicked p =>
          refine ⟨fuel + 1, .panicked p, st₁, ?_⟩
          simp [get, rootGet, hkey, hrun]

/-- `Get` of a singleton ends between calls, on whichever container. -/
theorem get_singleton_finishes {key : String} (hkey : reg.IsSingleton key)
    (hacyclic : reg.AcyclicFrom key) {st : State V} (hst : Idle st) (ref : ContainerRef) :
    ∃ fuel o st', reg.get fuel ref key st = .finished o st' := by
  have hclear : reg.Clear key st := fun key' _ => hst.notRunning key'
  obtain ⟨fuel, o, st', h⟩ := get_root_finishes hacyclic hclear
  refine ⟨fuel, o, st', ?_⟩
  cases ref with
  | root => exact h
  | scope s =>
    have hscoped : ¬reg.IsScoped key := fun h => not_isSingleton_of_isScoped h hkey
    rw [get_scope_of_not_scoped hscoped]
    exact h

/-! ### Validation -/

theorem tryResolve_within {fuel fuel' : ℕ} (h : fuel ≤ fuel') (key : String)
    (e : Entry (Factory V)) (st : State V) :
    Within (reg.tryResolve fuel key e st) (reg.tryResolve fuel' key e st) := by
  unfold tryResolve
  rcases onceDo_within (fun key st => get_within h .root key st) e.factory key
    (st.record (.resolve key)) with h | h
  · rw [h]
    exact .inl rfl
  · rw [h]
    exact .inr rfl

theorem validateLoop_within {fuel fuel' : ℕ} (h : fuel ≤ fuel') (keys : List String)
    (st : State V) : Within (reg.validateLoop fuel keys st) (reg.validateLoop fuel' keys st) := by
  induction keys generalizing st with
  | nil => exact .inr rfl
  | cons key keys ih =>
    unfold validateLoop
    cases reg.entries key with
    | none => exact ih st
    | some e =>
      by_cases hscoped : e.isScoped
      · simp only [hscoped, if_true]
        exact ih st
      · simp only [hscoped]
        rcases tryResolve_within h key e st with htry | htry
        · rw [htry]
          exact .inl rfl
        · rw [htry]
          cases reg.tryResolve fuel key e st with
          | blocked => exact .inr rfl
          | outOfFuel => exact .inl rfl
          | finished o st₁ =>
            cases o with
            | panicked p => exact .inr rfl
            | returned err =>
              rcases ih st₁ with hrest | hrest
              · simp only [hrest]
                exact .inl rfl
              · simp only [hrest]
                exact .inr rfl

theorem validateLoop_finishes (hacyclic : ∀ key, reg.IsSingleton key → reg.AcyclicFrom key)
    (keys : List String) {st : State V} (hst : Idle st) :
    ∃ fuel errs st', reg.validateLoop fuel keys st = .finished (.returned errs) st' := by
  induction keys generalizing st with
  | nil => exact ⟨0, [], st, rfl⟩
  | cons key keys ih =>
    cases hkey : reg.entries key with
    | none =>
      obtain ⟨fuel, errs, st', hrest⟩ := ih hst
      exact ⟨fuel, errs, st', by simpa [validateLoop, hkey] using hrest⟩
    | some e =>
      obtain ⟨factory, isScoped⟩ := e
      cases isScoped with
      | true =>
        obtain ⟨fuel, errs, st', hrest⟩ := ih hst
        exact ⟨fuel, errs, st', by simpa [validateLoop, hkey] using hrest⟩
      | false =>
        have hfirst : ∃ fuel err st₁, reg.tryResolve fuel key ⟨factory, false⟩ st =
            .finished (.returned err) st₁ := by
          obtain ⟨fuel, o, st₁, hdo⟩ := onceDo_finishes hkey (hacyclic key ⟨factory, hkey⟩)
            (fun key' hdep _ hclear => get_root_finishes
              ((hacyclic key ⟨factory, hkey⟩).inv hdep) hclear)
            (fun key' _ => hst.notRunning key')
          cases o with
          | returned _ => exact ⟨fuel, none, st₁, by simp [tryResolve, hdo]⟩
          | panicked p => exact ⟨fuel, some (validationErr key p), st₁, by simp [tryResolve, hdo]⟩
        obtain ⟨fuel₁, err, st₁, htry⟩ := hfirst
        have hidle : Idle st₁ := by
          obtain ⟨_, _, hvisits⟩ := tryResolve_visits hkey htry
          exact (hvisits .nil).keeps.idle hst
        obtain ⟨fuel₂, errs, st₂, hrest⟩ := ih hidle
        refine ⟨max fuel₁ fuel₂, err.toList ++ errs, st₂, ?_⟩
        have htry' := (tryResolve_within (le_max_left fuel₁ fuel₂) key _ st).finished htry
        have hrest' := (validateLoop_within (le_max_right fuel₁ fuel₂) keys st₁).finished hrest
        simp [validateLoop, hkey, htry', hrest']

theorem validate_finishes (hacyclic : ∀ key, reg.IsSingleton key → reg.AcyclicFrom key)
    (order : MapOrder) {st : State V} (hst : Idle st) :
    ∃ fuel errs st', reg.validate fuel order st = .finished (.returned errs) st' := by
  obtain ⟨fuel, errs, st', h⟩ := validateLoop_finishes hacyclic (order.range reg.keys) hst
  exact ⟨fuel, errs, st'.record (.validated errs), by simp [validate, h]⟩

/-! ### Two keys -/

/-- Two registrations with the same lifetime, where the second factory asks for the first key and
passes on what it gets. -/
def chain (first second : String) (hne : first ≠ second) (b : Body V) (isScoped : Bool) :
    Registry V where
  entries key :=
    if key = first then some ⟨fun _ => b, isScoped⟩
    else if key = second then
      some ⟨fun _ => .get first fun
        | .returned v => .ret v
        | .panicked p => .panic p, isScoped⟩
    else none
  keys := [first, second]
  nodup := by simp [hne]
  mem_keys key := by
    by_cases hfirst : key = first
    · simp [hfirst]
    · by_cases hsecond : key = second
      · simp [hsecond, Ne.symm hne]
      · simp [hfirst, hsecond]

theorem chain_acyclic {first second : String} (hne : first ≠ second) {b : Body V}
    (hb : ∀ key, ¬b.Asks key) (isScoped : Bool) (key : String) :
    (chain first second hne b isScoped).AcyclicFrom key := by
  have hfirst : (chain first second hne b isScoped).AcyclicFrom first := by
    refine ⟨_, fun key' => ?_⟩
    rintro ⟨e, n, he, hasks⟩
    simp only [chain, if_true, Option.some.injEq] at he
    subst he
    exact absurd hasks (hb key')
  refine ⟨_, fun key' => ?_⟩
  rintro ⟨e, n, he, hasks⟩
  by_cases h₁ : key = first
  · exact hfirst.inv ⟨e, n, h₁ ▸ he, hasks⟩
  · by_cases h₂ : key = second
    · simp only [chain, h₂, Ne.symm hne, if_false, if_true, Option.some.injEq] at he
      subst he
      cases hasks with
      | here => exact hfirst
      | later o hasks => cases o <;> cases hasks
    · simp [chain, h₁, h₂] at he

end Registry

end

end WolfCore.DI.Resolution
