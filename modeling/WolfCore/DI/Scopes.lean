import WolfCore.DI.Termination

/-!
# Scoped dependencies

`scopedContainer.Get` should end for every registered key when the factories depend on each other
without a cycle, and call the factory of a scoped key at most once in each scope.

It holds the mutex of the scope while the factory runs, and the factory is given the scope.  So a
scoped factory that asks its container for a scoped key, even for one that is in the cache, waits
for the mutex its own call chain holds.  Singletons are resolved through the root container, which
has no such mutex.  A factory that panics leaves nothing in the cache, so it is called again by the
next `Get`.

`scopedGet_iff` says that nothing else goes wrong in one `Get`, and `completes_iff` that nothing
does in a whole run.
-/

namespace WolfCore.DI.Resolution

open Go

section

variable {V : Type}

/-- The event is a call of the factory of the key in the scope. -/
def Event.isCall (s : ℕ) (key : String) : Event V → Bool
  | .called (.scope s') key' => s' = s ∧ key' = key
  | _ => false

/-- How often the factory of the key was called in the scope. -/
def State.calls (st : State V) (s : ℕ) (key : String) : ℕ := st.trace.countP (Event.isCall s key)

/-- What a `Get` on the root container keeps of the scopes: everything. -/
def SameScopes (st st' : State V) : Prop :=
  st'.scopes = st.scopes ∧ ∀ s key, st'.calls s key = st.calls s key

theorem SameScopes.refl (st : State V) : SameScopes st st := ⟨rfl, fun _ _ => rfl⟩

theorem SameScopes.trans {st₁ st₂ st₃ : State V} (h₁₂ : SameScopes st₁ st₂)
    (h₂₃ : SameScopes st₂ st₃) : SameScopes st₁ st₃ :=
  ⟨h₂₃.1.trans h₁₂.1, fun s key => (h₂₃.2 s key).trans (h₁₂.2 s key)⟩

namespace Registry

variable {reg : Registry V}

theorem respects_sameScopes : reg.Respects SameScopes where
  refl := SameScopes.refl
  trans := SameScopes.trans
  scopedCall o _ h := by
    refine ⟨h.1, fun s key => ?_⟩
    have hcalls := h.2 s key
    cases o <;> simpa [State.calls, State.record, ending, Event.isCall] using hcalls
  again _ _ := ⟨rfl, fun s key => by simp [State.calls, State.record, Event.isCall]⟩
  latch o _ _ h := by
    have hscopes := h.1
    refine ⟨?_, fun s key => ?_⟩
    · cases o <;> exact hscopes
    · have hcalls := h.2 s key
      cases o <;> simpa [State.calls, State.latch, State.start, State.record, State.setEntry,
        Event.isCall] using hcalls
  got v _ := ⟨rfl, fun s key => by simp [State.calls, State.record, Event.isCall]⟩

variable (reg) in
/-- The factory, from the state on, comes to a `Get` of a scoped key.  Before that it has asked for
singletons (and for keys that are not registered), which the root container resolves. -/
inductive ReachesScoped : Body V → State V → Prop
  | here {key k st} : reg.IsScoped key → ReachesScoped (.get key k) st
  | later {key k st fuel o st'} : ¬reg.IsScoped key →
      reg.get fuel .root key st = .finished o st' → ReachesScoped (k o) st' →
      ReachesScoped (.get key k) st

/-- The state in which a scoped factory starts. -/
def startScoped (st : State V) (s : ℕ) (key : String) : State V :=
  (st.setLock s true).record (.called (.scope s) key)

/-- Under the mutex of its scope, a factory that comes to a scoped key does not end. -/
theorem ReachesScoped.not_finished {b : Body V} {st : State V} (h : reg.ReachesScoped b st) {s : ℕ}
    (hlocked : (st.scopes s).locked = true) (fuel : ℕ) (o : Outcome (Option V)) (st' : State V) :
    b.run (reg.get fuel (.scope s)) st ≠ .finished o st' := by
  induction h with
  | @here key k st hkey =>
    intro hrun
    obtain ⟨factory, hentry⟩ := hkey
    cases fuel with
    | zero => cases hrun
    | succ fuel =>
      have hblocked : reg.get (fuel + 1) (.scope s) key st = .blocked := by
        simp [get, scopeGet, hentry, hlocked]
      simp [Body.run, hblocked] at hrun
  | @later key k st fuel' o' st₁ hkey hget hreach ih =>
    intro hrun
    unfold Body.run at hrun
    rw [get_scope_of_not_scoped hkey] at hrun
    cases hfirst : reg.get fuel .root key st with
    | blocked => rw [hfirst] at hrun; cases hrun
    | outOfFuel => rw [hfirst] at hrun; cases hrun
    | finished o₂ st₂ =>
      obtain ⟨rfl, rfl⟩ := get_unique hfirst hget
      rw [hfirst] at hrun
      have hkeeps := respectsScopes_keeps.get hfirst
      exact ih ((hkeeps.locked s).trans hlocked) hrun

theorem run_scope_finishes (hacyclic : ∀ key, reg.AcyclicFrom key) {b : Body V} {st : State V}
    (hclear : ∀ key, (st.singletons key).once ≠ .running) (h : ¬reg.ReachesScoped b st) (s : ℕ) :
    ∃ fuel o st', b.run (reg.get fuel (.scope s)) st = .finished o st' := by
  induction b generalizing st with
  | ret v => exact ⟨0, _, st, rfl⟩
  | panic p => exact ⟨0, _, st, rfl⟩
  | get key k ih =>
    have hkey : ¬reg.IsScoped key := fun hkey => h (.here hkey)
    obtain ⟨fuel₁, o₁, st₁, hfirst⟩ :=
      get_root_finishes (hacyclic key) fun key' _ => hclear key'
    have hkeeps := respectsScopes_keeps.get hfirst
    have hclear₁ : ∀ key', (st₁.singletons key').once ≠ .running := fun key' hrunning =>
      hclear key' ((hkeeps.running key').1 hrunning)
    obtain ⟨fuel₂, o₂, st₂, hrest⟩ := ih o₁ hclear₁ fun hreach => h (.later hkey hfirst hreach)
    refine ⟨max fuel₁ fuel₂, o₂, st₂, ?_⟩
    have hfirst' := (get_within (le_max_left fuel₁ fuel₂) .root key st).finished hfirst
    have hrest' := (Body.run_within
      (fun key st => get_within (le_max_right fuel₁ fuel₂) (.scope s) key st)
        (k o₁) st₁).finished hrest
    unfold Body.run
    rw [get_scope_of_not_scoped hkey, hfirst']
    exact hrest'

/-- A factory that comes to no scoped key leaves the scopes as they are. -/
theorem run_scope_same {b : Body V} {st st' : State V} (h : ¬reg.ReachesScoped b st) {fuel s : ℕ}
    {o : Outcome (Option V)} (hrun : b.run (reg.get fuel (.scope s)) st = .finished o st') :
    SameScopes st st' := by
  induction b generalizing st with
  | ret v => cases hrun; exact .refl _
  | panic p => cases hrun; exact .refl _
  | get key k ih =>
    have hkey : ¬reg.IsScoped key := fun hkey => h (.here hkey)
    unfold Body.run at hrun
    rw [get_scope_of_not_scoped hkey] at hrun
    cases hfirst : reg.get fuel .root key st with
    | blocked => rw [hfirst] at hrun; cases hrun
    | outOfFuel => rw [hfirst] at hrun; cases hrun
    | finished o₁ st₁ =>
      rw [hfirst] at hrun
      exact (respects_sameScopes.get_root hfirst).trans
        (ih o₁ (fun hreach => h (.later hkey hfirst hreach)) hrun)

/-- `Get` of a scoped key that is not in the cache ends when its factory does. -/
theorem get_scope_finishes {key : String} {factory : Factory V}
    (hkey : reg.entries key = some ⟨factory, true⟩) {st st₁ : State V} {s fuel : ℕ}
    {o : Outcome (Option V)} (hlocked : (st.scopes s).locked = false)
    (hvalue : (st.scopes s).values key = none)
    (hrun : (factory st.trace.length).run (reg.get fuel (.scope s)) (startScoped st s key) =
      .finished o st₁) : ∃ st', reg.get (fuel + 1) (.scope s) key st = .finished o st' := by
  have hcall : callFactory (reg.get fuel (.scope s)) factory (.scope s) key (st.setLock s true) =
      .finished o (st₁.record (ending key o)) := callFactory_of_run hrun
  cases o with
  | returned v =>
    refine ⟨((st₁.record (.built key v)).cache s key v).setLock s false, ?_⟩
    simp [get, scopeGet, hkey, hlocked, hvalue, hcall, ending]
  | panicked p =>
    refine ⟨(st₁.record (.failed key p)).setLock s false, ?_⟩
    simp [get, scopeGet, hkey, hlocked, hvalue, hcall, ending]

/-- `Get` of a scoped key that is not in the cache and that ends: the factory came to no scoped key,
it has been called once more, and no other factory has. -/
theorem get_scope_uncached {key : String} {factory : Factory V}
    (hkey : reg.entries key = some ⟨factory, true⟩) {st st' : State V} {s fuel : ℕ}
    {o : Outcome (Option V)} (hvalue : (st.scopes s).values key = none)
    (h : reg.get fuel (.scope s) key st = .finished o st') :
    ¬reg.ReachesScoped (factory st.trace.length) (startScoped st s key) ∧ ∀ s' key',
      st'.calls s' key' = st.calls s' key' + if s = s' ∧ key = key' then 1 else 0 := by
  cases fuel with
  | zero => cases h
  | succ fuel =>
    obtain ⟨_, ⟨v, hcached, _⟩ | ⟨_, st₁, hrun, hend⟩⟩ := scopeGet_cases hkey h
    · rw [hvalue] at hcached
      cases hcached
    · have hlocked : ((startScoped st s key).scopes s).locked = true := by
        simp [startScoped, State.setLock, State.record]
      have hreach : ¬reg.ReachesScoped (factory st.trace.length) (startScoped st s key) :=
        fun hreach => hreach.not_finished hlocked fuel o st₁ hrun
      refine ⟨hreach, fun s' key' => ?_⟩
      have hstart : (startScoped st s key).calls s' key' =
          st.calls s' key' + if s = s' ∧ key = key' then 1 else 0 := by
        simp [startScoped, State.calls, State.record, State.setLock, List.countP_cons, Event.isCall]
      rw [← hstart, ← (run_scope_same hreach hrun).2 s' key']
      rcases hend with ⟨v, _, rfl⟩ | ⟨p, _, rfl⟩ <;>
        simp [State.calls, State.record, State.setLock, State.cache, Event.isCall]

variable (reg) in
/-- The key is a singleton, or is in the cache, or its factory has not been called in the scope and
asks for no scoped key. -/
def Resolvable (st : State V) (s : ℕ) (key : String) (e : Entry (Factory V)) : Prop :=
  e.isScoped = false ∨ (st.scopes s).values key ≠ none ∨
    (st.calls s key = 0 ∧ ¬reg.ReachesScoped (e.factory st.trace.length) (startScoped st s key))

theorem Resolvable.get_ends {st : State V} {s : ℕ} {key : String} {e : Entry (Factory V)}
    (h : reg.Resolvable st s key e) (hacyclic : ∀ key, reg.AcyclicFrom key) (hidle : Idle st)
    (hcalls : ∀ s key, st.calls s key ≤ 1) (hkey : reg.entries key = some e) :
    ∃ fuel o st', reg.get fuel (.scope s) key st = .finished o st' ∧
      ∀ s' key', st'.calls s' key' ≤ 1 := by
  obtain ⟨factory, isScoped⟩ := e
  cases isScoped with
  | false =>
    have hsingleton : reg.IsSingleton key := ⟨factory, hkey⟩
    have hscoped : ¬reg.IsScoped key := fun h => not_isSingleton_of_isScoped h hsingleton
    obtain ⟨fuel, o, st', hget⟩ := get_singleton_finishes hsingleton (hacyclic key) hidle (.scope s)
    refine ⟨fuel, o, st', hget, fun s' key' => ?_⟩
    rw [get_scope_of_not_scoped hscoped] at hget
    rw [(respects_sameScopes.get_root hget).2]
    exact hcalls s' key'
  | true =>
    cases hvalue : (st.scopes s).values key with
    | some v =>
      refine ⟨1, .returned v, st, ?_, hcalls⟩
      simp [get, scopeGet, hkey, hidle.unlocked s, hvalue]
    | none =>
      obtain hnot | hcached | ⟨hzero, hreach⟩ := h
      · cases hnot
      · exact absurd hvalue hcached
      · have hclear : ∀ key', ((startScoped st s key).singletons key').once ≠ .running :=
          hidle.notRunning
        obtain ⟨fuel, o, st₁, hrun⟩ := run_scope_finishes hacyclic hclear hreach s
        obtain ⟨st', hget⟩ := get_scope_finishes hkey (hidle.unlocked s) hvalue hrun
        refine ⟨fuel + 1, o, st', hget, fun s' key' => ?_⟩
        rw [(get_scope_uncached hkey hvalue hget).2]
        by_cases hsame : s = s' ∧ key = key'
        · obtain ⟨rfl, rfl⟩ := hsame
          rw [if_pos ⟨rfl, rfl⟩]
          omega
        · rw [if_neg hsame]
          exact hcalls s' key'

theorem resolvable_of_get {st st' : State V} {s fuel : ℕ} {key : String} {e : Entry (Factory V)}
    (hkey : reg.entries key = some e) {o : Outcome (Option V)}
    (h : reg.get fuel (.scope s) key st = .finished o st') (honce : st'.calls s key ≤ 1) :
    reg.Resolvable st s key e := by
  obtain ⟨factory, isScoped⟩ := e
  cases isScoped with
  | false => exact .inl rfl
  | true =>
    refine .inr ?_
    by_cases hvalue : (st.scopes s).values key = none
    · obtain ⟨hreach, hmore⟩ := get_scope_uncached hkey hvalue h
      rw [hmore, if_pos ⟨rfl, rfl⟩] at honce
      exact .inr ⟨by omega, hreach⟩
    · exact .inl hvalue

/-- **Scoped resolution.**  Let the dependencies have no cycle, and let no factory have been called
twice in a scope so far.  A `Get` of a registered key on a scope ends, and leaves no factory called
twice in a scope, exactly if the key is a singleton, or is in the cache, or its factory has not been
called in the scope and asks for no scoped key. -/
theorem scopedGet_iff (reg : Registry V) (hacyclic : ∀ key, reg.AcyclicFrom key) {st : State V}
    (hst : reg.Reachable st) (hcalls : ∀ s key, st.calls s key ≤ 1) (s : ℕ) {key : String}
    {e : Entry (Factory V)} (hkey : reg.entries key = some e) :
    (∃ fuel o st', reg.get fuel (.scope s) key st = .finished o st' ∧
      ∀ s' key', st'.calls s' key' ≤ 1) ↔
    e.isScoped = false ∨ (st.scopes s).values key ≠ none ∨
      (st.calls s key = 0 ∧
        ¬reg.ReachesScoped (e.factory st.trace.length) (startScoped st s key)) := by
  constructor
  · rintro ⟨fuel, o, st', h, hcalls'⟩
    exact resolvable_of_get hkey h (hcalls' s key)
  · intro h
    exact Resolvable.get_ends h hacyclic hst.idle hcalls hkey

/-- A unit of work that needs the connection of its scope. -/
def requestRegistry : Registry ℕ := chain "conn" "uow" (by simp) (.ret (some 1)) true

theorem requestRegistry_acyclic (key : String) : requestRegistry.AcyclicFrom key :=
  chain_acyclic _ (fun _ => by rintro (_ | _)) true key

/-- The connection is resolved. -/
theorem scopedGet_conn : ∃ fuel o st',
    requestRegistry.get fuel (.scope 0) "conn" .new = .finished o st' ∧
      ∀ s key, st'.calls s key ≤ 1 := by
  refine (scopedGet_iff requestRegistry requestRegistry_acyclic .new
    (fun s key => by simp [State.calls, State.new]) 0 (e := ⟨fun _ => .ret (some 1), true⟩) rfl).2
    (.inr (.inr ⟨rfl, ?_⟩))
  rintro (_ | _)

/-- The unit of work is not: its factory asks for the connection while its own call holds the
mutex. -/
theorem scopedGet_uow_blocked : (∀ key, requestRegistry.AcyclicFrom key) ∧
    ∀ fuel, requestRegistry.get (fuel + 2) (.scope 0) "uow" .new = .blocked :=
  ⟨requestRegistry_acyclic, fun _ => rfl⟩

/-! ### Whole runs -/

section

variable (reg)

/-- The `Get`s, each on a scope, end one after the other, and no factory was called twice in a
scope. -/
def Completes : List (ℕ × String) → State V → Prop
  | [], st => ∀ s key, st.calls s key ≤ 1
  | (s, key) :: gets, st => ∃ fuel o st',
      reg.get fuel (.scope s) key st = .finished o st' ∧ Completes gets st'

/-- Each key is resolvable in the state its `Get` meets. -/
def AllResolvable : List (ℕ × String) → State V → Prop
  | [], _ => True
  | (s, key) :: gets, st => (∃ e, reg.entries key = some e ∧ reg.Resolvable st s key e) ∧
      ∀ fuel o st', reg.get fuel (.scope s) key st = .finished o st' → AllResolvable gets st'

end

theorem calls_le_of_get {st st' : State V} {fuel : ℕ} {ref : ContainerRef} {key : String}
    {o : Outcome (Option V)} (h : reg.get fuel ref key st = .finished o st') (s : ℕ)
    (key' : String) : st.calls s key' ≤ st'.calls s key' :=
  (respectsScopes_keeps.get h).suffix.sublist.countP_le

theorem Completes.calls_le {gets : List (ℕ × String)} {st : State V} (h : reg.Completes gets st)
    (s : ℕ) (key : String) : st.calls s key ≤ 1 := by
  induction gets generalizing st with
  | nil => exact h s key
  | cons get gets ih =>
    obtain ⟨fuel, o, st', hget, hrest⟩ := h
    exact (calls_le_of_get hget s key).trans (ih hrest)

/-- **Whole runs.** From every state a sequence of calls leads to, `Get`s of registered keys end one
after the other without a factory called twice in a scope, exactly if each key is resolvable when
its turn comes. -/
theorem completes_iff (hacyclic : ∀ key, reg.AcyclicFrom key) {st : State V}
    (hst : reg.Reachable st) (hcalls : ∀ s key, st.calls s key ≤ 1) {gets : List (ℕ × String)}
    (hgets : ∀ get ∈ gets, ∃ e, reg.entries get.2 = some e) :
    reg.Completes gets st ↔ reg.AllResolvable gets st := by
  induction gets generalizing st with
  | nil => exact iff_of_true hcalls trivial
  | cons get gets ih =>
    obtain ⟨s, key⟩ := get
    obtain ⟨e, hkey⟩ := hgets (s, key) List.mem_cons_self
    have hrest : ∀ get ∈ gets, ∃ e, reg.entries get.2 = some e :=
      fun get hget => hgets get (List.mem_cons_of_mem _ hget)
    constructor
    · rintro ⟨fuel, o, st', hget, hcompletes⟩
      refine ⟨⟨e, hkey, resolvable_of_get hkey hget (hcompletes.calls_le s key)⟩, ?_⟩
      intro fuel' o' st₁ hget'
      obtain ⟨-, rfl⟩ := get_unique hget hget'
      exact (ih (hst.get hget) hcompletes.calls_le hrest).1 hcompletes
    · rintro ⟨⟨e', hkey', hresolvable⟩, hnext⟩
      obtain ⟨fuel, o, st', hget, hcalls'⟩ :=
        hresolvable.get_ends hacyclic hst.idle hcalls hkey'
      exact ⟨fuel, o, st', hget, (ih (hst.get hget) hcalls' hrest).2 (hnext fuel o st' hget)⟩

end Registry

end

end WolfCore.DI.Resolution
