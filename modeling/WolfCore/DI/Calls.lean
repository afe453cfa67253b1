import WolfCore.DI.Resolution

/-!
# What a call does to a container

`Respects` is the invariant rule of the interpreter: a preorder on states that goes from before to
after the call of a factory goes from before to after every `Get`.  The first use of the rule is
`Keeps`: when a call has ended, what was being built and what was locked is what it was before.  So
between calls nothing is.
-/

namespace WolfCore.DI.Resolution

open Go

section

variable {V : Type}

/-! ### What a call does to the state -/

/-- The state in which the factory of a singleton starts. -/
def State.start (st : State V) (key : String) : State V :=
  ((st.record (.resolve key)).setEntry key { st.singletons key with once := .running }).record
    (.called .root key)

/-- The state after the factory of a singleton has ended. -/
def State.latch (st : State V) (key : String) : Outcome (Option V) → State V
  | .returned v => (st.record (.built key v)).setEntry key ⟨.done, v⟩
  | .panicked p => (st.record (.failed key p)).setEntry key { st.singletons key with once := .done }

theorem callFactory_of_run {get : String → State V → Result V (Option V)} {factory : Factory V}
    {ref : ContainerRef} {key : String} {st st₁ : State V} {o : Outcome (Option V)}
    (h : (factory st.trace.length).run get (st.record (.called ref key)) = .finished o st₁) :
    callFactory get factory ref key st = .finished o (st₁.record (ending key o)) := by
  rw [callFactory, h]

theorem callFactory_finished {get : String → State V → Result V (Option V)} {factory : Factory V}
    {ref : ContainerRef} {key : String} {st st' : State V} {o : Outcome (Option V)}
    (h : callFactory get factory ref key st = .finished o st') :
    ∃ st₁, (factory st.trace.length).run get (st.record (.called ref key)) = .finished o st₁ ∧
      st' = st₁.record (ending key o) := by
  unfold callFactory at h
  cases hrun : (factory st.trace.length).run get (st.record (.called ref key)) with
  | blocked => rw [hrun] at h; cases h
  | outOfFuel => rw [hrun] at h; cases h
  | finished o₁ st₁ =>
    rw [hrun] at h
    cases h
    exact ⟨st₁, rfl, rfl⟩

theorem onceDo_cases {get : String → State V → Result V (Option V)} {factory : Factory V}
    {key : String} {st st' : State V} {o : Outcome Unit}
    (h : onceDo get factory key (st.record (.resolve key)) = .finished o st') :
    ((st.singletons key).once = .done ∧ o = .returned () ∧ st' = st.record (.resolve key)) ∨
    ((st.singletons key).once = .fresh ∧ ∃ o₁ st₁,
      (factory (st.trace.length + 1)).run get (st.start key) = .finished o₁ st₁ ∧
      st' = st₁.latch key o₁ ∧
      ((∃ v, o₁ = .returned v ∧ o = .returned ()) ∨ ∃ p, o₁ = .panicked p ∧ o = .panicked p)) := by
  unfold onceDo at h
  have hentry : (st.record (.resolve key)).singletons key = st.singletons key := rfl
  rw [hentry] at h
  cases honce : (st.singletons key).once with
  | done =>
    rw [honce] at h
    cases h
    exact .inl ⟨rfl, rfl, rfl⟩
  | running =>
    rw [honce] at h
    cases h
  | fresh =>
    rw [honce] at h
    refine .inr ⟨rfl, ?_⟩
    cases hcall : callFactory get factory .root key
        ((st.record (.resolve key)).setEntry key { st.singletons key with once := .running }) with
    | blocked => simp only [hcall] at h; cases h
    | outOfFuel => simp only [hcall] at h; cases h
    | finished o₁ st₁ =>
      simp only [hcall] at h
      obtain ⟨st₂, hrun, rfl⟩ := callFactory_finished hcall
      refine ⟨o₁, st₂, hrun, ?_⟩
      cases o₁ with
      | returned v =>
        cases h
        exact ⟨rfl, .inl ⟨v, rfl, rfl⟩⟩
      | panicked p =>
        cases h
        exact ⟨rfl, .inr ⟨p, rfl, rfl⟩⟩

namespace Registry

variable (reg : Registry V)

/-- A relation between the states before and after that every `Get` on the root container respects:
it is a preorder, and it goes from before to after the call of a factory, singleton or scoped, when
it holds over what the factory does. -/
structure Respects (R : State V → State V → Prop) : Prop where
  refl : ∀ st, R st st
  trans : ∀ {st₁ st₂ st₃}, R st₁ st₂ → R st₂ st₃ → R st₁ st₃
  scopedCall : ∀ {key st st₁} o, reg.IsScoped key → R (st.record (.called .root key)) st₁ →
    R st (st₁.record (ending key o))
  again : ∀ {key st}, reg.IsSingleton key → (st.singletons key).once = .done →
    R st ((st.record (.resolve key)).record (.got key (st.singletons key).value))
  latch : ∀ {key st st₁} o, reg.IsSingleton key → (st.singletons key).once = .fresh →
    R (st.start key) st₁ → R st (st₁.latch key o)
  got : ∀ {key} {st : State V} v, reg.IsSingleton key →
    R (st.latch key (.returned v)) ((st.latch key (.returned v)).record (.got key v))

end Registry

theorem Body.run_respects {R : State V → State V → Prop} (hrefl : ∀ st, R st st)
    (htrans : ∀ {st₁ st₂ st₃}, R st₁ st₂ → R st₂ st₃ → R st₁ st₃)
    {get : String → State V → Result V (Option V)}
    (hget : ∀ key st o st', get key st = .finished o st' → R st st') {b : Body V} {st st' : State V}
    {o : Outcome (Option V)} (h : b.run get st = .finished o st') : R st st' := by
  induction b generalizing st with
  | ret v => cases h; exact hrefl _
  | panic p => cases h; exact hrefl _
  | get key k ih =>
    unfold Body.run at h
    cases hkey : get key st with
    | blocked => rw [hkey] at h; cases h
    | outOfFuel => rw [hkey] at h; cases h
    | finished o₁ st₁ =>
      rw [hkey] at h
      exact htrans (hget key st o₁ st₁ hkey) (ih o₁ h)

namespace Registry

variable {reg : Registry V} {R : State V → State V → Prop}

theorem Respects.rootGet (hR : reg.Respects R) {get : String → State V → Result V (Option V)}
    (hget : ∀ key st o st', get key st = .finished o st' → R st st') {key : String}
    {st st' : State V} {o : Outcome (Option V)} (h : reg.rootGet get key st = .finished o st') :
    R st st' := by
  unfold Registry.rootGet at h
  cases hkey : reg.entries key with
  | none =>
    rw [hkey] at h
    cases h
    exact hR.refl st
  | some e =>
    obtain ⟨factory, isScoped⟩ := e
    simp only [hkey] at h
    cases isScoped with
    | true =>
      obtain ⟨st₁, hrun, rfl⟩ := callFactory_finished h
      exact hR.scopedCall o ⟨factory, hkey⟩ (Body.run_respects hR.refl hR.trans hget hrun)
    | false =>
      simp only [Bool.false_eq_true, if_false] at h
      cases hdo : onceDo get factory key (st.record (.resolve key)) with
      | blocked => rw [hdo] at h; cases h
      | outOfFuel => rw [hdo] at h; cases h
      | finished o₁ st₁ =>
        rw [hdo] at h
        rcases onceDo_cases hdo with ⟨hdone, rfl, rfl⟩ | ⟨hfresh, o₂, st₂, hrun, rfl, ho⟩
        · cases h
          exact hR.again ⟨factory, hkey⟩ hdone
        · have hlatch := hR.latch o₂ ⟨factory, hkey⟩ hfresh
            (Body.run_respects hR.refl hR.trans hget hrun)
          rcases ho with ⟨v, rfl, rfl⟩ | ⟨p, rfl, rfl⟩
          · cases h
            have hvalue : ((st₂.latch key (.returned v)).singletons key).value = v := by
              simp [State.latch, State.setEntry]
            rw [hvalue]
            exact hR.trans hlatch (hR.got v ⟨factory, hkey⟩)
          · cases h
            exact hlatch

/-- Every `Get` on the root container respects the relation. -/
theorem Respects.get_root (hR : reg.Respects R) {fuel : ℕ} {key : String} {st st' : State V}
    {o : Outcome (Option V)} (h : reg.get fuel .root key st = .finished o st') : R st st' := by
  induction fuel generalizing key st o st' with
  | zero => cases h
  | succ fuel ih => exact hR.rootGet (fun _ _ _ _ => ih) h

/-- `Get` of a key that is not scoped does the same on a scope as on the root container. -/
theorem get_scope_of_not_scoped {key : String} (h : ¬reg.IsScoped key) (fuel s : ℕ)
    (st : State V) : reg.get fuel (.scope s) key st = reg.get fuel .root key st := by
  cases fuel with
  | zero => rfl
  | succ fuel =>
    show reg.scopeGet (reg.get fuel) s key st = reg.rootGet (reg.get fuel .root) key st
    unfold scopeGet
    cases hkey : reg.entries key with
    | none => simp [rootGet, hkey]
    | some e =>
      obtain ⟨factory, isScoped⟩ := e
      cases isScoped with
      | true => exact absurd ⟨factory, hkey⟩ h
      | false => rfl

/-- A relation that every `Get` respects, also on a scope: it goes from before to after the call of
a scoped factory under the scope's mutex. -/
structure RespectsScopes (reg : Registry V) (R : State V → State V → Prop) : Prop
    extends Respects reg R where
  scopeBuilt : ∀ {s key st st₁} v, reg.IsScoped key → (st.scopes s).locked = false →
    R ((st.setLock s true).record (.called (.scope s) key)) st₁ →
    R st (((st₁.record (.built key v)).cache s key v).setLock s false)
  scopeFailed : ∀ {s key st st₁} p, reg.IsScoped key → (st.scopes s).locked = false →
    R ((st.setLock s true).record (.called (.scope s) key)) st₁ →
    R st ((st₁.record (.failed key p)).setLock s false)

theorem scopeGet_cases {get : ContainerRef → String → State V → Result V (Option V)} {s : ℕ}
    {key : String} {factory : Factory V} (hkey : reg.entries key = some ⟨factory, true⟩)
    {st st' : State V} {o : Outcome (Option V)} (h : reg.scopeGet get s key st = .finished o st') :
    (st.scopes s).locked = false ∧
    ((∃ v, (st.scopes s).values key = some v ∧ o = .returned v ∧ st' = st) ∨
    ((st.scopes s).values key = none ∧ ∃ st₁,
      (factory st.trace.length).run (get (.scope s))
        ((st.setLock s true).record (.called (.scope s) key)) = .finished o st₁ ∧
      ((∃ v, o = .returned v ∧
        st' = ((st₁.record (.built key v)).cache s key v).setLock s false) ∨
      ∃ p, o = .panicked p ∧ st' = (st₁.record (.failed key p)).setLock s false))) := by
  unfold scopeGet at h
  simp only [hkey, Bool.not_true, Bool.false_eq_true, if_false] at h
  by_cases hlocked : (st.scopes s).locked
  · simp only [hlocked, if_true] at h
    cases h
  · refine ⟨by simpa using hlocked, ?_⟩
    simp only [hlocked] at h
    cases hvalue : (st.scopes s).values key with
    | some v =>
      rw [hvalue] at h
      cases h
      exact .inl ⟨v, rfl, rfl, rfl⟩
    | none =>
      rw [hvalue] at h
      refine .inr ⟨rfl, ?_⟩
      cases hcall : callFactory (get (.scope s)) factory (.scope s) key (st.setLock s true) with
      | blocked => rw [hcall] at h; cases h
      | outOfFuel => rw [hcall] at h; cases h
      | finished o₁ st₁ =>
        rw [hcall] at h
        obtain ⟨st₂, hrun, rfl⟩ := callFactory_finished hcall
        cases o₁ with
        | returned v =>
          cases h
          exact ⟨st₂, hrun, .inl ⟨v, rfl, rfl⟩⟩
        | panicked p =>
          cases h
          exact ⟨st₂, hrun, .inr ⟨p, rfl, rfl⟩⟩

theorem RespectsScopes.get (hR : reg.RespectsScopes R) {fuel : ℕ} {ref : ContainerRef}
    {key : String} {st st' : State V} {o : Outcome (Option V)}
    (h : reg.get fuel ref key st = .finished o st') : R st st' := by
  induction fuel generalizing ref key st o st' with
  | zero => cases h
  | succ fuel ih =>
    cases ref with
    | root => exact hR.toRespects.get_root h
    | scope s =>
      by_cases hscoped : reg.IsScoped key
      · obtain ⟨factory, hkey⟩ := hscoped
        obtain ⟨hlocked, ⟨v, _, _, rfl⟩ | ⟨_, st₁, hrun, hend⟩⟩ := scopeGet_cases hkey h
        · exact hR.refl _
        · have hbody := Body.run_respects hR.refl hR.trans (fun _ _ _ _ => ih) hrun
          rcases hend with ⟨v, _, rfl⟩ | ⟨p, _, rfl⟩
          · exact hR.scopeBuilt v ⟨factory, hkey⟩ hlocked hbody
          · exact hR.scopeFailed p ⟨factory, hkey⟩ hlocked hbody
      · rw [get_scope_of_not_scoped hscoped] at h
        exact hR.toRespects.get_root h

/-! ### What stays -/

/-- What every call keeps: the trace only grows, the same singletons are being built and the same
scopes locked before and after, and a singleton that is done stays as it is. -/
structure Keeps (st st' : State V) : Prop where
  suffix : st.trace <:+ st'.trace
  running : ∀ key, (st'.singletons key).once = .running ↔ (st.singletons key).once = .running
  done : ∀ key, (st.singletons key).once = .done → st'.singletons key = st.singletons key
  locked : ∀ s, (st'.scopes s).locked = (st.scopes s).locked

theorem Keeps.refl (st : State V) : Keeps st st :=
  ⟨List.suffix_refl _, fun _ => Iff.rfl, fun _ _ => rfl, fun _ => rfl⟩

theorem Keeps.trans {st₁ st₂ st₃ : State V} (h₁₂ : Keeps st₁ st₂) (h₂₃ : Keeps st₂ st₃) :
    Keeps st₁ st₃ where
  suffix := h₁₂.suffix.trans h₂₃.suffix
  running key := (h₂₃.running key).trans (h₁₂.running key)
  done key hdone := by
    have heq := h₁₂.done key hdone
    rw [← heq] at hdone
    rw [h₂₃.done key hdone, heq]
  locked s := (h₂₃.locked s).trans (h₁₂.locked s)

theorem keeps_record (st : State V) (e : Event V) : Keeps st (st.record e) :=
  ⟨List.suffix_cons _ _, fun _ => Iff.rfl, fun _ _ => rfl, fun _ => rfl⟩

theorem once_latch (st : State V) (key : String) (o : Outcome (Option V)) :
    ((st.latch key o).singletons key).once = .done := by
  cases o <;> simp [State.latch, State.setEntry]

theorem singletons_latch_of_ne (st : State V) {key key' : String} (h : key' ≠ key)
    (o : Outcome (Option V)) : (st.latch key o).singletons key' = st.singletons key' := by
  cases o <;> simp [State.latch, State.setEntry, State.record, h]

theorem singletons_start_of_ne (st : State V) {key key' : String} (h : key' ≠ key) :
    (st.start key).singletons key' = st.singletons key' := by
  simp [State.start, State.setEntry, State.record, h]

theorem trace_latch (st : State V) (key : String) (o : Outcome (Option V)) :
    (st.latch key o).trace = ending key o :: st.trace := by
  cases o <;> rfl

theorem keeps_latch {st st₁ : State V} {key : String} (hfresh : (st.singletons key).once = .fresh)
    (h : Keeps (st.start key) st₁) (o : Outcome (Option V)) : Keeps st (st₁.latch key o) where
  suffix := by
    have hstart : st.trace <:+ (st.start key).trace :=
      (List.suffix_cons _ _).trans (List.suffix_cons _ _)
    rw [trace_latch]
    exact (hstart.trans h.suffix).trans (List.suffix_cons _ _)
  running key' := by
    by_cases hk : key' = key
    · subst hk
      rw [once_latch, hfresh]
      simp
    · rw [singletons_latch_of_ne _ hk, h.running, singletons_start_of_ne _ hk]
  done key' hdone := by
    have hk : key' ≠ key := by
      rintro rfl
      rw [hfresh] at hdone
      cases hdone
    rw [← singletons_start_of_ne st hk] at hdone
    rw [singletons_latch_of_ne _ hk, h.done _ hdone, singletons_start_of_ne _ hk]
  locked s := by
    have hscopes : (st₁.latch key o).scopes = st₁.scopes := by cases o <;> rfl
    rw [hscopes, h.locked]
    rfl

theorem keeps_unlock {s : ℕ} {key : String} {st st₁ st₂ : State V}
    (hlocked : (st.scopes s).locked = false)
    (h : Keeps ((st.setLock s true).record (.called (.scope s) key)) st₁)
    (h₂ : Keeps st₁ st₂) : Keeps st (st₂.setLock s false) where
  suffix := ((List.suffix_cons _ _).trans h.suffix).trans h₂.suffix
  running key' := (h₂.running key').trans (h.running key')
  done key' hdone := (h.trans h₂).done key' hdone
  locked s' := by
    by_cases hs : s' = s
    · subst hs
      simp [State.setLock, hlocked]
    · have hother := (h.trans h₂).locked s'
      simp only [State.setLock, State.record, Function.update_of_ne hs] at hother ⊢
      exact hother

theorem keeps_cache (st : State V) (s : ℕ) (key : String) (v : Option V) :
    Keeps st (st.cache s key v) where
  suffix := List.suffix_refl _
  running _ := Iff.rfl
  done _ _ := rfl
  locked s' := by
    by_cases hs : s' = s
    · subst hs
      simp [State.cache]
    · simp [State.cache, hs]

theorem respectsScopes_keeps : reg.RespectsScopes Keeps where
  refl := Keeps.refl
  trans := Keeps.trans
  scopedCall _ _ h := ((keeps_record _ _).trans h).trans (keeps_record _ _)
  again _ _ := (keeps_record _ _).trans (keeps_record _ _)
  latch o _ hfresh h := keeps_latch hfresh h o
  got _ _ := keeps_record _ _
  scopeBuilt v _ hlocked h :=
    keeps_unlock hlocked h ((keeps_record _ _).trans (keeps_cache _ _ _ v))
  scopeFailed _ _ hlocked h := keeps_unlock hlocked h (keeps_record _ _)

/-! ### Validation -/

variable (reg) in
/-- What the loop of `Validate` does: it skips the scoped keys, finds a singleton done, or calls its
factory, whose panic becomes an error.  All the factory does is to call `Get` on the root
container. -/
inductive Visits : List String → State V → List Err → State V → Prop
  | nil {st} : Visits [] st [] st
  | skip {key keys st errs st'} : ¬reg.IsSingleton key → Visits keys st errs st' →
      Visits (key :: keys) st errs st'
  | again {key keys st errs st'} : reg.IsSingleton key → (st.singletons key).once = .done →
      Visits keys (st.record (.resolve key)) errs st' → Visits (key :: keys) st errs st'
  | built {key keys st st₁ errs st'} v : reg.IsSingleton key → (st.singletons key).once = .fresh →
      (∀ R, reg.Respects R → R (st.start key) st₁) →
      Visits keys (st₁.latch key (.returned v)) errs st' → Visits (key :: keys) st errs st'
  | failed {key keys st st₁ errs st'} p : reg.IsSingleton key →
      (st.singletons key).once = .fresh → (∀ R, reg.Respects R → R (st.start key) st₁) →
      Visits keys (st₁.latch key (.panicked p)) errs st' →
      Visits (key :: keys) st (validationErr key p :: errs) st'

theorem not_isSingleton_of_none {key : String} (h : reg.entries key = none) :
    ¬reg.IsSingleton key := by
  rintro ⟨factory, hkey⟩
  rw [h] at hkey
  cases hkey

theorem not_isSingleton_of_isScoped {key : String} (h : reg.IsScoped key) :
    ¬reg.IsSingleton key := by
  rintro ⟨factory, hkey⟩
  obtain ⟨factory', hkey'⟩ := h
  rw [hkey] at hkey'
  cases hkey'

/-- `tryResolve` never panics, and it ends as `once.Do` does. -/
theorem tryResolve_visits {fuel : ℕ} {key : String} {factory : Factory V}
    (hkey : reg.entries key = some ⟨factory, false⟩) {st st₁ : State V} {o : Outcome (Option Err)}
    (h : reg.tryResolve fuel key ⟨factory, false⟩ st = .finished o st₁) :
    ∃ err, o = .returned err ∧ ∀ {keys errs st'}, reg.Visits keys st₁ errs st' →
      reg.Visits (key :: keys) st (err.toList ++ errs) st' := by
  have hsingleton : reg.IsSingleton key := ⟨factory, hkey⟩
  unfold tryResolve at h
  cases hdo : onceDo (reg.get fuel .root) factory key (st.record (.resolve key)) with
  | blocked => rw [hdo] at h; cases h
  | outOfFuel => rw [hdo] at h; cases h
  | finished o₁ st₂ =>
    rw [hdo] at h
    rcases onceDo_cases hdo with ⟨hdone, rfl, rfl⟩ | ⟨hfresh, o₂, st₂, hrun, rfl, ho⟩
    · cases h
      exact ⟨none, rfl, fun hvisits => .again hsingleton hdone hvisits⟩
    · have hbody : ∀ R, reg.Respects R → R (st.start key) st₂ := fun R hR =>
        Body.run_respects hR.refl hR.trans (fun _ _ _ _ => hR.get_root) hrun
      rcases ho with ⟨v, rfl, rfl⟩ | ⟨p, rfl, rfl⟩
      · cases h
        exact ⟨none, rfl, fun hvisits => .built v hsingleton hfresh hbody hvisits⟩
      · cases h
        exact ⟨_, rfl, fun hvisits => .failed p hsingleton hfresh hbody hvisits⟩

theorem visits_of_validateLoop {fuel : ℕ} {keys : List String} {st st' : State V}
    {o : Outcome (List Err)} (h : reg.validateLoop fuel keys st = .finished o st') :
    ∃ errs, o = .returned errs ∧ reg.Visits keys st errs st' := by
  induction keys generalizing st o with
  | nil =>
    cases h
    exact ⟨[], rfl, .nil⟩
  | cons key keys ih =>
    unfold validateLoop at h
    cases hkey : reg.entries key with
    | none =>
      rw [hkey] at h
      obtain ⟨errs, ho, hvisits⟩ := ih h
      exact ⟨errs, ho, .skip (not_isSingleton_of_none hkey) hvisits⟩
    | some e =>
      obtain ⟨factory, isScoped⟩ := e
      rw [hkey] at h
      cases isScoped with
      | true =>
        obtain ⟨errs, ho, hvisits⟩ := ih h
        exact ⟨errs, ho, .skip (not_isSingleton_of_isScoped ⟨factory, hkey⟩) hvisits⟩
      | false =>
        simp only [Bool.false_eq_true, if_false] at h
        cases htry : reg.tryResolve fuel key ⟨factory, false⟩ st with
        | blocked => rw [htry] at h; cases h
        | outOfFuel => rw [htry] at h; cases h
        | finished o₁ st₁ =>
          obtain ⟨err, rfl, hfirst⟩ := tryResolve_visits hkey htry
          simp only [htry] at h
          cases hrest : reg.validateLoop fuel keys st₁ with
          | blocked => rw [hrest] at h; cases h
          | outOfFuel => rw [hrest] at h; cases h
          | finished o₂ st₂ =>
            rw [hrest] at h
            cases o₂ with
            | panicked p =>
              obtain ⟨errs, ho, _⟩ := ih (hrest.trans (by cases h; rfl))
              cases ho
            | returned errs =>
              cases h
              obtain ⟨errs', ho, hvisits⟩ := ih hrest
              cases ho
              exact ⟨_, rfl, hfirst hvisits⟩

theorem Visits.keeps {keys : List String} {st st' : State V} {errs : List Err}
    (h : reg.Visits keys st errs st') : Keeps st st' := by
  induction h with
  | nil => exact Keeps.refl _
  | skip _ _ ih => exact ih
  | again _ _ _ ih => exact (keeps_record _ _).trans ih
  | built v _ hfresh hbody _ ih =>
    exact (keeps_latch hfresh (hbody _ respectsScopes_keeps.toRespects) _).trans ih
  | failed p _ hfresh hbody _ ih =>
    exact (keeps_latch hfresh (hbody _ respectsScopes_keeps.toRespects) _).trans ih

/-- `Validate` is the loop over all keys, and the event that it has returned. -/
theorem validate_visits {fuel : ℕ} {order : MapOrder} {st st' : State V} {o : Outcome (List Err)}
    (h : reg.validate fuel order st = .finished o st') :
    ∃ errs st₁, o = .returned errs ∧ reg.Visits (order.range reg.keys) st errs st₁ ∧
      st' = st₁.record (.validated errs) := by
  unfold validate at h
  cases hloop : reg.validateLoop fuel (order.range reg.keys) st with
  | blocked => rw [hloop] at h; cases h
  | outOfFuel => rw [hloop] at h; cases h
  | finished o₁ st₁ =>
    obtain ⟨errs, rfl, hvisits⟩ := visits_of_validateLoop hloop
    rw [hloop] at h
    cases h
    exact ⟨errs, st₁, rfl, hvisits, rfl⟩

/-! ### Between calls -/

/-- Nothing is being built and no scope is locked. -/
structure Idle (st : State V) : Prop where
  notRunning : ∀ key, (st.singletons key).once ≠ .running
  unlocked : ∀ s, (st.scopes s).locked = false

theorem Keeps.idle {st st' : State V} (h : Keeps st st') (hst : Idle st) : Idle st' where
  notRunning key hrunning := hst.notRunning key ((h.running key).1 hrunning)
  unlocked s := (h.locked s).trans (hst.unlocked s)

theorem Reachable.idle {st : State V} (h : reg.Reachable st) : Idle st := by
  induction h with
  | new => exact ⟨fun _ => by simp [State.new], fun _ => rfl⟩
  | get _ hget ih => exact (respectsScopes_keeps.get hget).idle ih
  | validate _ hvalidate ih =>
    obtain ⟨errs, st₁, _, hvisits, rfl⟩ := validate_visits hvalidate
    exact (hvisits.keeps.trans (keeps_record _ _)).idle ih

end Registry

end

end WolfCore.DI.Resolution
