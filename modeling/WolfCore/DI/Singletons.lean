import WolfCore.DI.Termination

/-!
# Singletons

`Get` of a singleton should return what its factory returned, or panic, and `Validate` should return
nil when every singleton has been built and else name all those whose construction failed.

A `sync.Once` is done also after a panic.  So a singleton whose factory panicked is not built again:
the next `Get` returns the nil value of its entry without a panic, and the next `Validate` has no
error for it. Within one `Validate` the same happens when a singleton fails as the dependency of
another one that comes earlier in the iteration order of the map.

`sound_iff_noRetry` says that nothing else goes wrong: the trace of a container is sound exactly if
no singleton was resolved again after its construction had failed.
-/

namespace WolfCore.DI.Resolution

open Go

section

variable {V : Type}

/-- How the calls of the factory of a key ended. -/
def outcomes (key : String) : List (Event V) → List (Outcome (Option V))
  | [] => []
  | .built key' v :: t => if key' = key then .returned v :: outcomes key t else outcomes key t
  | .failed key' p :: t => if key' = key then .panicked p :: outcomes key t else outcomes key t
  | _ :: t => outcomes key t

/-- No singleton is resolved after its construction has failed. -/
def NoRetry : List (Event V) → Prop
  | [] => True
  | .resolve key :: t => (∀ p, .failed key p ∉ t) ∧ NoRetry t
  | _ :: t => NoRetry t

/-- The value a singleton has after its factory has ended. -/
def latchedValue : Outcome (Option V) → Option V
  | .returned v => v
  | .panicked _ => none

theorem built_mem_iff {key : String} {v : Option V} {t : List (Event V)} :
    .built key v ∈ t ↔ .returned v ∈ outcomes key t := by
  induction t with
  | nil => simp [outcomes]
  | cons e t ih =>
    cases e with
    | built key' v' =>
      by_cases hk : key' = key
      · simp [outcomes, hk, ih]
      · simp [outcomes, hk, ih, Ne.symm hk]
    | failed key' p =>
      by_cases hk : key' = key <;> simp [outcomes, hk, ih]
    | resolve key' => simp [outcomes, ih]
    | called ref key' => simp [outcomes, ih]
    | got key' v' => simp [outcomes, ih]
    | validated errs => simp [outcomes, ih]

theorem failed_mem_iff {key p : String} {t : List (Event V)} :
    .failed key p ∈ t ↔ .panicked p ∈ outcomes key t := by
  induction t with
  | nil => simp [outcomes]
  | cons e t ih =>
    cases e with
    | failed key' p' =>
      by_cases hk : key' = key
      · simp [outcomes, hk, ih]
      · simp [outcomes, hk, ih, Ne.symm hk]
    | built key' v =>
      by_cases hk : key' = key <;> simp [outcomes, hk, ih]
    | resolve key' => simp [outcomes, ih]
    | called ref key' => simp [outcomes, ih]
    | got key' v' => simp [outcomes, ih]
    | validated errs => simp [outcomes, ih]

theorem outcomes_ending (key : String) (o : Outcome (Option V)) (t : List (Event V)) :
    outcomes key (ending key o :: t) = o :: outcomes key t := by
  cases o <;> simp [ending, outcomes]

theorem outcomes_ending_of_ne {key key' : String} (h : key ≠ key') (o : Outcome (Option V))
    (t : List (Event V)) : outcomes key' (ending key o :: t) = outcomes key' t := by
  cases o <;> simp [ending, outcomes, h]

namespace Registry

variable (reg : Registry V)

/-- What the trace should look like: a `Get` of a singleton that returns gives a value its factory
returned, and the one every earlier `Get` gave; `Validate` returns nil exactly if every singleton
has been built, and it has an error for every singleton whose construction has failed, then or
earlier. -/
def Sound : List (Event V) → Prop
  | [] => True
  | .got key v :: t => .built key v ∈ t ∧ (∀ w, .got key w ∈ t → w = v) ∧ Sound t
  | .validated errs :: t =>
      (errs = [] ↔ ∀ key, reg.IsSingleton key → ∃ v, .built key v ∈ t) ∧
      (∀ key p, reg.IsSingleton key → .failed key p ∈ t → ∃ p', validationErr key p' ∈ errs) ∧
        Sound t
  | _ :: t => Sound t

end Registry

/-- The entry of a singleton fits the trace: before it is done nothing has come of its factory, and
when it is done the factory has ended once and left its value.  What `Get` returned is the value. -/
structure Latched (key : String) (se : SingletonEntry V) (t : List (Event V)) : Prop where
  notDone : se.once ≠ .done → outcomes key t = [] ∧ se.value = none
  done : se.once = .done → ∃ o, outcomes key t = [o] ∧ se.value = latchedValue o
  got : ∀ v, .got key v ∈ t → se.once = .done ∧ v = se.value

theorem Latched.not_failed {key : String} {se : SingletonEntry V} {t : List (Event V)}
    (h : Latched key se t) (hnotDone : se.once ≠ .done) (p : String) : .failed key p ∉ t := by
  rw [failed_mem_iff, (h.notDone hnotDone).1]
  exact List.not_mem_nil

/-- A singleton that is done has been built or has failed, and not both. -/
theorem Latched.built_iff {key : String} {se : SingletonEntry V} {t : List (Event V)}
    (h : Latched key se t) (hdone : se.once = .done) :
    .built key se.value ∈ t ↔ ∀ p, .failed key p ∉ t := by
  obtain ⟨o, houtcomes, hvalue⟩ := h.done hdone
  simp only [built_mem_iff, failed_mem_iff, houtcomes, hvalue, List.mem_singleton]
  cases o with
  | returned v => simp [latchedValue]
  | panicked p => simp [latchedValue]

/-- An event that is neither the end of a factory call nor the return of a `Get`. -/
def Event.Silent : Event V → Prop
  | .resolve _ | .called _ _ | .validated _ => True
  | _ => False

theorem Latched.cons_silent {key : String} {se : SingletonEntry V} {t : List (Event V)}
    {e : Event V} (he : e.Silent) (h : Latched key se t) : Latched key se (e :: t) := by
  have houtcomes : outcomes key (e :: t) = outcomes key t := by cases e <;> first | rfl | cases he
  refine ⟨fun hn => ?_, fun hd => ?_, fun v hv => ?_⟩
  · rw [houtcomes]
    exact h.notDone hn
  · rw [houtcomes]
    exact h.done hd
  · refine h.got v ((List.mem_cons.1 hv).resolve_left ?_)
    rintro rfl
    cases he

theorem Latched.cons_ending_of_ne {key key' : String} (hne : key' ≠ key) {se : SingletonEntry V}
    {t : List (Event V)} (o : Outcome (Option V)) (h : Latched key se t) :
    Latched key se (ending key' o :: t) := by
  refine ⟨fun hn => ?_, fun hd => ?_, fun v hv => ?_⟩
  · rw [outcomes_ending_of_ne hne]
    exact h.notDone hn
  · rw [outcomes_ending_of_ne hne]
    exact h.done hd
  · refine h.got v ((List.mem_cons.1 hv).resolve_left ?_)
    cases o <;> simp [ending]

/-- The factory of a singleton that is being built ends. -/
theorem Latched.cons_ending {key : String} {se : SingletonEntry V} {t : List (Event V)}
    (hnotDone : se.once ≠ .done) (h : Latched key se t) (o : Outcome (Option V)) :
    Latched key ⟨.done, latchedValue o⟩ (ending key o :: t) := by
  refine ⟨fun hn => absurd rfl hn, fun _ => ⟨o, ?_, rfl⟩, fun v hv => ?_⟩
  · rw [outcomes_ending, (h.notDone hnotDone).1]
  · have hgot : .got key v ∈ t := by
      refine (List.mem_cons.1 hv).resolve_left ?_
      cases o <;> simp [ending]
    exact absurd (h.got v hgot).1 hnotDone

/-- `Get` of a singleton that is done returns its value. -/
theorem Latched.cons_got {key key' : String} {se se' : SingletonEntry V} {t : List (Event V)}
    (hdone : se'.once = .done) (hkey : key' = key → se' = se) (h : Latched key se t) :
    Latched key se (.got key' se'.value :: t) := by
  refine ⟨h.notDone, h.done, fun v hv => ?_⟩
  rcases List.mem_cons.1 hv with hv | hv
  · cases hv
    rw [← hkey rfl]
    exact ⟨hdone, rfl⟩
  · exact h.got v hv

namespace Registry

variable {reg : Registry V}

variable (reg) in
/-- The entries of all singletons fit the trace. -/
def Consistent (st : State V) : Prop :=
  ∀ key, reg.IsSingleton key → Latched key (st.singletons key) st.trace

variable (reg) in
def Agrees (t : List (Event V)) : Prop := reg.Sound t ↔ NoRetry t

variable (reg) in
/-- What every `Get` keeps. -/
structure Faithful (st st' : State V) : Prop where
  keeps : Keeps st st'
  consistent : reg.Consistent st → reg.Consistent st'
  agrees : reg.Consistent st → reg.Agrees st.trace → reg.Agrees st'.trace

theorem Faithful.refl (st : State V) : reg.Faithful st st :=
  ⟨Keeps.refl st, fun h => h, fun _ h => h⟩

theorem Faithful.trans {st₁ st₂ st₃ : State V} (h₁₂ : reg.Faithful st₁ st₂)
    (h₂₃ : reg.Faithful st₂ st₃) : reg.Faithful st₁ st₃ where
  keeps := h₁₂.keeps.trans h₂₃.keeps
  consistent h := h₂₃.consistent (h₁₂.consistent h)
  agrees h hagrees := h₂₃.agrees (h₁₂.consistent h) (h₁₂.agrees h hagrees)

theorem consistent_record {st : State V} (h : reg.Consistent st) {e : Event V} (he : e.Silent) :
    reg.Consistent (st.record e) :=
  fun key hkey => (h key hkey).cons_silent he

theorem agrees_called {ref : ContainerRef} {key : String} {t : List (Event V)} :
    reg.Agrees (.called ref key :: t) ↔ reg.Agrees t := Iff.rfl

theorem agrees_ending {key : String} (o : Outcome (Option V)) {t : List (Event V)} :
    reg.Agrees (ending key o :: t) ↔ reg.Agrees t := by
  cases o <;> exact Iff.rfl

theorem agrees_resolve {key : String} {t : List (Event V)} (h : ∀ p, .failed key p ∉ t) :
    reg.Agrees (.resolve key :: t) ↔ reg.Agrees t := by
  have hretry : NoRetry (.resolve key :: t) ↔ NoRetry t := ⟨fun h => h.2, fun hn => ⟨h, hn⟩⟩
  unfold Agrees
  rw [hretry]
  rfl

/-- `Get` of a singleton returns the value its factory returned. -/
theorem agrees_got {key : String} {v : Option V} {t : List (Event V)} (hbuilt : .built key v ∈ t)
    (hgot : ∀ w, .got key w ∈ t → w = v) : reg.Agrees (.got key v :: t) ↔ reg.Agrees t := by
  have hsound : reg.Sound (.got key v :: t) ↔ reg.Sound t :=
    ⟨fun h => h.2.2, fun h => ⟨hbuilt, hgot, h⟩⟩
  unfold Agrees
  rw [hsound]
  rfl

theorem isSingleton_ne {key key' : String} (h : reg.IsScoped key) (h' : reg.IsSingleton key') :
    key ≠ key' := by
  rintro rfl
  exact not_isSingleton_of_isScoped h h'

theorem consistent_ending_of_isScoped {key : String} (hkey : reg.IsScoped key) {st : State V}
    (h : reg.Consistent st) (o : Outcome (Option V)) :
    reg.Consistent (st.record (ending key o)) :=
  fun key' hkey' => (h key' hkey').cons_ending_of_ne (isSingleton_ne hkey hkey') o

theorem faithful_scopedCall {key : String} {st st₁ : State V} (o : Outcome (Option V))
    (hkey : reg.IsScoped key) (h : reg.Faithful (st.record (.called .root key)) st₁) :
    reg.Faithful st (st₁.record (ending key o)) where
  keeps := respectsScopes_keeps.scopedCall o hkey h.keeps
  consistent hst := consistent_ending_of_isScoped hkey
    (h.consistent (consistent_record hst trivial)) o
  agrees hst hagrees := (agrees_ending o).2 (h.agrees (consistent_record hst trivial) hagrees)

/-! ### The singleton is done -/

theorem faithful_again {key : String} {st : State V} (hkey : reg.IsSingleton key)
    (hdone : (st.singletons key).once = .done) :
    reg.Faithful st ((st.record (.resolve key)).record (.got key (st.singletons key).value)) where
  keeps := respectsScopes_keeps.again hkey hdone
  consistent hst key' hkey' := by
    have hlatched := (hst key' hkey').cons_silent (e := .resolve key) trivial
    exact hlatched.cons_got hdone fun heq => by subst heq; rfl
  agrees hst hagrees := by
    have hlatched := hst key hkey
    by_cases hfailed : ∀ p, .failed key p ∉ st.trace
    · have hbuilt := (hlatched.built_iff hdone).2 hfailed
      refine (agrees_got (List.mem_cons_of_mem _ hbuilt) ?_).2 ((agrees_resolve hfailed).2 hagrees)
      intro w hw
      exact (hlatched.got w (by simpa [State.record] using hw)).2
    · -- the factory panicked, so neither side holds
      constructor
      · intro hsound
        have hbuilt : .built key (st.singletons key).value ∈ st.trace := by
          simpa [State.record] using hsound.1
        exact absurd ((hlatched.built_iff hdone).1 hbuilt) hfailed
      · intro hretry
        exact absurd hretry.1 hfailed

/-! ### The singleton is built -/

theorem consistent_start {key : String} {st : State V}
    (hfresh : (st.singletons key).once = .fresh) (hst : reg.Consistent st) :
    reg.Consistent (st.start key) := by
  intro key' hkey'
  have hlatched := ((hst key' hkey').cons_silent (e := .resolve key) trivial).cons_silent
    (e := .called .root key) trivial
  by_cases hk : key' = key
  · subst hk
    have hentry : (st.start key').singletons key' =
        { st.singletons key' with once := .running } := by
      simp [State.start, State.setEntry, State.record]
    have hnotDone : (st.singletons key').once ≠ .done := by simp [hfresh]
    rw [hentry]
    refine ⟨fun _ => hlatched.notDone hnotDone, fun h => ?_, fun v hv => ?_⟩
    · cases h
    · exact absurd (hlatched.got v hv).1 hnotDone
  · rw [singletons_start_of_ne st hk]
    exact hlatched

theorem running_of_keeps_start {key : String} {st st₁ : State V} (h : Keeps (st.start key) st₁) :
    (st₁.singletons key).once ≠ .done := by
  have hrunning : (st₁.singletons key).once = .running := by
    rw [h.running]
    simp [State.start, State.setEntry, State.record]
  simp [hrunning]

theorem singletons_latch {key : String} {st : State V} (o : Outcome (Option V))
    (hvalue : (st.singletons key).value = none) :
    (st.latch key o).singletons key = ⟨.done, latchedValue o⟩ := by
  cases o <;> simp [State.latch, State.setEntry, latchedValue, hvalue]

theorem faithful_latch {key : String} {st st₁ : State V} (o : Outcome (Option V))
    (hkey : reg.IsSingleton key) (hfresh : (st.singletons key).once = .fresh)
    (h : reg.Faithful (st.start key) st₁) : reg.Faithful st (st₁.latch key o) where
  keeps := keeps_latch hfresh h.keeps o
  consistent hst key' hkey' := by
    have hst₁ := h.consistent (consistent_start hfresh hst)
    have hnotDone := running_of_keeps_start h.keeps
    rw [trace_latch]
    by_cases hk : key' = key
    · subst hk
      rw [singletons_latch o ((hst₁ key' hkey').notDone hnotDone).2]
      exact (hst₁ key' hkey').cons_ending hnotDone o
    · rw [singletons_latch_of_ne st₁ hk]
      exact (hst₁ key' hkey').cons_ending_of_ne (Ne.symm hk) o
  agrees hst hagrees := by
    rw [trace_latch, agrees_ending]
    refine h.agrees (consistent_start hfresh hst) ?_
    have hnotDone : (st.singletons key).once ≠ .done := by simp [hfresh]
    exact agrees_called.2 ((agrees_resolve ((hst key hkey).not_failed hnotDone)).2 hagrees)

theorem faithful_got {key : String} {st : State V} (v : Option V) (hkey : reg.IsSingleton key) :
    reg.Faithful (st.latch key (.returned v))
      ((st.latch key (.returned v)).record (.got key v)) where
  keeps := keeps_record _ _
  consistent hst key' hkey' := by
    have hentry : (st.latch key (.returned v)).singletons key = ⟨.done, v⟩ := by
      simp [State.latch, State.setEntry]
    show Latched key' _ (.got key (⟨.done, v⟩ : SingletonEntry V).value :: _)
    refine (hst key' hkey').cons_got rfl ?_
    rintro rfl
    exact hentry.symm
  agrees hst hagrees := by
    have hentry : (st.latch key (.returned v)).singletons key = ⟨.done, v⟩ := by
      simp [State.latch, State.setEntry]
    refine (agrees_got List.mem_cons_self fun w hw => ?_).2 hagrees
    have hlatched := ((hst key hkey).got w hw).2
    rw [hentry] at hlatched
    exact hlatched

/-! ### Every call -/

theorem faithful_unlock {s : ℕ} {key : String} {st st₁ st₂ : State V} (o : Outcome (Option V))
    (hkey : reg.IsScoped key) (hkeeps : Keeps st st₂)
    (h : reg.Faithful ((st.setLock s true).record (.called (.scope s) key)) st₁)
    (hsingletons : st₂.singletons = st₁.singletons)
    (htrace : st₂.trace = ending key o :: st₁.trace) :
    reg.Faithful st st₂ where
  keeps := hkeeps
  consistent hst key' hkey' := by
    have hst₁ := h.consistent (fun k hk => (hst k hk).cons_silent trivial)
    rw [hsingletons, htrace]
    exact (hst₁ key' hkey').cons_ending_of_ne (isSingleton_ne hkey hkey') o
  agrees hst hagrees := by
    rw [htrace, agrees_ending]
    exact h.agrees (fun k hk => (hst k hk).cons_silent trivial) hagrees

theorem respectsScopes_faithful : reg.RespectsScopes reg.Faithful where
  refl := Faithful.refl
  trans := Faithful.trans
  scopedCall o hkey h := faithful_scopedCall o hkey h
  again hkey hdone := faithful_again hkey hdone
  latch o hkey hfresh h := faithful_latch o hkey hfresh h
  got v hkey := faithful_got v hkey
  scopeBuilt v hkey hlocked h := faithful_unlock (.returned v) hkey
    (respectsScopes_keeps.scopeBuilt v hkey hlocked h.keeps) h rfl rfl
  scopeFailed p hkey hlocked h := faithful_unlock (.panicked p) hkey
    (respectsScopes_keeps.scopeFailed p hkey hlocked h.keeps) h rfl rfl

/-! ### Validation -/

theorem NoRetry.of_suffix {t t' : List (Event V)} (h : t <:+ t') (ht' : NoRetry t') :
    NoRetry t := by
  obtain ⟨l, rfl⟩ := h
  induction l with
  | nil => exact ht'
  | cons e l ih =>
    refine ih ?_
    cases e with
    | resolve key => exact ht'.2
    | _ =>
      exact ht'

/-- Nothing more comes of the factory of a singleton that is done. -/
theorem failed_of_keeps {key p : String} {st st' : State V}
    (hst : Latched key (st.singletons key) st.trace)
    (hst' : Latched key (st'.singletons key) st'.trace) (hkeeps : Keeps st st')
    (hdone : (st.singletons key).once = .done) (h : .failed key p ∈ st'.trace) :
    .failed key p ∈ st.trace := by
  have hdone' : (st'.singletons key).once = .done := by rw [hkeeps.done key hdone, hdone]
  by_contra hnot
  have hbuilt : .built key (st.singletons key).value ∈ st.trace := by
    rw [hst.built_iff hdone]
    intro p' hp'
    obtain ⟨o, houtcomes, _⟩ := hst'.done hdone'
    have hp := failed_mem_iff.1 h
    have hp'' := failed_mem_iff.1 (hkeeps.suffix.subset hp')
    rw [houtcomes, List.mem_singleton] at hp hp''
    rw [← hp''] at hp
    cases hp
    exact hnot hp'
  have hbuilt' : .built key (st'.singletons key).value ∈ st'.trace := by
    rw [hkeeps.done key hdone]
    exact hkeeps.suffix.subset hbuilt
  exact (hst'.built_iff hdone').1 hbuilt' p h

theorem Visits.consistent {keys : List String} {st st' : State V} {errs : List Err}
    (h : reg.Visits keys st errs st') (hst : reg.Consistent st) : reg.Consistent st' := by
  induction h with
  | nil => exact hst
  | skip _ _ ih => exact ih hst
  | again _ _ _ ih => exact ih (consistent_record hst trivial)
  | built v hkey hfresh hbody _ ih =>
    exact ih ((faithful_latch _ hkey hfresh
      (hbody _ respectsScopes_faithful.toRespects)).consistent hst)
  | failed p hkey hfresh hbody _ ih =>
    exact ih ((faithful_latch _ hkey hfresh
      (hbody _ respectsScopes_faithful.toRespects)).consistent hst)

/-- `Validate` leaves every singleton it visits done. -/
theorem Visits.done {keys : List String} {st st' : State V} {errs : List Err}
    (h : reg.Visits keys st errs st') {key : String} (hmem : key ∈ keys)
    (hkey : reg.IsSingleton key) : (st'.singletons key).once = .done := by
  induction h with
  | nil => cases hmem
  | skip hnot _ ih =>
    refine ih ((List.mem_cons.1 hmem).resolve_left ?_)
    rintro rfl
    exact hnot hkey
  | again _ hdone hrest ih =>
    rcases List.mem_cons.1 hmem with rfl | hmem
    · rw [hrest.keeps.done key hdone]
      exact hdone
    · exact ih hmem
  | built v _ hfresh hbody hrest ih =>
    rcases List.mem_cons.1 hmem with rfl | hmem
    · rw [hrest.keeps.done key (once_latch _ _ _)]
      exact once_latch _ _ _
    · exact ih hmem
  | failed p _ hfresh hbody hrest ih =>
    rcases List.mem_cons.1 hmem with rfl | hmem
    · rw [hrest.keeps.done key (once_latch _ _ _)]
      exact once_latch _ _ _
    · exact ih hmem

/-- Every error of `Validate` is about a singleton it visited and whose construction failed. -/
theorem Visits.error {keys : List String} {st st' : State V} {errs : List Err}
    (h : reg.Visits keys st errs st') {err : Err} (hmem : err ∈ errs) :
    ∃ key p, err = validationErr key p ∧ key ∈ keys ∧ reg.IsSingleton key ∧
      .failed key p ∈ st'.trace := by
  induction h with
  | nil => cases hmem
  | skip _ _ ih =>
    obtain ⟨key, p, herr, hkeys, hfailed⟩ := ih hmem
    exact ⟨key, p, herr, List.mem_cons_of_mem _ hkeys, hfailed⟩
  | again _ _ _ ih =>
    obtain ⟨key, p, herr, hkeys, hfailed⟩ := ih hmem
    exact ⟨key, p, herr, List.mem_cons_of_mem _ hkeys, hfailed⟩
  | built v _ _ _ _ ih =>
    obtain ⟨key, p, herr, hkeys, hfailed⟩ := ih hmem
    exact ⟨key, p, herr, List.mem_cons_of_mem _ hkeys, hfailed⟩
  | failed p hkey hfresh hbody hrest ih =>
    rcases List.mem_cons.1 hmem with rfl | hmem
    · refine ⟨_, p, rfl, List.mem_cons_self, hkey, hrest.keeps.suffix.subset ?_⟩
      rw [trace_latch]
      exact List.mem_cons_self
    · obtain ⟨key, p', herr, hkeys, hfailed⟩ := ih hmem
      exact ⟨key, p', herr, List.mem_cons_of_mem _ hkeys, hfailed⟩

/-- The errors name every visited singleton whose construction has failed. -/
def Reports (reg : Registry V) (keys : List String) (errs : List Err) (t : List (Event V)) : Prop :=
  ∀ key ∈ keys, reg.IsSingleton key → ∀ p, .failed key p ∈ t → ∃ p', validationErr key p' ∈ errs

/-- Visits that retry nothing report all failures and keep the trace sound. -/
theorem Visits.sound {keys : List String} {st st' : State V} {errs : List Err}
    (h : reg.Visits keys st errs st') (hst : reg.Consistent st) (hagrees : reg.Agrees st.trace)
    (hretry : NoRetry st'.trace) : reg.Sound st'.trace ∧ reg.Reports keys errs st'.trace := by
  induction h with
  | nil => exact ⟨hagrees.2 hretry, fun key hmem => by cases hmem⟩
  | skip hnot _ ih =>
    obtain ⟨hsound, hreports⟩ := ih hst hagrees hretry
    refine ⟨hsound, fun key hmem hkey => hreports key ((List.mem_cons.1 hmem).resolve_left ?_) hkey⟩
    rintro rfl
    exact hnot hkey
  | @again key keys st errs st' hkey hdone hrest ih =>
    have hfailed : ∀ p, .failed key p ∉ st.trace := (NoRetry.of_suffix hrest.keeps.suffix hretry).1
    have hst₁ : reg.Consistent (st.record (.resolve key)) := consistent_record hst trivial
    obtain ⟨hsound, hreports⟩ := ih hst₁ ((agrees_resolve hfailed).2 hagrees) hretry
    refine ⟨hsound, fun key' hmem hkey' p hp => ?_⟩
    rcases List.mem_cons.1 hmem with rfl | hmem
    · have hp' :=
        failed_of_keeps (hst₁ key' hkey') (hrest.consistent hst₁ key' hkey') hrest.keeps hdone hp
      exact absurd ((List.mem_cons.1 hp').resolve_left (by simp)) (hfailed p)
    · exact hreports key' hmem hkey' p hp
  | @built key keys st st₁ errs st' v hkey hfresh hbody hrest ih =>
    have hfaithful := faithful_latch (.returned v) hkey hfresh
      (hbody _ respectsScopes_faithful.toRespects)
    have hst₁ := hfaithful.consistent hst
    obtain ⟨hsound, hreports⟩ := ih hst₁ (hfaithful.agrees hst hagrees) hretry
    refine ⟨hsound, fun key' hmem hkey' p hp => ?_⟩
    rcases List.mem_cons.1 hmem with rfl | hmem
    · have hdone := once_latch st₁ key' (.returned v)
      have hp' :=
        failed_of_keeps (hst₁ key' hkey') (hrest.consistent hst₁ key' hkey') hrest.keeps hdone hp
      have hbuilt : .built key' ((st₁.latch key' (.returned v)).singletons key').value ∈
          (st₁.latch key' (.returned v)).trace := by
        simp [State.latch, State.setEntry, State.record]
      exact absurd hp' (((hst₁ key' hkey').built_iff hdone).1 hbuilt p)
    · exact hreports key' hmem hkey' p hp
  | @failed key keys st st₁ errs st' p hkey hfresh hbody hrest ih =>
    have hfaithful := faithful_latch (.panicked p) hkey hfresh
      (hbody _ respectsScopes_faithful.toRespects)
    obtain ⟨hsound, hreports⟩ :=
      ih (hfaithful.consistent hst) (hfaithful.agrees hst hagrees) hretry
    refine ⟨hsound, fun key' hmem hkey' p' hp => ?_⟩
    rcases List.mem_cons.1 hmem with rfl | hmem
    · exact ⟨p, List.mem_cons_self⟩
    · obtain ⟨p'', herr⟩ := hreports key' hmem hkey' p' hp
      exact ⟨p'', List.mem_cons_of_mem _ herr⟩

/-- Visits that report all failures, with a sound trace, retry nothing. -/
theorem Visits.noRetry {keys : List String} {st st' : State V} {errs : List Err}
    (h : reg.Visits keys st errs st') (hnodup : keys.Nodup) (hst : reg.Consistent st)
    (hagrees : reg.Agrees st.trace) (hsound : reg.Sound st'.trace)
    (hreports : reg.Reports keys errs st'.trace) : NoRetry st'.trace := by
  induction h with
  | nil => exact hagrees.1 hsound
  | skip _ _ ih =>
    exact ih (List.nodup_cons.1 hnodup).2 hst hagrees hsound
      fun key hmem => hreports key (List.mem_cons_of_mem _ hmem)
  | @again key keys st errs st' hkey hdone hrest ih =>
    obtain ⟨hnot, hnodup⟩ := List.nodup_cons.1 hnodup
    have hfailed : ∀ p, .failed key p ∉ st.trace := by
      -- the key is visited only here, so an error about it could only be reported here
      intro p hp
      obtain ⟨p', herr⟩ := hreports key List.mem_cons_self hkey p
        (hrest.keeps.suffix.subset (List.mem_cons_of_mem _ hp))
      obtain ⟨key', p'', heq, hmem, _⟩ := hrest.error herr
      cases heq
      exact hnot hmem
    exact ih hnodup (consistent_record hst trivial) ((agrees_resolve hfailed).2 hagrees) hsound
      fun key' hmem => hreports key' (List.mem_cons_of_mem _ hmem)
  | @built key keys st st₁ errs st' v hkey hfresh hbody hrest ih =>
    have hfaithful := faithful_latch (.returned v) hkey hfresh
      (hbody _ respectsScopes_faithful.toRespects)
    exact ih (List.nodup_cons.1 hnodup).2 (hfaithful.consistent hst) (hfaithful.agrees hst hagrees)
      hsound fun key' hmem => hreports key' (List.mem_cons_of_mem _ hmem)
  | @failed key keys st st₁ errs st' p hkey hfresh hbody hrest ih =>
    obtain ⟨hnot, hnodup⟩ := List.nodup_cons.1 hnodup
    have hfaithful := faithful_latch (.panicked p) hkey hfresh
      (hbody _ respectsScopes_faithful.toRespects)
    refine ih hnodup (hfaithful.consistent hst) (hfaithful.agrees hst hagrees) hsound ?_
    intro key' hmem hkey' p' hp
    obtain ⟨p'', herr⟩ := hreports key' (List.mem_cons_of_mem _ hmem) hkey' p' hp
    rcases List.mem_cons.1 herr with heq | herr
    · cases heq
      exact absurd hmem hnot
    · exact ⟨p'', herr⟩

theorem IsSingleton.mem_keys {key : String} (h : reg.IsSingleton key) : key ∈ reg.keys := by
  obtain ⟨factory, hkey⟩ := h
  rw [reg.mem_keys, hkey]
  rfl

theorem agrees_validated {keys : List String} {st st' : State V} {errs : List Err}
    (h : reg.Visits keys st errs st') (hperm : keys.Perm reg.keys) (hst : reg.Consistent st)
    (hagrees : reg.Agrees st.trace) : reg.Agrees (.validated errs :: st'.trace) := by
  have hst' := h.consistent hst
  have hmem : ∀ key, reg.IsSingleton key → key ∈ keys := fun key hkey =>
    hperm.mem_iff.2 hkey.mem_keys
  constructor
  · rintro ⟨_, hreported, hsound⟩
    exact h.noRetry (hperm.nodup_iff.2 reg.nodup) hst hagrees hsound
      fun key _ hkey p hp => hreported key p hkey hp
  · intro hretry
    obtain ⟨hsound, hreports⟩ := h.sound hst hagrees hretry
    refine ⟨⟨fun hnil key hkey => ?_, fun hbuilt => ?_⟩,
      fun key p hkey hp => hreports key (hmem key hkey) hkey p hp, hsound⟩
    · refine ⟨_, ((hst' key hkey).built_iff (h.done (hmem key hkey) hkey)).2 fun p hp => ?_⟩
      obtain ⟨p', herr⟩ := hreports key (hmem key hkey) hkey p hp
      rw [hnil] at herr
      cases herr
    · refine List.eq_nil_iff_forall_not_mem.2 fun err herr => ?_
      obtain ⟨key, p, _, hkeys, hkey, hfailed⟩ := h.error herr
      obtain ⟨v, hv⟩ := hbuilt key hkey
      obtain ⟨o, houtcomes, _⟩ := (hst' key hkey).done (h.done hkeys hkey)
      rw [failed_mem_iff, houtcomes, List.mem_singleton] at hfailed
      rw [built_mem_iff, houtcomes, List.mem_singleton, ← hfailed] at hv
      cases hv

/-- In every state that calls lead to, the entries fit the trace, and the trace is sound exactly if
nothing was retried. -/
theorem Reachable.agrees {st : State V} (h : reg.Reachable st) :
    reg.Consistent st ∧ reg.Agrees st.trace := by
  induction h with
  | new =>
    refine ⟨fun key _ => ⟨fun _ => ⟨rfl, rfl⟩, fun h => ?_, fun v hv => ?_⟩, Iff.rfl⟩
    · cases h
    · cases hv
  | get _ hget ih =>
    have hfaithful := respectsScopes_faithful.get hget
    exact ⟨hfaithful.consistent ih.1, hfaithful.agrees ih.1 ih.2⟩
  | @validate fuel order st o st' _ hvalidate ih =>
    obtain ⟨errs, st₁, _, hvisits, rfl⟩ := validate_visits hvalidate
    exact ⟨consistent_record (hvisits.consistent ih.1) trivial,
      agrees_validated hvisits (order.perm reg.keys) ih.1 ih.2⟩

/-- **Singleton soundness.**  When no cycle of dependencies can be reached from a singleton, every
`Get` of a singleton and every `Validate` ends; and after any sequence of calls, the trace is sound
exactly if no singleton was resolved after its construction had failed. -/
theorem sound_iff_noRetry (reg : Registry V)
    (hacyclic : ∀ key, reg.IsSingleton key → reg.AcyclicFrom key) {st : State V}
    (hst : reg.Reachable st) :
    (∀ ref key, reg.IsSingleton key →
      ∃ fuel o st', reg.get fuel ref key st = .finished o st') ∧
    (∀ order, ∃ fuel errs st', reg.validate fuel order st = .finished (.returned errs) st') ∧
    (reg.Sound st.trace ↔ NoRetry st.trace) :=
  ⟨fun ref _ hkey => get_singleton_finishes hkey (hacyclic _ hkey) hst.idle ref,
    fun order => validate_finishes hacyclic order hst.idle, hst.agrees.2⟩

/-- The factory of a connection that cannot be opened, and of a repository that needs it. -/
def unreachableDb : Registry ℕ := chain "db" "repo" (by simp) (.panic "dial failed") false

theorem unreachableDb_acyclic (key : String) : unreachableDb.AcyclicFrom key :=
  chain_acyclic _ (fun _ => by rintro (_ | _)) false key

/-- The state after a `Get` of the connection that panicked. -/
def dialFailed : State ℕ := ((State.new.start "db").latch "db" (.panicked "dial failed"))

theorem get_db_panics : unreachableDb.get 2 .root "db" .new =
    .finished (.panicked "dial failed") dialFailed := rfl

theorem sound_dialFailed : unreachableDb.Sound dialFailed.trace :=
  (sound_iff_noRetry unreachableDb (fun key _ => unreachableDb_acyclic key)
    (.get .new get_db_panics)).2.2.2 (by simp [dialFailed, State.latch, State.start, State.new,
      State.record, State.setEntry, NoRetry])

/-- After the panic, the next `Get` returns nil, though the factory never returned.  A `Validate`
that visits the repository first has no error for the connection, and the one after it has none at
all. -/
theorem panicked_get_returns_nil : ∃ st₁ st₂ st₃ st₄,
    unreachableDb.get 2 .root "db" .new = .finished (.panicked "dial failed") st₁ ∧
    unreachableDb.get 2 .root "db" st₁ = .finished (.returned none) st₂ ∧
    (∀ v, .built "db" v ∉ st₂.trace) ∧
    unreachableDb.validate 3 ⟨List.reverse, List.reverse_perm⟩ .new =
      .finished (.returned [validationErr "repo" "dial failed"]) st₃ ∧
    unreachableDb.validate 3 ⟨List.reverse, List.reverse_perm⟩ st₃ = .finished
      (.returned []) st₄ := by
  refine ⟨_, _, _, _, rfl, rfl, ?_, rfl, rfl⟩
  simp [ending, State.new, State.record, State.setEntry]

end Registry

end

end WolfCore.DI.Resolution
