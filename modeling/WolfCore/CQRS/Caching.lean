import WolfCore.Lib.Calls
import WolfCore.Lib.Go

/-!
# Queries and commands around one cache

`withQueryCaching` looks a query up in the cache and asks its handler only on a miss, whose result
it stores. `withCommandCacheInvalidation` deletes a key once the handler of a command has
succeeded.  Handlers work on one state: that of a query reads it, and that of a command changes it,
each in one step.  The changes are counted, and a computed value has with it how many had been made
when it was computed, so that it was computed before change `m` exactly if its version is below
`m`.  The middlewares do not look at it.

Any number of threads serve calls, in any interleaving.  Entries of the cache do not expire, but the
cache may lose them; cache and handlers may fail.

A query that misses computes, and stores later what it has computed.  If a command has changed the
state and deleted the key in between, what is stored is older than the change, and later queries
return it (`old_value_returned`).  This is the only way: whenever a query that started after a
command had returned nil returns a value from before that command's change, such a value was stored
after that command had deleted the key (`read_your_writes`).
-/

namespace WolfCore.CQRS

open Go Interleave

/-! ## The application -/

/-- Queries `Q` with results in `R`, commands `C` with results in `T`, and the state both work
on. -/
structure App (C Q R S T : Type) where
  queryKey : Q → String
  commandKey : C → String
  ttl : ℤ
  compute : Q → S → R
  change : C → S → T × S

/-- A value, and the number of changes made before it was computed. -/
structure Computed (R : Type) where
  value : R
  version : ℕ
  deriving DecidableEq

inductive Call (C Q : Type)
  | query (q : Q)
  | command (c : C)

/-- What `CacheGetter.Get` returns. -/
inductive Lookup (R : Type)
  | failed (err : Err)
  | hit (x : Computed R)
  | miss

/-- The steps of a call: it arrives, uses the cache, the handlers and the logger, and returns. -/
inductive Cmd (C Q R T : Type)
  | accept
  | cacheGet (key : String)
  | cacheSet (key : String) (x : Computed R) (ttl : ℤ)
  | cacheDelete (key : String)
  | queryHandle (q : Q)
  | commandHandle (c : C)
  | warn (text key : String) (err : Err)
  | answer (q : Q) (result : Except Err (Computed R))
  | done (c : C) (result : Except Err (T × ℕ))

variable {C Q R S T : Type}

/-- The result of a command comes with the number of the change it has made. -/
abbrev Reply : Cmd C Q R T → Type
  | .accept => Call C Q
  | .cacheGet _ => Lookup R
  | .cacheSet _ _ _ => Option Err
  | .cacheDelete _ => Option Err
  | .queryHandle _ => Except Err (Computed R)
  | .commandHandle _ => Except Err (T × ℕ)
  | .warn _ _ _ => Unit
  | .answer _ _ => Unit
  | .done _ _ => Unit

/-- Programs over these steps, and what has happened. -/
abbrev Program (C Q R T α : Type) := Prog (Reply (C := C) (Q := Q) (R := R) (T := T)) α
abbrev Past (C Q R T : Type) := History (Reply (C := C) (Q := Q) (R := R) (T := T))

structure World (R S : Type) where
  state : S
  version : ℕ
  cache : String → Option (Computed R)

/-- The next call, and whether the step fails, and with or without its effect. -/
structure Choice (C Q : Type) where
  call : Call C Q
  fault : Option Err
  effect : Bool

def Choice.takesEffect (o : Choice C Q) : Bool := o.fault.isNone || o.effect

variable (app : App C Q R S T)

def exec (e : Cmd C Q R T) (o : Choice C Q) (w : World R S) : Reply e × World R S :=
  match e with
  | .accept => (o.call, w)
  | .cacheGet key =>
      match o.fault with
      | some err => (.failed err, w)
      | none => ((w.cache key).elim .miss .hit, w)
  | .cacheSet key x _ =>
      (o.fault, if o.takesEffect then { w with cache := Function.update w.cache key (some x) }
        else w)
  | .cacheDelete key =>
      (o.fault, if o.takesEffect then { w with cache := Function.update w.cache key none } else w)
  | .queryHandle q =>
      match o.fault with
      | some err => (.error err, w)
      | none => (.ok ⟨app.compute q w.state, w.version⟩, w)
  | .commandHandle c =>
      let changed := { w with state := (app.change c w.state).2, version := w.version + 1 }
      match o.fault with
      | some err => (.error err, if o.effect then changed else w)
      | none => (.ok ((app.change c w.state).1, w.version + 1), changed)
  | .warn _ _ _ => ((), w)
  | .answer _ _ => ((), w)
  | .done _ _ => ((), w)

/-! ## The middlewares -/

/-- The part of `WithQueryCaching` behind a miss. -/
def computeAndStore (key : String) (ttl : ℤ) (next : Program C Q R T (Except Err (Computed R))) :
    Program C Q R T (Except Err (Computed R)) :=
  next.bind fun result =>
    match result with
    | .error err => .pure (.error err)
    | .ok x =>
        .call (.cacheSet key x ttl) fun setErr =>
          match setErr with
          | some err => .call (.warn "cache set error" key err) fun _ => .pure (.ok x)
          | none => .pure (.ok x)

def withQueryCaching (keyFn : Q → String) (ttl : ℤ)
    (next : Q → Program C Q R T (Except Err (Computed R))) (query : Q) :
    Program C Q R T (Except Err (Computed R)) :=
  .call (.cacheGet (keyFn query)) fun found =>
    match found with
    | .failed err =>
        .call (.warn "cache get error" (keyFn query) err) fun _ => computeAndStore (keyFn query) ttl
          (next query)
    | .hit cached => .pure (.ok cached)
    | .miss => computeAndStore (keyFn query) ttl (next query)

def withCommandCacheInvalidation (keyFn : C → String)
    (next : C → Program C Q R T (Except Err (T × ℕ))) (cmd : C) :
    Program C Q R T (Except Err (T × ℕ)) :=
  (next cmd).bind fun result =>
    match result with
    | .error err => .pure (.error err)
    | .ok r =>
        .call (.cacheDelete (keyFn cmd)) fun delErr =>
          match delErr with
          | some err => .call (.warn "cache invalidation error" (keyFn cmd) err) fun _ =>
              .pure (.ok r)
          | none => .pure (.ok r)

def serve : Program C Q R T Unit :=
  .call .accept fun call =>
    match call with
    | .query q =>
        (withQueryCaching app.queryKey app.ttl (fun q => .call (.queryHandle q) .pure) q).bind
          fun result =>
          .call (.answer q result) fun _ => .pure ()
    | .command c =>
        (withCommandCacheInvalidation app.commandKey
          (fun c => .call (.commandHandle c) .pure) c).bind fun result =>
          .call (.done c result) fun _ => .pure ()

/-- Threads that serve calls; the cache may lose entries. -/
def machine : Machine (Reply (C := C) (Q := Q) (R := R) (T := T)) (World R S)
    (Choice C Q) Unit String where
  exec := exec app
  body := fun _ _ => serve app
  boot := fun _ => ()
  env := fun key w => { w with cache := Function.update w.cache key none }

def Cmd.isAccept : Cmd C Q R T → Bool
  | .accept => true
  | _ => false

/-! ## Events -/

/-- A call has made change `m` by a command with the key, and has deleted the key after that. -/
def Invalidated (h : Past C Q R T) (key : String) (m : ℕ) : Prop :=
  ∃ j c t b, ⟨j, .cacheDelete key, none⟩ :: b <:+ h ∧ app.commandKey c = key ∧
    ⟨j, .commandHandle c, .ok (t, m)⟩ ∈ since Cmd.isAccept j b

/-- A call of a query with the key has computed `x`, and has stored it after the call that made
change `m` had deleted the key. -/
def StoredLate (h : Past C Q R T) (key : String) (x : Computed R) (m : ℕ) : Prop :=
  ∃ k q ttl r b, ⟨k, .cacheSet key x ttl, r⟩ :: b <:+ h ∧ app.queryKey q = key ∧
    ⟨k, .queryHandle q, .ok x⟩ ∈ since Cmd.isAccept k b ∧ Invalidated app b key m

/-- A command with the key, which made change `m`, has returned nil. -/
def Finished (h : Past C Q R T) (key : String) (m : ℕ) : Prop :=
  ∃ j c t, app.commandKey c = key ∧ ⟨j, .done c (.ok (t, m)), ()⟩ ∈ h

/-- What a query of thread `i` may return: a value from before a change whose command had returned
nil when the query started was stored after that command had deleted the key. -/
def Admissible (i : ℕ) (h : Past C Q R T) (key : String) (x : Computed R) : Prop :=
  ∀ m, Finished app (before Cmd.isAccept i h) key m → x.version < m → StoredLate app h key x m

def Deletes (_ : ℕ) (e : Cmd C Q R T) (o : Choice C Q) (_ : World R S) (_ : Past C Q R T) : Prop :=
  ∀ key, e = .cacheDelete key → o.fault = none

variable {app} {i : ℕ} {key : String} {x : Computed R} {m : ℕ}
variable {w : World R S} {h h' : Past C Q R T}

theorem Invalidated.mono (hs : h <:+ h') (hi : Invalidated app h key m) :
    Invalidated app h' key m := by
  obtain ⟨j, c, t, b, hb, hrest⟩ := hi
  exact ⟨j, c, t, b, hb.trans hs, hrest⟩

theorem StoredLate.mono (hs : h <:+ h') (hl : StoredLate app h key x m) :
    StoredLate app h' key x m := by
  obtain ⟨k, q, ttl, r, b, hb, hrest⟩ := hl
  exact ⟨k, q, ttl, r, b, hb.trans hs, hrest⟩

/-- Only a deletion of the key adds to what has been invalidated. -/
theorem Invalidated.of_cons {ev : Logged (Reply (C := C) (Q := Q) (R := R) (T := T))}
    (hi : Invalidated app (ev :: h) key m) (hev : ev.cmd ≠ .cacheDelete key) :
    Invalidated app h key m := by
  obtain ⟨j, c, t, b, hb, hrest⟩ := hi
  rcases List.suffix_cons_iff.1 hb with heq | hb
  · exact absurd (congrArg Logged.cmd (List.cons.inj heq).1).symm hev
  · exact ⟨j, c, t, b, hb, hrest⟩

/-! ## What holds at each step -/

variable (app) in
structure Inv (w : World R S) (h : Past C Q R T) : Prop where
  changed : ∀ j c t m, ⟨j, .commandHandle c, .ok (t, m)⟩ ∈ h → m ≤ w.version
  cached : ∀ key x, w.cache key = some x → ∀ m, Invalidated app h key m → x.version < m →
    StoredLate app h key x m

variable (app) in
/-- What a thread knows when it takes a step. -/
def Pre (i : ℕ) (e : Cmd C Q R T) (h : Past C Q R T) : Prop :=
  match e with
  | .cacheSet key x _ => ∃ q, app.queryKey q = key ∧
      ⟨i, .queryHandle q, .ok x⟩ ∈ since Cmd.isAccept i h
  | .answer q (.ok x) => Admissible app i h (app.queryKey q) x
  | .done c (.ok (_, m)) => Invalidated app h (app.commandKey c) m
  | _ => True

theorem Inv.le_of_invalidated (hinv : Inv app w h) (hi : Invalidated app h key m) :
    m ≤ w.version := by
  obtain ⟨j, c, t, b, hb, -, hmem⟩ := hi
  exact hinv.changed j c t m (hb.subset (List.mem_cons_of_mem _ (mem_of_mem_since hmem)))

theorem version_le_exec (e : Cmd C Q R T) (o : Choice C Q) (w : World R S) :
    w.version ≤ (exec app e o w).2.version := by
  cases e <;> simp only [exec, le_refl]
  all_goals
    repeat' split
    all_goals simp

/-- A change gets the next number. -/
theorem Inv.changed_exec (hinv : Inv app w h) (e : Cmd C Q R T) (o : Choice C Q) {j : ℕ}
    {c : C} {t : T}
    (hmem : ⟨j, .commandHandle c, .ok (t, m)⟩ ∈ (⟨i, e, (exec app e o w).1⟩ : Logged Reply) :: h) :
    m ≤ (exec app e o w).2.version := by
  rcases List.mem_cons.1 hmem with heq | hmem
  · obtain rfl : .commandHandle c = e := congrArg Logged.cmd heq
    have hreply : Except.ok (t, m) = (exec app (.commandHandle c) o w).1 :=
      eq_of_heq (Logged.mk.inj heq).2.2
    simp only [exec] at hreply ⊢
    cases hfault : o.fault with
    | some err => simp [hfault] at hreply
    | none =>
      simp only [hfault, Except.ok.injEq, Prod.mk.injEq] at hreply
      exact hreply.2.le
  · exact (hinv.changed j c t m hmem).trans (version_le_exec e o w)

theorem cache_exec_of_ne {e : Cmd C Q R T} {o : Choice C Q}
    (hset : ∀ key x ttl, e ≠ .cacheSet key x ttl)
    (hdelete : ∀ key, e ≠ .cacheDelete key) : (exec app e o w).2.cache = w.cache := by
  cases e with
  | cacheSet key x ttl => exact absurd rfl (hset key x ttl)
  | cacheDelete key => exact absurd rfl (hdelete key)
  | _ =>
    simp only [exec]
    repeat' split
    all_goals rfl

/-- An entry of the cache after a step is stored by the step, or was there before and has not been
deleted. -/
theorem cache_exec {e : Cmd C Q R T} {o : Choice C Q} (hx : (exec app e o w).2.cache key = some x) :
    (∃ ttl, e = .cacheSet key x ttl) ∨
      (w.cache key = some x ∧ (e = .cacheDelete key → o.fault ≠ none)) := by
  cases e with
  | cacheSet key' x' ttl =>
    by_cases hwrites : o.takesEffect = true ∧ key = key'
    · obtain ⟨heffect, rfl⟩ := hwrites
      simp only [exec, heffect, if_true, Function.update_self, Option.some.injEq] at hx
      exact .inl ⟨ttl, by rw [hx]⟩
    · refine .inr ⟨?_, by simp⟩
      simp only [exec] at hx
      split at hx
      · rwa [← Function.update_of_ne (fun hkey => hwrites ⟨‹_›, hkey⟩) (some x') w.cache]
      · exact hx
  | cacheDelete key' =>
    refine .inr ?_
    simp only [exec] at hx
    split at hx
    · by_cases hkey : key = key'
      · subst hkey
        simp at hx
      · simp only [Function.update_of_ne hkey] at hx
        exact ⟨hx, fun he => absurd (Cmd.cacheDelete.inj he).symm hkey⟩
    · refine ⟨hx, fun _ hfault => ‹¬ o.takesEffect = true› ?_⟩
      simp [Choice.takesEffect, hfault]
  | _ =>
    rw [cache_exec_of_ne (by simp) (by simp)] at hx
    exact .inr ⟨hx, by simp⟩

theorem Inv.exec (hinv : Inv app w h) {e : Cmd C Q R T} {o : Choice C Q} (hpre : Pre app i e h)
    (hdeletes : Deletes i e o w h) :
    Inv app (exec app e o w).2 (⟨i, e, (CQRS.exec app e o w).1⟩ :: h) := by
  refine ⟨fun j c t m hmem => hinv.changed_exec e o hmem, fun key x hx m hi hlt => ?_⟩
  rcases cache_exec hx with ⟨ttl, rfl⟩ | ⟨hbefore, hdelete⟩
  · -- what the step stores is stored after everything that has been invalidated
    obtain ⟨q, hq, hread⟩ := hpre
    exact ⟨i, q, ttl, _, h, List.suffix_rfl, hq, hread, hi.of_cons (by simp)⟩
  · have hev : e ≠ .cacheDelete key := fun he => hdelete he (hdeletes key he)
    exact (hinv.cached key x hbefore m (hi.of_cons hev) hlt).mono (List.suffix_cons _ h)

theorem Inv.evict (hinv : Inv app w h) (key : String) :
    Inv app { w with cache := Function.update w.cache key none } h := by
  refine ⟨hinv.changed, fun key' x hx => hinv.cached key' x ?_⟩
  by_cases hkey : key' = key
  · subst hkey
    simp at hx
  · simpa [Function.update_of_ne hkey] using hx

variable (app) in
def protocol : Protocol (machine app) where
  inv := Inv app
  pre := Pre app
  idle := fun _ _ _ => True
  allowed := Deletes
  step := fun hinv _ hpre hdeletes => hinv.exec hpre hdeletes
  env := fun hinv => hinv.evict _

/-- A command that has returned nil has deleted its key after its change. -/
theorem Finished.invalidated (hkept : (protocol app).Kept h) (hf : Finished app h key m) :
    Invalidated app h key m := by
  obtain ⟨j, c, t, rfl, hmem⟩ := hf
  obtain ⟨h', hs, hpre⟩ := hkept.mem hmem
  exact Invalidated.mono hs hpre

/-! ## One call -/

theorem Admissible.others (ho : Others i h h') (ha : Admissible app i h key x) :
    Admissible app i h' key x := by
  intro m hf hlt
  rw [before_of_others ho] at hf
  obtain ⟨l, rfl, -⟩ := ho
  exact (ha m hf hlt).mono (List.suffix_append l h)

theorem Admissible.own {e : Cmd C Q R T} {r : Reply e} (he : e.isAccept = false)
    (ha : Admissible app i h key x) :
    Admissible app i (⟨i, e, r⟩ :: h) key x := by
  intro m hf hlt
  rw [before_cons he] at hf
  exact (ha m hf hlt).mono (List.suffix_cons _ h)

theorem finished_before (hf : Finished app (before Cmd.isAccept i h) key m) :
    Finished app h key m := by
  obtain ⟨j, c, t, hkey, hmem⟩ := hf
  exact ⟨j, c, t, hkey, before_suffix.subset hmem⟩

theorem admissible_hit (hinv : Inv app w h) (hkept : (protocol app).Kept h)
    (hx : w.cache key = some x) :
    Admissible app i h key x :=
  fun m hf hlt => hinv.cached key x hx m ((finished_before hf).invalidated hkept) hlt

/-- What is computed now may be returned. -/
theorem admissible_computed (hinv : Inv app w h) (hkept : (protocol app).Kept h)
    (hx : x.version = w.version) :
    Admissible app i h key x := by
  intro m hf hlt
  have hle := hinv.le_of_invalidated ((finished_before hf).invalidated hkept)
  omega

/-- What a query knows of its result. -/
def Returns (app : App C Q R S T) (i : ℕ) (key : String) (result : Except Err (Computed R))
    (_ : World R S) (h : Past C Q R T) : Prop :=
  ∀ x, result = .ok x → Admissible app i h key x

theorem safe_computeAndStore (i : ℕ) (q : Q) (w : World R S) (h : Past C Q R T) :
    Safe (protocol app).contract i (Returns app i (app.queryKey q))
      (computeAndStore (app.queryKey q) app.ttl (.call (.queryHandle q) .pure)) w h := by
  refine Protocol.safe_call fun w₁ h₁ o₁ _ hinv₁ hkept₁ _ => ⟨trivial, ?_⟩
  have hreply : ∀ x, ((machine app).exec (.queryHandle q) o₁ w₁).1 = .ok x →
      x.version = w₁.version := by
    intro x hx
    simp only [machine, exec] at hx
    cases hfault : o₁.fault with
    | some err => simp [hfault] at hx
    | none =>
      simp only [hfault, Except.ok.injEq] at hx
      rw [← hx]
  generalize ((machine app).exec (.queryHandle q) o₁ w₁).1 = result at hreply
  generalize ((machine app).exec (.queryHandle q) o₁ w₁).2 = w₁'
  cases result with
  | error err => exact Protocol.safe_pure fun _ _ _ x hx => by simp at hx
  | ok x =>
    have hok : Admissible app i (⟨i, .queryHandle q, .ok x⟩ :: h₁) (app.queryKey q) x :=
      (admissible_computed hinv₁ hkept₁ (hreply x rfl)).own rfl
    refine Protocol.safe_call fun w₂ h₂ o₂ ho₂ _ _ _ => ⟨⟨q, rfl, ?_⟩, ?_⟩
    · exact mem_since_mono ho₂ ((mem_since_cons rfl).2 (.inl rfl))
    · have hok₂ := (hok.others ho₂).own (e := .cacheSet (app.queryKey q) x app.ttl)
        (r := ((machine app).exec (.cacheSet (app.queryKey q) x app.ttl) o₂ w₂).1) rfl
      generalize ((machine app).exec (.cacheSet (app.queryKey q) x app.ttl) o₂ w₂).1 =
        setErr at hok₂ ⊢
      cases setErr with
      | none =>
        refine Protocol.safe_pure fun w₃ h₃ ho₃ x' hx' => ?_
        cases hx'
        exact hok₂.others ho₃
      | some err =>
        refine Protocol.safe_call fun w₃ h₃ o₃ ho₃ _ _ _ =>
          ⟨trivial, Protocol.safe_pure fun w₄ h₄ ho₄ x' hx' => ?_⟩
        cases hx'
        exact ((hok₂.others ho₃).own rfl).others ho₄

theorem safe_withQueryCaching (i : ℕ) (q : Q) (w : World R S) (h : Past C Q R T) :
    Safe (protocol app).contract i (Returns app i (app.queryKey q))
      (withQueryCaching app.queryKey app.ttl (fun q => .call (.queryHandle q) .pure) q) w h := by
  refine Protocol.safe_call fun w₁ h₁ o₁ _ hinv₁ hkept₁ _ => ⟨trivial, ?_⟩
  have hreply : ∀ x, ((machine app).exec (.cacheGet (app.queryKey q)) o₁ w₁).1 = .hit x →
      w₁.cache (app.queryKey q) = some x := by
    intro x hx
    simp only [machine, exec] at hx
    cases hfault : o₁.fault with
    | some err => simp [hfault] at hx
    | none =>
      cases hcached : w₁.cache (app.queryKey q) with
      | none => simp [hfault, hcached] at hx
      | some x' => simpa [hfault, hcached] using hx
  generalize ((machine app).exec (.cacheGet (app.queryKey q)) o₁ w₁).1 = found at hreply
  generalize ((machine app).exec (.cacheGet (app.queryKey q)) o₁ w₁).2 = w₁'
  cases found with
  | miss => exact safe_computeAndStore i q _ _
  | failed err => exact Protocol.safe_call fun w₂ h₂ o₂ _ _ _ _ =>
      ⟨trivial, safe_computeAndStore i q _ _⟩
  | hit x =>
    refine Protocol.safe_pure fun w₂ h₂ ho₂ x' hx' => ?_
    cases hx'
    exact ((admissible_hit hinv₁ hkept₁ (hreply x rfl)).own rfl).others ho₂

theorem safe_withCommandCacheInvalidation (i : ℕ) (c : C) (w : World R S) (h : Past C Q R T) :
    Safe (protocol app).contract i
      (fun result _ h => ∀ r, result = .ok r → Invalidated app h (app.commandKey c) r.2)
      (withCommandCacheInvalidation app.commandKey (fun c => .call (.commandHandle c) .pure) c)
        w h := by
  refine Protocol.safe_call fun w₁ h₁ o₁ _ _ _ _ => ⟨trivial, ?_⟩
  generalize ((machine app).exec (.commandHandle c) o₁ w₁).1 = result
  generalize ((machine app).exec (.commandHandle c) o₁ w₁).2 = w₁'
  cases result with
  | error err => exact Protocol.safe_pure fun _ _ _ r hr => by simp at hr
  | ok r =>
    refine Protocol.safe_call fun w₂ h₂ o₂ ho₂ _ _ hdeletes => ⟨trivial, ?_⟩
    have hreply : ((machine app).exec (.cacheDelete (app.commandKey c)) o₂ w₂).1 = none :=
      hdeletes _ rfl
    generalize ((machine app).exec (.cacheDelete (app.commandKey c)) o₂ w₂).1 = delErr at hreply
    subst hreply
    refine Protocol.safe_pure fun w₃ h₃ ho₃ r' hr' => ?_
    cases hr'
    obtain ⟨l, rfl, -⟩ := ho₃
    refine ⟨i, c, r.1, h₂, List.suffix_append l _, rfl, ?_⟩
    exact mem_since_mono ho₂ ((mem_since_cons rfl).2 (.inl rfl))

theorem safe_serve (i : ℕ) (w : World R S) (h : Past C Q R T) :
    Safe (protocol app).contract i (fun _ _ _ => True) (serve app) w h := by
  refine Protocol.safe_call fun w₁ h₁ o₁ _ _ _ _ => ⟨trivial, ?_⟩
  generalize ((machine app).exec .accept o₁ w₁).1 = call
  cases call with
  | query q =>
    refine Protocol.safe_bind (safe_withQueryCaching i q _ _) fun result w₂ h₂ _ hresult => ?_
    refine Protocol.safe_call
      fun w₃ h₃ o₃ ho₃ _ _ _ => ⟨?_, Protocol.safe_pure fun _ _ _ => trivial⟩
    cases result with
    | error err => trivial
    | ok x => exact (hresult x rfl).others ho₃
  | command c =>
    refine Protocol.safe_bind (safe_withCommandCacheInvalidation i c _ _)
      fun result w₂ h₂ _ hresult => ?_
    refine Protocol.safe_call
      fun w₃ h₃ o₃ ho₃ _ _ _ => ⟨?_, Protocol.safe_pure fun _ _ _ => trivial⟩
    cases result with
    | error err => trivial
    | ok r =>
      obtain ⟨l, rfl, -⟩ := ho₃
      exact (hresult r rfl).mono (List.suffix_append l h₂)

/-! ## Whole runs -/

variable (app) in
/-- **Reads after writes.**  In every interleaving of queries and commands in which deletions from
the cache do not fail: if a query starts after a command with its key has returned nil, and returns
a value that was computed before that command's change, then a query has stored this value after
that command had deleted the key. -/
theorem read_your_writes (w : World R S) {as : List (Action (Choice C Q) String)}
    (ha : Along (machine app) (OnStep Deletes) (.boot (machine app) w) as) {l h : Past C Q R T}
    {i : ℕ} {q : Q} {x : Computed R}
    (hist : ((Pool.boot (machine app) w).run (machine app) as).hist = l ++
      ⟨i, .answer q (.ok x), ()⟩ :: h) :
    ∀ j c t m, ⟨j, .done c (.ok (t, m)), ()⟩ ∈ before Cmd.isAccept i h →
      app.commandKey c = app.queryKey q →
      x.version < m → StoredLate app h (app.queryKey q) x m := by
  have hinv : Inv app w [] := ⟨by simp, fun key x _ m hi => by simp [Invalidated] at hi⟩
  obtain ⟨-, hkept⟩ :=
    (protocol app).run (fun _ _ => trivial) (fun i _ w h _ => safe_serve i w h) hinv ha
  rw [hist] at hkept
  intro j c t m hmem hkey hlt
  have hadmissible : Admissible app i h (app.queryKey q) x := hkept.split
  exact hadmissible m ⟨j, c, t, hkey, hmem⟩ hlt

/-! ## A price -/

/-- A price that a command sets and a query reads. -/
def price : App ℕ Unit ℕ ℕ Unit where
  queryKey := fun _ => "price"
  commandKey := fun _ => "price"
  ttl := 0
  compute := fun _ s => s
  change := fun c _ => ((), c)

/-- A step of thread `i`, when this call is the next to arrive and nothing fails. -/
def steps (n i : ℕ) (call : Call ℕ Unit) : List (Action (Choice ℕ Unit) String) :=
  List.replicate n (.step i ⟨call, none, false⟩)

/-- The price is 10, and nothing is cached. -/
def tenEuros : World ℕ ℕ := ⟨10, 0, fun _ => none⟩

/-- A query computes the old price, a command sets the new one, and only then the query stores what
it has computed; another query follows. -/
def lateStore : List (Action (Choice ℕ Unit) String) :=
  [.resume 0] ++ steps 3 0 (.query ()) ++ [.resume 1] ++ steps 4 1 (.command 12) ++ steps 2 0
    (.query ()) ++
    [.resume 2] ++ steps 3 2 (.query ())

theorem lateStore_deletes :
    Along (machine price) (OnStep Deletes) (.boot (machine price) tenEuros) lateStore := by
  refine Along.of_mem _ (fun a ha p => ?_) _
  cases a with
  | step i o =>
    have hfault : o.fault = none := by
      simp only [lateStore, steps, List.mem_append, List.mem_replicate, List.mem_singleton,
        Action.step.injEq, reduceCtorEq, or_false, false_or] at ha
      rcases ha with ((⟨-, -, rfl⟩ | ⟨-, -, rfl⟩) | ⟨-, -, rfl⟩) | ⟨-, -, rfl⟩ <;> rfl
    simp only [OnStep]
    cases p.thread i with
    | pure _ => trivial
    | call e k => exact fun _ _ => hfault
  | _ => trivial

/-- The last query starts after the command has returned nil, and returns the price from before
it. -/
theorem old_value_returned : ∃ h,
    ((Pool.boot (machine price) tenEuros).run (machine price) lateStore).hist =
      ⟨2, .answer () (.ok ⟨10, 0⟩), ()⟩ :: h ∧
    ⟨1, .done 12 (.ok ((), 1)), ()⟩ ∈ before Cmd.isAccept 2 h ∧
    Along (machine price) (OnStep Deletes) (.boot (machine price) tenEuros) lateStore :=
  ⟨_, rfl, .tail _ (.tail _ (.head _)), lateStore_deletes⟩

/-- The old price was stored after the command had deleted the key. -/
theorem read_your_writes_lateStore : ∃ h,
    ((Pool.boot (machine price) tenEuros).run (machine price) lateStore).hist =
      [] ++ ⟨2, .answer () (.ok ⟨10, 0⟩), ()⟩ :: h ∧
    StoredLate price h "price" ⟨10, 0⟩ 1 := by
  have hist : ∃ h, ((Pool.boot (machine price) tenEuros).run (machine price) lateStore).hist =
      [] ++ ⟨2, .answer () (.ok ⟨10, 0⟩), ()⟩ :: h ∧
      ⟨1, .done 12 (.ok ((), 1)), ()⟩ ∈ before Cmd.isAccept 2 h :=
    ⟨_, rfl, .tail _ (.tail _ (.head _))⟩
  obtain ⟨h, hist, hdone⟩ := hist
  exact ⟨h, hist, read_your_writes price tenEuros lateStore_deletes hist 1 12 () 1 hdone rfl
    (by decide)⟩

end WolfCore.CQRS
