import WolfCore.Middleware.Transaction

/-!
# Which transaction a request is given

`db.conn` is registered through the scoped container, and `scopedContainer.AddScoped` registers
in the shared root; so a `Get("db.conn")` finds the factory of whichever request registered last,
unless its own scope has already cached a connection.

`getsOwn_iff_undisturbed` says exactly when every `Get("db.conn")` of a run returns the
transaction of its own request: whenever the first such `Get` of a request looks the key up, the
last request that registered it is this one.  The invariant `Inv` keeps, next to the book-keeping
of scopes and transactions, what the registry holds in terms of the history.
-/

namespace WolfCore.Middleware

open Go DI Interleave

/-- Request `i` began the transaction `t`. -/
def Begun (h : History Reply) (i t : ℕ) : Prop := ⟨i, .beginTx, .ok t⟩ ∈ h

/-- Request `i` created the scope `sc`. -/
def Owns (h : History Reply) (i sc : ℕ) : Prop := ⟨i, .scopedCtx, sc⟩ ∈ h

/-- `v` is the connection of a transaction begun by request `i`. -/
def OwnConn (h : History Reply) (i : ℕ) (v : Any) : Prop := ∃ t, v = .conn t ∧ Begun h i t

/-- A step that ends a `Get("db.conn")` returns the transaction of the request that made it.
The three steps are the three ways a value leaves the container. -/
def GetsOwn : Logged Reply → History Reply → Prop
  | ⟨i, .callFactory key _, v⟩, h => key = connKey → OwnConn h i v
  | ⟨i, .initSingleton key _, v⟩, h => key = connKey → OwnConn h i v
  | ⟨i, .resolve _ key _, v⟩, h => key = connKey → OwnConn h i v
  | _, _ => True

/-- The request that last registered `db.conn`. -/
def registrant : History Reply → Option ℕ
  | [] => none
  | ⟨i, .addScoped key _, _⟩ :: h => if key = connKey then some i else registrant h
  | _ :: h => registrant h

/-- The request that had last registered `db.conn` when request `i` last looked it up. -/
def lookedUp (i : ℕ) : History Reply → Option ℕ
  | [] => none
  | ⟨j, .lookupEntry key, _⟩ :: h =>
      if j = i ∧ key = connKey then registrant h else lookedUp i h
  | _ :: h => lookedUp i h

/-- Some `Get("db.conn")` has been resolved in the scope. -/
def ResolvedIn (h : History Reply) (sc : ℕ) : Prop :=
  ∃ ev ∈ h, ∃ e, ev.cmd = .resolve sc connKey e

/-- When the first `Get("db.conn")` of a scope is resolved, no other request had registered
`db.conn` between the registration of its own request and its lookup. -/
def Undisturbed : Logged Reply → History Reply → Prop
  | ⟨i, .resolve sc key _, _⟩, h =>
      key = connKey → ¬ ResolvedIn h sc → lookedUp i h = some i
  | _, _ => True

/-! ### How the history functions move -/

theorem Begun.cons {h : History Reply} {i t : ℕ} (ev : Logged Reply) (hb : Begun h i t) :
    Begun (ev :: h) i t := List.mem_cons_of_mem _ hb

theorem OwnConn.cons {h : History Reply} {i : ℕ} {v : Any} (ev : Logged Reply)
    (ho : OwnConn h i v) : OwnConn (ev :: h) i v := by
  obtain ⟨t, rfl, hb⟩ := ho
  exact ⟨t, rfl, hb.cons ev⟩

theorem registrant_isSome_cons {h : History Reply} (ev : Logged Reply)
    (hr : (registrant h).isSome) : (registrant (ev :: h)).isSome := by
  obtain ⟨i, cmd, r⟩ := ev
  cases cmd <;> simp only [registrant] <;> try exact hr
  split_ifs
  · rfl
  · exact hr

/-- Other requests do not change what request `i` saw at its last lookup. -/
theorem lookedUp_cons_of_ne {h : History Reply} {i : ℕ} {ev : Logged Reply} (hi : ev.tid ≠ i) :
    lookedUp i (ev :: h) = lookedUp i h := by
  obtain ⟨j, cmd, r⟩ := ev
  cases cmd <;> simp only [lookedUp]
  rw [if_neg fun hj => hi hj.1]

theorem lookedUp_of_others {h h' : History Reply} {i : ℕ} (ho : Others i h h') :
    lookedUp i h' = lookedUp i h :=
  ho.induct (P := fun h' => lookedUp i h' = lookedUp i h)
    (fun _ _ hi hP => (lookedUp_cons_of_ne hi).trans hP) rfl

theorem resolvedIn_cons {h : History Reply} {sc : ℕ} {ev : Logged Reply} :
    ResolvedIn (ev :: h) sc ↔ (∃ e, ev.cmd = .resolve sc connKey e) ∨ ResolvedIn h sc := by
  simp [ResolvedIn]

theorem owns_of_cons {h : History Reply} {ev : Logged Reply}
    (hsc : ∀ i sc, ev ≠ ⟨i, .scopedCtx, sc⟩) {i sc : ℕ} (ho : Owns (ev :: h) i sc) : Owns h i sc :=
  (List.mem_cons.1 ho).resolve_left fun he => hsc _ _ he.symm

theorem begun_of_cons {h : History Reply} {ev : Logged Reply}
    (hbt : ∀ i t, ev ≠ ⟨i, .beginTx, .ok t⟩) {i t : ℕ} (hb : Begun (ev :: h) i t) : Begun h i t :=
  (List.mem_cons.1 hb).resolve_left fun he => hbt _ _ he.symm

/-! ### The invariant -/

/-- Scopes and transactions are numbered in the order they are created, each by one request. -/
structure Ids (w : World) (h : History Reply) : Prop where
  scope_lt : ∀ {i sc}, Owns h i sc → sc < w.nextScope
  scope_inj : ∀ {i j sc}, Owns h i sc → Owns h j sc → i = j
  begun_lt : ∀ {i t}, Begun h i t → t < w.nextTx
  begun_inj : ∀ {i j t}, Begun h i t → Begun h j t → i = j
  resolved_lt : ∀ {sc}, ResolvedIn h sc → sc < w.nextScope

/-- What the shared state and the history of a run have to do with each other. -/
structure Inv (w : World) (h : History Reply) : Prop extends Ids w h where
  registered : ∀ {j}, registrant h = some j →
    ∃ t, Begun h j t ∧ w.root.lookupEntry connKey = some ⟨connFactory t, true⟩
  uncached : ∀ {i sc}, Owns h i sc → (w.scopes sc connKey = none ↔ ¬ ResolvedIn h sc)
  cached : Throughout Undisturbed h → ∀ {i sc v}, Owns h i sc →
    w.scopes sc connKey = some v → OwnConn h i v
  isolated : Throughout GetsOwn h ↔ Throughout Undisturbed h

/-- What a request knows when it takes a step: it registers its own transaction, it uses the
root's `Get` for other keys only, and it resolves in its own scope, with the entry it looked up. -/
def Pre (i : ℕ) (h : History Reply) : Cmd → Prop
  | .addScoped key f => key = connKey → ∃ t, f = connFactory t ∧ Begun h i t
  | .callFactory key _ => key ≠ connKey
  | .initSingleton key _ => key ≠ connKey
  | .resolve sc key e => Owns h i sc ∧
      (key = connKey → ∃ j t, lookedUp i h = some j ∧ Begun h j t ∧ e.factory = connFactory t)
  | _ => True

theorem inv_init (w : World) : Inv w [] where
  scope_lt := by simp [Owns]
  scope_inj := by simp [Owns]
  begun_lt := by simp [Begun]
  begun_inj := by simp [Begun]
  registered := by simp [registrant]
  resolved_lt := by simp [ResolvedIn]
  uncached := by simp [Owns]
  cached := by simp [Owns]
  isolated := Iff.rfl

section Steps

variable {w w' : World} {h : History Reply} {ev : Logged Reply}

/-- A step that creates no scope and begins no transaction. -/
theorem Ids.keep (hi : Ids w h) (hsc : ∀ i sc, ev ≠ ⟨i, .scopedCtx, sc⟩)
    (hbt : ∀ i t, ev ≠ ⟨i, .beginTx, .ok t⟩)
    (hres : ∀ sc e, ev.cmd = .resolve sc connKey e → sc < w.nextScope)
    (hns : w'.nextScope = w.nextScope) (hnt : w'.nextTx = w.nextTx) : Ids w' (ev :: h) := by
  constructor
  · intro i sc ho
    rw [hns]
    exact hi.scope_lt (owns_of_cons hsc ho)
  · exact fun ho ho' => hi.scope_inj (owns_of_cons hsc ho) (owns_of_cons hsc ho')
  · intro i t hb
    rw [hnt]
    exact hi.begun_lt (begun_of_cons hbt hb)
  · exact fun hb hb' => hi.begun_inj (begun_of_cons hbt hb) (begun_of_cons hbt hb')
  · intro sc hr
    rw [hns]
    rcases resolvedIn_cons.1 hr with ⟨e, he⟩ | hr
    · exact hres sc e he
    · exact hi.resolved_lt hr

/-- Who owns a scope after the next one has been created. -/
theorem Ids.owns_scoped (hi : Ids w h) {i j sc : ℕ}
    (ho : Owns (⟨i, .scopedCtx, w.nextScope⟩ :: h) j sc) :
    (j = i ∧ sc = w.nextScope) ∨ (Owns h j sc ∧ sc ≠ w.nextScope) := by
  rcases List.mem_cons.1 ho with he | ho
  · cases he
    exact Or.inl ⟨rfl, rfl⟩
  · exact Or.inr ⟨ho, (hi.scope_lt ho).ne⟩

/-- Who began a transaction after the next one has begun. -/
theorem Ids.begun_beginTx (hi : Ids w h) {i j t : ℕ}
    (hb : Begun (⟨i, .beginTx, .ok w.nextTx⟩ :: h) j t) :
    (j = i ∧ t = w.nextTx) ∨ (Begun h j t ∧ t ≠ w.nextTx) := by
  rcases List.mem_cons.1 hb with he | hb
  · cases he
    exact Or.inl ⟨rfl, rfl⟩
  · exact Or.inr ⟨hb, (hi.begun_lt hb).ne⟩

theorem Ids.scoped (hi : Ids w h) (i : ℕ) (o : Option Err) :
    Ids (exec .scopedCtx o w).2 (⟨i, .scopedCtx, w.nextScope⟩ :: h) := by
  have hnext : (exec .scopedCtx o w).2.nextScope = w.nextScope + 1 := rfl
  constructor
  · intro j sc ho
    rw [hnext]
    rcases hi.owns_scoped ho with ⟨-, rfl⟩ | ⟨ho, -⟩
    · omega
    · have hlt := hi.scope_lt ho
      omega
  · intro j k sc hj hk
    rcases hi.owns_scoped hj with ⟨rfl, rfl⟩ | ⟨hj, hne⟩ <;>
      rcases hi.owns_scoped hk with ⟨rfl, he⟩ | ⟨hk, hne'⟩
    · rfl
    · exact absurd rfl hne'
    · exact absurd he hne
    · exact hi.scope_inj hj hk
  · exact fun hb => hi.begun_lt (begun_of_cons (by simp) hb)
  · exact fun hb hb' => hi.begun_inj (begun_of_cons (by simp) hb) (begun_of_cons (by simp) hb')
  · intro sc hr
    rw [hnext]
    have hold : ResolvedIn h sc := by simpa [resolvedIn_cons] using hr
    have hlt := hi.resolved_lt hold
    omega

theorem Ids.beginTx (hi : Ids w h) (i : ℕ) :
    Ids (exec .beginTx none w).2 (⟨i, .beginTx, .ok w.nextTx⟩ :: h) := by
  have hnext : (exec .beginTx none w).2.nextTx = w.nextTx + 1 := rfl
  constructor
  · exact fun ho => hi.scope_lt (owns_of_cons (by simp) ho)
  · exact fun ho ho' => hi.scope_inj (owns_of_cons (by simp) ho) (owns_of_cons (by simp) ho')
  · intro j t hb
    rw [hnext]
    rcases hi.begun_beginTx hb with ⟨-, rfl⟩ | ⟨hb, -⟩
    · omega
    · have hlt := hi.begun_lt hb
      omega
  · intro j k t hj hk
    rcases hi.begun_beginTx hj with ⟨rfl, rfl⟩ | ⟨hj, hne⟩ <;>
      rcases hi.begun_beginTx hk with ⟨rfl, he⟩ | ⟨hk, hne'⟩
    · rfl
    · exact absurd rfl hne'
    · exact absurd he hne
    · exact hi.begun_inj hj hk
  · intro sc hr
    have hold : ResolvedIn h sc := by simpa [resolvedIn_cons] using hr
    exact hi.resolved_lt hold

/-- A step that resolves no `Get("db.conn")` and touches no cached connection keeps the invariant,
if the identities are kept and the last registration is known. -/
theorem Inv.step (hi : Inv w h) (hids : Ids w' (ev :: h))
    (hsc : ∀ i sc, ev ≠ ⟨i, .scopedCtx, sc⟩)
    (hreg : ∀ j, registrant (ev :: h) = some j →
      ∃ t, Begun (ev :: h) j t ∧ w'.root.lookupEntry connKey = some ⟨connFactory t, true⟩)
    (hres : ∀ sc e, ev.cmd ≠ .resolve sc connKey e) (hgo : GetsOwn ev h) (hun : Undisturbed ev h)
    (hcache : ∀ sc, w'.scopes sc connKey = w.scopes sc connKey) : Inv w' (ev :: h) := by
  have hres' : ∀ sc, ResolvedIn (ev :: h) sc ↔ ResolvedIn h sc := by
    intro sc
    rw [resolvedIn_cons]
    exact or_iff_right fun ⟨e, he⟩ => hres sc e he
  refine ⟨hids, fun hj => hreg _ hj, ?_, ?_, ?_⟩
  · intro i sc ho
    rw [hcache, hres']
    exact hi.uncached (owns_of_cons hsc ho)
  · intro hu i sc v ho hv
    rw [hcache] at hv
    exact (hi.cached hu.2 (owns_of_cons hsc ho) hv).cons ev
  · show (_ ∧ _) ↔ (_ ∧ _)
    rw [hi.isolated]
    exact ⟨fun hx => ⟨hun, hx.2⟩, fun hx => ⟨hgo, hx.2⟩⟩

/-- What the registry holds when a step registers nothing. -/
theorem Inv.registered_keep (hi : Inv w h) (hreg : registrant (ev :: h) = registrant h)
    (hroot : w'.root.lookupEntry connKey = w.root.lookupEntry connKey) :
    ∀ j, registrant (ev :: h) = some j →
      ∃ t, Begun (ev :: h) j t ∧ w'.root.lookupEntry connKey = some ⟨connFactory t, true⟩ := by
  intro j hj
  rw [hreg] at hj
  obtain ⟨t, hb, hl⟩ := hi.registered hj
  exact ⟨t, hb.cons ev, hroot.trans hl⟩

/-- A step that is none of the interesting ones leaves the invariant alone. -/
theorem Inv.quiet (hi : Inv w h) (hsc : ∀ i sc, ev ≠ ⟨i, .scopedCtx, sc⟩)
    (hbt : ∀ i t, ev ≠ ⟨i, .beginTx, .ok t⟩) (hreg : registrant (ev :: h) = registrant h)
    (hres : ∀ sc e, ev.cmd ≠ .resolve sc connKey e) (hgo : GetsOwn ev h) (hun : Undisturbed ev h)
    (hns : w'.nextScope = w.nextScope) (hnt : w'.nextTx = w.nextTx)
    (hroot : w'.root.lookupEntry connKey = w.root.lookupEntry connKey)
    (hcache : ∀ sc, w'.scopes sc connKey = w.scopes sc connKey) : Inv w' (ev :: h) :=
  hi.step (hi.toIds.keep hsc hbt (fun sc e he => absurd he (hres sc e)) hns hnt) hsc
    (hi.registered_keep hreg hroot) hres hgo hun hcache

theorem Inv.scoped (hi : Inv w h) (i : ℕ) (o : Option Err) :
    Inv (exec .scopedCtx o w).2 (⟨i, .scopedCtx, (exec .scopedCtx o w).1⟩ :: h) := by
  show Inv _ (⟨i, .scopedCtx, w.nextScope⟩ :: h)
  have hres : ∀ sc, ResolvedIn (⟨i, .scopedCtx, w.nextScope⟩ :: h) sc ↔ ResolvedIn h sc :=
    fun sc => by simp [resolvedIn_cons]
  have hfresh : ¬ ResolvedIn h w.nextScope := fun hr => (hi.resolved_lt hr).ne rfl
  refine ⟨hi.toIds.scoped i o, fun hj => hi.registered_keep rfl rfl _ hj, ?_, ?_, ?_⟩
  · intro j sc ho
    show Function.update w.scopes w.nextScope (fun _ => none) sc connKey = none ↔ _
    rw [hres]
    rcases hi.owns_scoped ho with ⟨-, rfl⟩ | ⟨ho, hne⟩
    · simpa using hfresh
    · rw [Function.update_of_ne hne]
      exact hi.uncached ho
  · intro hu j sc v ho hv
    change Function.update w.scopes w.nextScope (fun _ => none) sc connKey = some v at hv
    rcases hi.owns_scoped ho with ⟨-, rfl⟩ | ⟨ho, hne⟩
    · simp at hv
    · rw [Function.update_of_ne hne] at hv
      exact (hi.cached hu.2 ho hv).cons _
  · show (True ∧ _) ↔ (True ∧ _)
    rw [hi.isolated]

theorem Inv.beginTx (hi : Inv w h) (i : ℕ) :
    Inv (exec .beginTx none w).2 (⟨i, .beginTx, .ok w.nextTx⟩ :: h) :=
  hi.step (hi.toIds.beginTx i) (by simp) (hi.registered_keep rfl rfl) (by simp) trivial trivial
    fun _ => rfl

theorem Inv.addScoped (hi : Inv w h) {i t : ℕ} (hb : Begun h i t) (o : Option Err) :
    Inv (exec (.addScoped connKey (connFactory t)) o w).2
      (⟨i, .addScoped connKey (connFactory t), ()⟩ :: h) := by
  refine hi.step (hi.toIds.keep (by simp) (by simp) (by simp) rfl rfl) (by simp) (fun j hj => ?_)
    (by simp) trivial trivial fun _ => rfl
  obtain rfl : j = i := by simpa [registrant] using hj.symm
  exact ⟨t, hb.cons _, by simp [exec]⟩

end Steps

/-- Resolving a key in a scope leaves the root and the numbers alone. -/
theorem World.resolve_frame (w : World) (sc : ℕ) (key : String) (e : Entry Factory) :
    (w.resolve sc key e).2.root = w.root ∧ (w.resolve sc key e).2.nextScope = w.nextScope ∧
      (w.resolve sc key e).2.nextTx = w.nextTx := by
  unfold World.resolve
  split <;> exact ⟨rfl, rfl, rfl⟩

/-- Resolving another key leaves the cached connections alone. -/
theorem World.scopes_resolve_of_ne (w : World) (sc : ℕ) {key : String} (hkey : key ≠ connKey)
    (e : Entry Factory) (sc' : ℕ) :
    (w.resolve sc key e).2.scopes sc' connKey = w.scopes sc' connKey := by
  unfold World.resolve
  split
  · rfl
  · by_cases hsc : sc' = sc
    · subst hsc
      simp [Ne.symm hkey]
    · simp [hsc]

/-- What the key resolves to: the cached value, or the transaction of the factory, which is cached
then. -/
theorem World.resolve_conn (w : World) (sc : ℕ) {e : Entry Factory} {t : ℕ}
    (he : e.factory = connFactory t) :
    (w.scopes sc connKey = some (w.resolve sc connKey e).1 ∧ (w.resolve sc connKey e).2 = w) ∨
    (w.scopes sc connKey = none ∧ (w.resolve sc connKey e).1 = .conn t ∧
      (w.resolve sc connKey e).2.scopes sc connKey = some (.conn t) ∧
      ∀ sc', sc' ≠ sc → (w.resolve sc connKey e).2.scopes sc' connKey = w.scopes sc' connKey) := by
  cases hc : w.scopes sc connKey with
  | some v => exact Or.inl (by simp [World.resolve, hc])
  | none =>
    refine Or.inr ⟨rfl, by simp [World.resolve, hc, he, connFactory],
      by simp [World.resolve, hc, he, connFactory], fun sc' hne => ?_⟩
    simp [World.resolve, hc, hne]

section Resolve

variable {w : World} {h : History Reply} {i j t sc : ℕ} {e : Entry Factory}

/-- Seen with an undisturbed past, the request gets its own transaction iff the step is
undisturbed. -/
theorem Inv.getsOwn_resolve_iff (hi : Inv w h) (ho : Owns h i sc) (hl : lookedUp i h = some j)
    (hb : Begun h j t) (he : e.factory = connFactory t) (hu : Throughout Undisturbed h) :
    OwnConn h i (w.resolve sc connKey e).1 ↔ (¬ ResolvedIn h sc → lookedUp i h = some i) := by
  rcases w.resolve_conn sc he with ⟨hc, -⟩ | ⟨hc, hv, -, -⟩
  · have hr : ResolvedIn h sc := by
      by_contra hr
      rw [(hi.uncached ho).2 hr] at hc
      cases hc
    exact ⟨fun _ hn => absurd hr hn, fun _ => hi.cached hu ho hc⟩
  · have hr := (hi.uncached ho).1 hc
    rw [hv]
    constructor
    · rintro ⟨t', hv', hb'⟩ _
      cases hv'
      rw [hl, hi.begun_inj hb hb']
    · intro hd
      have hji : j = i := Option.some.inj (hl.symm.trans (hd hr))
      subst hji
      exact ⟨t, rfl, hb⟩

/-- The interesting step: a `Get("db.conn")` resolved in the scope of its request, with the entry
that request `j` had registered when the key was looked up. -/
theorem Inv.resolve (hi : Inv w h) (ho : Owns h i sc) (hl : lookedUp i h = some j)
    (hb : Begun h j t) (he : e.factory = connFactory t) :
    Inv (w.resolve sc connKey e).2
      (⟨i, .resolve sc connKey e, (w.resolve sc connKey e).1⟩ :: h) := by
  set ev : Logged Reply := ⟨i, .resolve sc connKey e, (w.resolve sc connKey e).1⟩ with hev
  have hown : ∀ {j sc}, Owns (ev :: h) j sc → Owns h j sc := owns_of_cons (by simp [hev])
  have hres : ∀ sc', ResolvedIn (ev :: h) sc' ↔ sc' = sc ∨ ResolvedIn h sc' := by
    intro sc'
    rw [resolvedIn_cons]
    simp [hev, eq_comm]
  have hstep : Throughout Undisturbed h → (GetsOwn ev h ↔ Undisturbed ev h) := fun hu =>
    forall_congr' fun _ => hi.getsOwn_resolve_iff ho hl hb he hu
  obtain ⟨hroot, hns, hnt⟩ := w.resolve_frame sc connKey e
  refine ⟨hi.toIds.keep (by simp [hev]) (by simp [hev]) (fun sc' e' he' => ?_) hns hnt,
    fun hj => hi.registered_keep rfl (by rw [hroot]) _ hj, ?_, ?_, ?_⟩
  · simp only [hev, Cmd.resolve.injEq] at he'
    rw [← he'.1]
    exact hi.scope_lt ho
  · intro k sc' hk
    rw [hres]
    by_cases hsc : sc' = sc
    · subst hsc
      rcases w.resolve_conn sc' he with ⟨hc, hw⟩ | ⟨-, -, hc, -⟩
      · simp [hw, hc]
      · simp [hc]
    · rcases w.resolve_conn sc he with ⟨-, hw⟩ | ⟨-, -, -, hother⟩
      · rw [hw, hi.uncached (hown hk)]
        simp [hsc]
      · rw [hother sc' hsc, hi.uncached (hown hk)]
        simp [hsc]
  · intro hu k sc' v hk hv
    apply OwnConn.cons ev
    rcases w.resolve_conn sc he with ⟨-, hw⟩ | ⟨hc, hv', hnew, hother⟩
    · rw [hw] at hv
      exact hi.cached hu.2 (hown hk) hv
    · by_cases hsc : sc' = sc
      · subst hsc
        rw [hnew] at hv
        cases hv
        rw [hi.scope_inj (hown hk) ho, ← hv']
        exact (hstep hu.2).2 hu.1 rfl
      · rw [hother sc' hsc] at hv
        exact hi.cached hu.2 (hown hk) hv
  · show (_ ∧ _) ↔ (_ ∧ _)
    rw [hi.isolated]
    exact and_congr_left hstep

end Resolve

/-- **Every step of a request that knows what it is doing keeps the invariant.** -/
theorem Inv.exec {w : World} {h : History Reply} (hi : Inv w h) {i : ℕ} {e : Cmd}
    (hp : Pre i h e) (o : Option Err) :
    Inv (exec e o w).2 (⟨i, e, (Middleware.exec e o w).1⟩ :: h) := by
  cases e with
  | scopedCtx => exact hi.scoped i o
  | beginTx =>
    cases o with
    | none => exact hi.beginTx i
    | some err =>
      exact hi.quiet (by simp) (by simp [Middleware.exec]) rfl (by simp) trivial trivial rfl rfl
        rfl fun _ => rfl
  | addScoped key f =>
    by_cases hk : key = connKey
    · subst hk
      obtain ⟨t, rfl, hb⟩ := hp rfl
      exact hi.addScoped hb o
    · exact hi.quiet (by simp) (by simp) (by simp [registrant, hk]) (by simp) trivial trivial rfl
        rfl (Container.lookupEntry_addScoped_of_ne _ _ (Ne.symm hk)) fun _ => rfl
  | lookupEntry key =>
    exact hi.quiet (by simp) (by simp) rfl (by simp) trivial trivial rfl rfl rfl fun _ => rfl
  | callFactory key e =>
    exact hi.quiet (by simp) (by simp) rfl (by simp) (fun hk => absurd hk hp) trivial rfl rfl rfl
      fun _ => rfl
  | initSingleton key e =>
    refine hi.quiet (by simp) (by simp) rfl (by simp) (fun hk => absurd hk hp) trivial rfl rfl ?_
      fun _ => rfl
    show (w.root.initSingleton key (e.factory .root)).2.lookupEntry connKey = _
    unfold Container.initSingleton
    split <;> rfl
  | resolve sc key e =>
    obtain ⟨ho, hk⟩ := hp
    by_cases hkey : key = connKey
    · subst hkey
      obtain ⟨j, t, hl, hb, he⟩ := hk rfl
      exact hi.resolve ho hl hb he
    · obtain ⟨hroot, hns, hnt⟩ := w.resolve_frame sc key e
      exact hi.quiet (by simp) (by simp) rfl (by simp [hkey]) (fun hk => absurd hk hkey)
        (fun hk => absurd hk hkey) hns hnt (congrArg (Container.lookupEntry · connKey) hroot)
        (w.scopes_resolve_of_ne sc hkey e)
  | commit tx =>
    cases o with
    | none =>
      exact hi.quiet (by simp) (by simp) rfl (by simp) trivial trivial rfl rfl rfl fun _ => rfl
    | some err =>
      exact hi.quiet (by simp) (by simp) rfl (by simp) trivial trivial rfl rfl rfl fun _ => rfl
  | rollback tx =>
    exact hi.quiet (by simp) (by simp) rfl (by simp) trivial trivial rfl rfl rfl fun _ => rfl

/-! ### The requests keep it -/

/-- The contract of the requests: every schedule is admitted, and a request relies only on the
fact that the others do not act in its name. -/
def contract : Contract machine where
  inv := Inv
  rely := fun i _ h _ h' => Others i h h'
  idle := fun _ _ _ _ => True
  allowed := fun _ _ _ _ _ => True
  envAllowed := fun _ _ => True
  crashes := True
  ok := fun _ _ _ _ _ => True

/-- A step of a request: what it knows holds whenever it comes to be executed. -/
theorem safe_call {α : Type} {i : ℕ} {Q : α → World → History Reply → Prop} {e : Cmd}
    {k : Reply e → Prog Reply α} {w : World} {h : History Reply}
    (hk : ∀ w₁ h₁ o, Others i h h₁ → Inv w₁ h₁ → Pre i h₁ e ∧
      Safe contract i Q (k (exec e o w₁).1) (exec e o w₁).2 (⟨i, e, (exec e o w₁).1⟩ :: h₁)) :
    Safe contract i Q (.call e k) w h := by
  intro w₁ h₁ ho hi o _
  obtain ⟨hp, hsafe⟩ := hk w₁ h₁ o ho hi
  exact ⟨trivial, hi.exec hp o, fun j hj => Others.cons (Ne.symm hj) h₁, hsafe⟩

theorem safe_pure {α : Type} {i : ℕ} {Q : α → World → History Reply → Prop} {a : α} {w : World}
    {h : History Reply} (hq : ∀ w₁ h₁, Others i h h₁ → Q a w₁ h₁) :
    Safe contract i Q (.pure a) w h :=
  fun w₁ h₁ ho _ => hq w₁ h₁ ho

theorem contract_sound : contract.Sound where
  refl := fun i _ h => Others.refl i h
  trans := fun h h' => Others.trans h h'
  env := fun a => a.elim
  crash := fun _ _ _ _ _ => trivial
  body := fun _ _ _ _ _ _ => safe_pure fun _ _ _ => trivial

/-- Request `i` has created its scope, and `db.conn` has been registered. -/
def Ready (i sc : ℕ) (h : History Reply) : Prop := Owns h i sc ∧ (registrant h).isSome

theorem Ready.cons {i sc : ℕ} {h : History Reply} (ev : Logged Reply) (hr : Ready i sc h) :
    Ready i sc (ev :: h) :=
  ⟨List.mem_cons_of_mem _ hr.1, registrant_isSome_cons ev hr.2⟩

theorem Ready.others {i sc : ℕ} {h h' : History Reply} (hr : Ready i sc h)
    (ho : Others i h h') : Ready i sc h' :=
  ho.induct (P := Ready i sc) (fun ev _ _ hP => hP.cons ev) hr

theorem rootGet_eq (key : String) :
    rootGet key = .call (.lookupEntry key) fun
      | none => .pure (.error (notRegistered key))
      | some e => if e.isScoped then .call (.callFactory key e) fun v => .pure (.ok v)
          else .call (.initSingleton key e) fun v => .pure (.ok v) := by
  unfold rootGet
  refine congrArg (Prog.call (Cmd.lookupEntry key)) (funext fun r => ?_)
  cases r with
  | none => rfl
  | some e => cases hs : e.isScoped <;> simp [hs]

theorem scopedGet_eq (sc : ℕ) (key : String) :
    scopedGet sc key = .call (.lookupEntry key) fun
      | none => .pure (.error (notRegistered key))
      | some e => if e.isScoped then .call (.resolve sc key e) fun v => .pure (.ok v)
          else rootGet key := by
  unfold scopedGet
  refine congrArg (Prog.call (Cmd.lookupEntry key)) (funext fun r => ?_)
  cases r with
  | none => rfl
  | some e => cases hs : e.isScoped <;> simp [hs]

/-- The root's `Get`, called for a key other than `db.conn`. -/
theorem safe_rootGet {i sc : ℕ} {key : String} (hkey : key ≠ connKey) {w : World}
    {h : History Reply} (hr : Ready i sc h) :
    Safe contract i (fun _ _ h' => Ready i sc h') (rootGet key) w h := by
  rw [rootGet_eq]
  refine safe_call fun w₁ h₁ o ho _ => ⟨trivial, ?_⟩
  generalize (exec (Cmd.lookupEntry key) o w₁).1 = r
  have hr₁ := (hr.others ho).cons ⟨i, Cmd.lookupEntry key, r⟩
  cases r with
  | none => exact safe_pure fun _ _ ho' => hr₁.others ho'
  | some e =>
    simp only
    split_ifs
    · exact safe_call fun w₂ h₂ o' ho' _ =>
        ⟨hkey, safe_pure fun _ _ ho'' => ((hr₁.others ho').cons _).others ho''⟩
    · exact safe_call fun w₂ h₂ o' ho' _ =>
        ⟨hkey, safe_pure fun _ _ ho'' => ((hr₁.others ho').cons _).others ho''⟩

/-- `Get` in the scope of the request, for any key. -/
theorem safe_scopedGet {i sc : ℕ} (key : String) {w : World} {h : History Reply}
    (hr : Ready i sc h) :
    Safe contract i (fun _ _ h' => Ready i sc h') (scopedGet sc key) w h := by
  rw [scopedGet_eq]
  refine safe_call fun w₁ h₁ o ho hi => ⟨trivial, ?_⟩
  have hr₁ := hr.others ho
  by_cases hkey : key = connKey
  · subst hkey
    -- the entry found is the one of the last registrant, and it is scoped
    obtain ⟨j, hj⟩ := Option.isSome_iff_exists.1 hr₁.2
    obtain ⟨t, hb, hl⟩ := hi.registered hj
    have hreply : (exec (.lookupEntry connKey) o w₁).1 = some ⟨connFactory t, true⟩ := hl
    rw [hreply]
    set ev : Logged Reply := ⟨i, .lookupEntry connKey, some ⟨connFactory t, true⟩⟩ with hev
    have hlook : lookedUp i (ev :: h₁) = some j := by simp [hev, lookedUp, hj]
    refine safe_call fun w₂ h₂ o' ho' _ => ⟨⟨((hr₁.cons ev).others ho').1, fun _ =>
      ⟨j, t, ?_, ho'.mem (hb.cons ev), rfl⟩⟩, safe_pure fun _ _ ho'' =>
        (((hr₁.cons ev).others ho').cons _).others ho''⟩
    rw [lookedUp_of_others ho', hlook]
  · generalize (exec (Cmd.lookupEntry key) o w₁).1 = r
    have hr₂ := hr₁.cons ⟨i, Cmd.lookupEntry key, r⟩
    cases r with
    | none => exact safe_pure fun _ _ ho' => hr₂.others ho'
    | some e =>
      simp only
      split_ifs
      · exact safe_call fun w₂ h₂ o' ho' _ => ⟨⟨(hr₂.others ho').1, fun hk => absurd hk hkey⟩,
          safe_pure fun _ _ ho'' => ((hr₂.others ho').cons _).others ho''⟩
      · exact safe_rootGet hkey hr₂

/-- An arbitrary handler, run in the scope of its request. -/
theorem safe_runHandler {α : Type} {i sc : ℕ} (handler : Handler α) {w : World}
    {h : History Reply} (hi : Inv w h) (hr : Ready i sc h) :
    Safe contract i (fun _ _ _ => True) (runHandler sc handler) w h := by
  induction handler generalizing w h with
  | pure r => exact safe_pure fun _ _ _ => trivial
  | call key k ih =>
    exact Safe.bind (contract_sound.refl _) hi (safe_scopedGet key hr)
      fun v w₁ h₁ hi₁ hr₁ => ih v hi₁ hr₁

/-- A commit or a rollback, followed by steps that need nothing. -/
theorem safe_finish {i tx : ℕ} {e : Cmd} (he : e = .commit tx ∨ e = .rollback tx)
    {k : Reply e → Prog Reply Response} (hk : ∀ r, ∃ resp, k r = .pure resp) {w : World}
    {h : History Reply} : Safe contract i (fun _ _ _ => True) (.call e k) w h := by
  refine safe_call fun w₁ h₁ o _ _ => ⟨by rcases he with rfl | rfl <;> trivial, ?_⟩
  obtain ⟨resp, hresp⟩ := hk (exec e o w₁).1
  rw [hresp]
  exact safe_pure fun _ _ _ => trivial

theorem safe_inTransaction {α : Type} (i : ℕ) (handler : Handler α) (beginFailed : Response)
    {finish : ℕ → α → Prog Reply Response}
    (hfinish : ∀ tx a w h, Safe contract i (fun _ _ _ => True) (finish tx a) w h) (w : World) :
    Safe contract i (fun _ _ _ => True) (inTransaction handler beginFailed finish) w [] := by
  refine safe_call fun w₁ h₁ o₁ _ _ => ⟨trivial, safe_call fun w₂ h₂ o₂ ho₂ _ => ⟨trivial, ?_⟩⟩
  have hown : Owns h₂ i (exec .scopedCtx o₁ w₁).1 := ho₂.mem (List.mem_cons_self ..)
  cases o₂ with
  | some err => exact safe_pure fun _ _ _ => trivial
  | none =>
    refine safe_call fun w₃ h₃ o₃ ho₃ hi₃ => ?_
    have hb : Begun h₃ i w₂.nextTx := ho₃.mem (List.mem_cons_self ..)
    have hpre : Pre i h₃ (.addScoped connKey (connFactory w₂.nextTx)) := fun _ => ⟨_, rfl, hb⟩
    refine ⟨hpre, ?_⟩
    have hready : Ready i (exec .scopedCtx o₁ w₁).1
        (⟨i, .addScoped connKey (connFactory w₂.nextTx), ()⟩ :: h₃) :=
      ⟨List.mem_cons_of_mem _ (ho₃.mem (List.mem_cons_of_mem _ hown)), by simp [registrant]⟩
    show Safe contract i _ ((runHandler (exec .scopedCtx o₁ w₁).1 handler).bind _) _ _
    refine Safe.bind (contract_sound.refl _) (hi₃.exec hpre o₃) (safe_runHandler handler
      (hi₃.exec hpre o₃) hready) fun r w₄ h₄ _ _ => ?_
    cases r with
    | panicked p => exact safe_finish (Or.inr rfl) fun _ => ⟨_, rfl⟩
    | returned a => exact hfinish _ a w₄ h₄

theorem safe_serve (i : ℕ) (request : Request) (w : World) :
    Safe contract i (fun _ _ _ => True) request.serve w [] := by
  cases request with
  | http handler =>
    refine safe_inTransaction i handler _ (fun tx status w h => ?_) w
    split_ifs
    · exact safe_finish (Or.inr rfl) fun _ => ⟨_, rfl⟩
    · exact safe_finish (Or.inl rfl) fun r => by cases r <;> exact ⟨_, rfl⟩
  | grpc handler =>
    refine safe_inTransaction i handler _ (fun tx result w h => ?_) w
    cases result with
    | error err => exact safe_finish (Or.inr rfl) fun _ => ⟨_, rfl⟩
    | ok resp => exact safe_finish (Or.inl rfl) fun r => by cases r <;> exact ⟨_, rfl⟩

/-- The invariant holds at every moment of every schedule. -/
theorem inv_run (requests : ℕ → Request) (w : World) (schedule : List (Action (Option Err) Empty)) :
    Inv ((serveAll requests w).run machine schedule).shared
      ((serveAll requests w).run machine schedule).hist := by
  have hgood : (serveAll requests w).Good contract :=
    ⟨inv_init w, fun i => safe_serve i (requests i) w⟩
  have hadm : Along machine contract.Admits (serveAll requests w) schedule :=
    Contract.admits_all (fun _ _ _ _ _ => trivial) trivial (fun a => a.elim) _ schedule
  exact (contract_sound.along hgood hadm).2.inv

/-- **Per-request isolation, exactly.**  In every interleaving of any requests, every
`Get("db.conn")` returns the transaction begun by its own request if and only if the first one of
each scope looked the key up while the last registration was that of its own request; and no
transaction is begun by two requests. -/
theorem getsOwn_iff_undisturbed (requests : ℕ → Request) (w : World)
    (schedule : List (Action (Option Err) Empty)) :
    (Throughout GetsOwn ((serveAll requests w).run machine schedule).hist ↔
      Throughout Undisturbed ((serveAll requests w).run machine schedule).hist) ∧
    ∀ i j t, Begun ((serveAll requests w).run machine schedule).hist i t →
      Begun ((serveAll requests w).run machine schedule).hist j t → i = j :=
  ⟨(inv_run requests w schedule).isolated, fun _ _ _ => (inv_run requests w schedule).begun_inj⟩

/-- A server with an empty container. -/
def freshWorld : World := ⟨Container.new, fun _ _ => none, 0, 0, fun _ => .active⟩

/-- A handler that resolves `db.conn` and answers 200. -/
def connHandler : Handler ℕ := .call connKey fun _ => .pure (.returned 200)

/-- Both requests register before the first one resolves. -/
def crossing : List (Action (Option Err) Empty) :=
  [.step 0 none, .step 0 none, .step 0 none, .step 1 none, .step 1 none, .step 1 none,
    .step 0 none, .step 0 none]

/-- Request `0` is given the transaction of request `1`. -/
theorem crossing_gets_foreign :
    ¬ Throughout GetsOwn
      ((serveAll (fun _ => .http connHandler) freshWorld).run machine crossing).hist := by
  rintro ⟨hget, -⟩
  obtain ⟨t, ht, hb⟩ := hget rfl
  have ht' : Any.conn 1 = .conn t := ht
  cases ht'
  -- the transaction it is given was begun by request `1`, just before that request registered it
  have hinv := inv_run (fun _ => .http connHandler) freshWorld (crossing.take 7)
  have hb' : Begun ((serveAll (fun _ => .http connHandler) freshWorld).run machine
      (crossing.take 7)).hist 1 1 := .tail _ (.tail _ (.head _))
  have h01 : 0 = 1 := hinv.begun_inj hb hb'
  omega

end WolfCore.Middleware
