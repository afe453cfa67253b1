import WolfCore.Messenger.Conditional

/-!
# Queries stay in the process (`messenger/bus.go`, `messenger/handler.go`, `messenger/router.go`)

A message whose handler is a `QueryHandler` should never be passed to a `Sender`: its handler runs
in the process, or the call returns an error.  `Query` refuses a query that has a route and
otherwise uses the synchronous terminal. `Dispatch` does not ask for the kind of the handler.

Routes change while the bus is used, by `UpdateRoutes`, `AddRoute` and `RemoveRoute`.
`Router.Route` loads the table that is current, so here each load is an effect of its own
(`LiveCmd`), and an execution may get any table from it.

* `LiveBus`, `dispatch`, `query`: the bus with its two entry points;
* `Through`: an execution of a chain, as what the middleware does itself and the calls of the
  terminal;
* `execution_snapshot`: the terminal does what the terminal of a bus with the loaded table does;
* `queries_sent_iff`: when a query is sent after all.
-/

namespace WolfCore.Messenger

open Go Interleave

/-- The effects of a bus whose routes change. -/
inductive LiveCmd (V C : Type)
  | bus (e : Cmd V C)
  /-- the table of the router is loaded -/
  | loadRoutes

abbrev LiveReply (V C : Type) : LiveCmd V C → Type
  | .bus e => Reply V C e
  | .loadRoutes => StrMap

/-- `MiddlewareNext`, and a terminal function. -/
abbrev LiveNext (V C : Type) := C → Envelope V → Prog (LiveReply V C) (Dispatched V)

/-- `Middleware`. -/
abbrev LiveMiddleware (V C : Type) :=
  C → Envelope V → LiveNext V C → Prog (LiveReply V C) (Dispatched V)

/-- `MessageBus`, but for the routes. -/
structure LiveBus (V C : Type) where
  handlers : String → Option (AnyHandler V)
  transports : String → Bool
  middleware : List (LiveMiddleware V C)
  closed : Bool

/-- `ErrQueryCannotBeAsync`. -/
def errQueryCannotBeAsync : Err := .msg "messenger: query types cannot be routed to async transport"

/-- `NameResult`. -/
def Stamp.nameResult : String := "messenger.result"

section

variable {V C : Type}

/-- A program that loads no routes. -/
def lift {α : Type} : Prog (Reply V C) α → Prog (LiveReply V C) α
  | .pure a => .pure a
  | .call e k => .call (.bus e) fun r => lift (k r)

/-- What `Query` returns: the value of the last `ResultStamp`. -/
def queryResult : Dispatched V → Outcome (Except Err (Option V))
  | .panicked p => .panicked p
  | .returned (.error err) => .returned (.error err)
  | .returned (.ok result) =>
      match result.envelope.last Stamp.nameResult with
      | some (.result value) => .returned (.ok (some value))
      | some _ => .panicked (stampAssertion "stamp.ResultStamp")
      | none => .returned (.ok none)

namespace LiveBus

/-- The bus with a table of routes. -/
def snapshot (b : LiveBus V C) (routes : StrMap) : MessageBus V C where
  handlers := b.handlers
  routes := routes
  transports := b.transports
  middleware := []
  closed := b.closed

variable [Typed V]

/-- `makeSyncTerminal`, which does not use the routes. -/
def syncTerminal (b : LiveBus V C) : LiveNext V C := fun ctx env =>
  lift (Messenger.syncTerminal (b.snapshot StrMap.empty) ctx env)

/-- `sendToTransport`. -/
def sendToTransport (b : LiveBus V C) (ctx : C) (env : Envelope V) (transportName : String) :
    Prog (LiveReply V C) (Dispatched V) :=
  lift (Messenger.sendToTransport (b.snapshot StrMap.empty) ctx env transportName)

/-- `makeDispatchTerminal`. -/
def dispatchTerminal (b : LiveBus V C) : LiveNext V C := fun ctx env =>
  if env.hasStamp Stamp.nameForceSync then b.syncTerminal ctx env
  else
    match env.last Stamp.nameForceTransport with
    | some (.forceTransport transportName) => b.sendToTransport ctx env transportName
    | some _ => .pure (.panicked (stampAssertion "stamp.ForceTransportStamp"))
    | none => .call .loadRoutes fun routes =>
        let transportName := routes.get (Typed.typeNameOf env.message)
        if transportName = "" then b.syncTerminal ctx env
        else b.sendToTransport ctx env transportName

/-- `MessageBus.Dispatch`. -/
def dispatch (b : LiveBus V C) (ctx : C) (cmd : V) (stamps : List (Stamp V)) :
    Prog (LiveReply V C) (Dispatched V) :=
  if b.closed then .pure (.returned (.error errBusClosed))
  else .call (.bus .now) fun t =>
    (buildNodes b.middleware b.dispatchTerminal).execute ctx (.new cmd stamps t)

/-- `MessageBus.Query`. -/
def query (b : LiveBus V C) (ctx : C) (q : V) (stamps : List (Stamp V)) :
    Prog (LiveReply V C) (Outcome (Except Err (Option V))) :=
  if b.closed then .pure (.returned (.error errBusClosed))
  else .call .loadRoutes fun routes =>
    let transport := routes.get (Typed.typeNameOf q)
    if transport ≠ "" then
      .pure (.returned (.error (.wrap ("%w: %s routed to " ++ transport.quote)
        (some (Typed.typeNameOf q)) errQueryCannotBeAsync)))
    else .call (.bus .now) fun t =>
      ((buildNodes b.middleware b.syncTerminal).execute ctx (.new q stamps t)).bind fun r =>
        .pure (queryResult r)

end LiveBus

/-! ### Executions -/

/-- Whether the effect is a `Send`. -/
def LiveCmd.isSend : LiveCmd V C → Bool
  | .bus e => e.isSend
  | .loadRoutes => false

/-- Whether the effect concerns the way of a message: a `Send`, a call of a handler, or a load of
the routes. -/
def LiveCmd.routes : LiveCmd V C → Bool
  | .bus e => e.isSend || e.isHandle
  | .loadRoutes => true

/-- The events that concern the way of a message. -/
def onTheWay (l : List (Exchange (LiveReply V C))) : List (Exchange (LiveReply V C)) :=
  l.filter fun ev => ev.cmd.routes

/-- The effects on the bus, without the loads of the routes. -/
def busEvents : List (Exchange (LiveReply V C)) → List (Exchange (Reply V C))
  | [] => []
  | ⟨.bus e, reply⟩ :: l => ⟨e, reply⟩ :: busEvents l
  | ⟨.loadRoutes, _⟩ :: l => busEvents l

/-- The table that was loaded first; the empty table if none was. -/
def loaded : List (Exchange (LiveReply V C)) → StrMap
  | [] => StrMap.empty
  | ⟨.bus _, _⟩ :: l => loaded l
  | ⟨.loadRoutes, routes⟩ :: _ => routes

theorem busEvents_of_lift {α : Type} {p : Prog (Reply V C) α}
    {l : List (Exchange (LiveReply V C))} {a : α}
    (h : Execution (lift p) l a) : Execution p (busEvents l) a ∧ loaded l = StrMap.empty := by
  induction p generalizing l with
  | pure b =>
    obtain ⟨rfl, rfl⟩ := execution_pure.1 h
    exact ⟨.pure _, rfl⟩
  | call e k ih =>
    obtain ⟨r, l', rfl, hk⟩ := execution_call.1 h
    obtain ⟨hp, hloaded⟩ := ih r hk
    exact ⟨.call hp, hloaded⟩

theorem busEvents_append (l l' : List (Exchange (LiveReply V C))) :
    busEvents (l ++ l') = busEvents l ++ busEvents l' := by
  induction l with
  | nil => rfl
  | cons ev l ih =>
    obtain ⟨e | _, reply⟩ := ev
    · exact congrArg (List.cons _) ih
    · exact ih

@[simp] theorem anySend_cons (ev : Exchange (Reply V C)) (l : List (Exchange (Reply V C))) :
    AnySend (ev :: l) ↔ ev.cmd.isSend = true ∨ AnySend l := by
  simp [AnySend]

theorem onTheWay_bus (e : Cmd V C) (reply : LiveReply V C (.bus e))
    (l : List (Exchange (LiveReply V C))) :
    onTheWay (⟨.bus e, reply⟩ :: l) =
      if (e.isSend || e.isHandle) = true then ⟨.bus e, reply⟩ :: onTheWay l else onTheWay l :=
  List.filter_cons

/-- What concerns the way of a message tells what was sent and handled. -/
theorem exists_busEvents_onTheWay {f : Cmd V C → Prop}
    (hf : ∀ e, f e → (e.isSend || e.isHandle) = true) (l : List (Exchange (LiveReply V C))) :
    (∃ ev ∈ busEvents (onTheWay l), f ev.cmd) ↔ ∃ ev ∈ busEvents l, f ev.cmd := by
  induction l with
  | nil => exact Iff.rfl
  | cons ev l ih =>
    obtain ⟨e | _, reply⟩ := ev
    · rw [onTheWay_bus]
      split_ifs with hroutes
      · simp only [busEvents, List.exists_mem_cons_iff, ih]
      · have hnot : ¬ f e := fun h => hroutes (hf e h)
        simp only [busEvents, List.exists_mem_cons_iff, ih, hnot, false_or]
    · exact ih

theorem loaded_onTheWay (l : List (Exchange (LiveReply V C))) : loaded (onTheWay l) = loaded l := by
  induction l with
  | nil => rfl
  | cons ev l ih =>
    obtain ⟨e | _, reply⟩ := ev
    · rw [onTheWay_bus]
      split_ifs
      · exact ih
      · exact ih
    · rfl

/-! ### Middleware -/

/-- A call of `next`: the envelope it was given, what it did, and what it returned. -/
structure NextCall (V C : Type) where
  ctx : C
  env : Envelope V
  events : List (Exchange (LiveReply V C))
  result : Dispatched V

/-- The events of an execution are calls of `next` and, between them, events that send nothing. -/
inductive Through (next : LiveNext V C) :
    List (Exchange (LiveReply V C)) → List (NextCall V C) → Prop
  | nil : Through next [] []
  | own {ev : Exchange (LiveReply V C)} {l : List (Exchange (LiveReply V C))} {calls : List
      (NextCall V C)}
      (hev : ev.cmd.isSend = false) (h : Through next l calls) : Through next (ev :: l) calls
  | call {ctx : C} {env : Envelope V} {l₁ l : List (Exchange (LiveReply V C))} {r : Dispatched V}
      {calls : List (NextCall V C)} (h₁ : Execution (next ctx env) l₁ r)
        (h : Through next l calls) :
      Through next (l₁ ++ l) (⟨ctx, env, l₁, r⟩ :: calls)

/-- The middleware has no `Sender`: whatever it does with the envelope, and however often it calls
`next`. -/
def ThroughNext (m : LiveMiddleware V C) : Prop :=
  ∀ ctx env next l r, Execution (m ctx env next) l r → ∃ calls, Through next l calls

/-- The middleware hands the envelope to `next` once and returns its result, and around that does
nothing that concerns the way of a message. -/
def HandsOn (m : LiveMiddleware V C) : Prop :=
  ∀ ctx env next l r, Execution (m ctx env next) l r → ∃ ctx' l₀ l₁ l₂, l = l₀ ++ l₁ ++ l₂ ∧
    Execution (next ctx' env) l₁ r ∧ ∀ ev ∈ l₀ ++ l₂, ev.cmd.routes = false

theorem Through.append {next : LiveNext V C} {l l' : List (Exchange (LiveReply V C))}
    {calls calls' : List (NextCall V C)} (h : Through next l calls) (h' : Through next l' calls') :
    Through next (l ++ l') (calls ++ calls') := by
  induction h with
  | nil => exact h'
  | own hev _ ih => exact .own hev ih
  | call h₁ _ ih =>
    rw [List.append_assoc]
    exact .call h₁ ih

/-- Calls of a chain are calls of its terminal, if executions of the chain are. -/
theorem Through.flatten {next next' : LiveNext V C} {l : List (Exchange (LiveReply V C))}
    {calls : List (NextCall V C)} (h : Through next l calls)
    (hnext : ∀ ctx env l r, Execution (next ctx env) l r → ∃ calls, Through next' l calls) :
    ∃ calls', Through next' l calls' := by
  induction h with
  | nil => exact ⟨[], .nil⟩
  | own hev _ ih =>
    obtain ⟨calls', hcalls⟩ := ih
    exact ⟨calls', .own hev hcalls⟩
  | call h₁ _ ih =>
    obtain ⟨calls₁, hcalls₁⟩ := hnext _ _ _ _ h₁
    obtain ⟨calls', hcalls⟩ := ih
    exact ⟨calls₁ ++ calls', hcalls₁.append hcalls⟩

/-- **A chain of middleware without a `Sender`** sends only through its terminal. -/
theorem through_chain {terminal : LiveNext V C} {mws : List (LiveMiddleware V C)}
    (hmws : ∀ m ∈ mws, ThroughNext m) {ctx : C} {env : Envelope V}
    {l : List (Exchange (LiveReply V C))} {r : Dispatched V}
    (h : Execution ((buildNodes mws terminal).execute ctx env) l r) :
    ∃ calls, Through terminal l calls := by
  rw [execute_buildNodes] at h
  induction mws generalizing ctx env l r with
  | nil =>
    have hone : Through terminal (l ++ []) [⟨ctx, env, l, r⟩] := .call h .nil
    rw [List.append_nil] at hone
    exact ⟨_, hone⟩
  | cons m mws ih =>
    obtain ⟨hm, hmws⟩ := List.forall_mem_cons.1 hmws
    obtain ⟨calls, hcalls⟩ := hm ctx env _ l r h
    exact hcalls.flatten fun ctx env l r h => ih hmws h

/-- A chain of middleware that hands on the envelope does what its terminal does. -/
theorem handsOn_chain {terminal : LiveNext V C} {mws : List (LiveMiddleware V C)}
    (hmws : ∀ m ∈ mws, HandsOn m) {ctx : C} {env : Envelope V} {l : List (Exchange (LiveReply V C))}
    {r : Dispatched V} (h : Execution ((buildNodes mws terminal).execute ctx env) l r) :
    ∃ ctx' l', Execution (terminal ctx' env) l' r ∧ onTheWay l = onTheWay l' := by
  rw [execute_buildNodes] at h
  induction mws generalizing ctx l with
  | nil => exact ⟨ctx, l, h, rfl⟩
  | cons m mws ih =>
    obtain ⟨hm, hmws⟩ := List.forall_mem_cons.1 hmws
    obtain ⟨ctx₁, l₀, l₁, l₂, rfl, h₁, hquiet⟩ := hm ctx env _ l r h
    obtain ⟨ctx', l', hterminal, hl'⟩ := ih hmws h₁
    refine ⟨ctx', l', hterminal, ?_⟩
    have hnone : ∀ l₃ : List (Exchange (LiveReply V C)), (∀ ev ∈ l₃, ev ∈ l₀ ++ l₂) →
        onTheWay l₃ = [] :=
      fun l₃ hsub => List.filter_eq_nil_iff.2 fun ev hev => by simp [hquiet ev (hsub ev hev)]
    have hsplit : onTheWay (l₀ ++ l₁ ++ l₂) = onTheWay l₀ ++ onTheWay l₁ ++ onTheWay l₂ := by
      simp [onTheWay]
    rw [hsplit, hnone l₀ fun ev => List.mem_append_left _, hnone l₂ fun ev =>
      List.mem_append_right _, hl']
    simp

/-! ### The terminal -/

section

variable [Typed V]

/-- The handler of the message was called, with the message. -/
def HandlerCalled (msg : V) (l : List (Exchange (Reply V C))) : Prop :=
  ∃ ev ∈ l, ∃ ctx, ev.cmd = .handle (Typed.typeNameOf msg) ctx msg

/-- Nothing is sent, and the handler of the message is called or an error is returned. -/
def Kept {α : Type} (msg : V) (l : List (Exchange (Reply V C))) (r : Outcome (Except Err α)) :
    Prop :=
  ¬ AnySend l ∧ (HandlerCalled msg l ∨ ∃ err, r = .returned (.error err))

/-- Two executions that agree on the way of a message. -/
theorem sameWay {l l' : List (Exchange (LiveReply V C))} (h : onTheWay l = onTheWay l') (msg : V) :
    (AnySend (busEvents l) ↔ AnySend (busEvents l')) ∧
      (HandlerCalled msg (busEvents l) ↔ HandlerCalled msg (busEvents l')) ∧
        loaded l = loaded l' := by
  have hsame : ∀ f : Cmd V C → Prop, (∀ e, f e → (e.isSend || e.isHandle) = true) →
      ((∃ ev ∈ busEvents l, f ev.cmd) ↔ ∃ ev ∈ busEvents l', f ev.cmd) := by
    intro f hf
    rw [← exists_busEvents_onTheWay hf l, h, exists_busEvents_onTheWay hf l']
  refine ⟨hsame (·.isSend = true) fun e he => by simp [he],
    hsame (fun e => ∃ ctx, e = .handle (Typed.typeNameOf msg) ctx msg) ?_, ?_⟩
  · rintro e ⟨ctx, rfl⟩
    rfl
  · rw [← loaded_onTheWay l, h, loaded_onTheWay]

theorem syncTerminal_called {b : MessageBus V C} {ctx : C} {env : Envelope V}
    {l : List (Exchange (Reply V C))} {r : Dispatched V}
    (h : Execution (syncTerminal b ctx env) l r)
    (hreg : Registered b env.message) : HandlerCalled env.message l := by
  rcases execution_syncTerminal h with ⟨hnot, -⟩ | ⟨reply, rfl, -⟩
  · exact absurd hreg hnot
  · exact ⟨_, List.mem_singleton_self _, ctx, rfl⟩

theorem anyHandle_of_called {msg : V} {l : List (Exchange (Reply V C))} (h : HandlerCalled msg l) :
    AnyHandle l := by
  obtain ⟨ev, hev, ctx, hcmd⟩ := h
  exact ⟨ev, hev, by rw [hcmd]; rfl⟩

/-- The message has a handler, which is one of queries. -/
def LiveBus.IsQuery (b : LiveBus V C) (msg : V) : Prop :=
  ∃ h, b.handlers (Typed.typeNameOf msg) = some h ∧ h.isCommand = false

/-- A message whose handler is one of queries was passed to a `Sender`. -/
def LiveBus.QuerySent (b : LiveBus V C) (l : List (Exchange (Reply V C))) : Prop :=
  ∃ transportName ctx env reply, ⟨.send transportName ctx env, reply⟩ ∈ l ∧ b.IsQuery env.message

/-- **The terminal does what the terminal of a bus with the loaded table does.** -/
theorem execution_snapshot {b : LiveBus V C} {ctx : C} {env : Envelope V}
    {l : List (Exchange (LiveReply V C))} {r : Dispatched V}
    (h : Execution (b.dispatchTerminal ctx env) l r) :
    Execution (dispatchTerminal (b.snapshot (loaded l)) ctx env) (busEvents l) r := by
  unfold LiveBus.dispatchTerminal at h
  unfold dispatchTerminal
  by_cases hsync : env.hasStamp Stamp.nameForceSync = true
  · rw [if_pos hsync] at h ⊢
    exact (busEvents_of_lift h).1
  · rw [if_neg hsync] at h ⊢
    generalize env.last Stamp.nameForceTransport = last at h ⊢
    split at h
    · exact (busEvents_of_lift h).1
    · rename_i st hst
      obtain ⟨rfl, rfl⟩ := execution_pure.1 h
      cases st with
      | forceTransport transportName => exact absurd rfl (hst transportName)
      | _ => exact .pure _
    · obtain ⟨routes, l', rfl, hk⟩ := execution_call.1 h
      show Execution (if routes.get (Typed.typeNameOf env.message) = "" then _ else _)
        (busEvents l') r
      simp only at hk
      split_ifs at hk ⊢
      · exact (busEvents_of_lift hk).1
      · exact (busEvents_of_lift hk).1

/-- The terminal of a bus keeps an envelope in the process unless it is sent or the type assertion
on its stamp fails. -/
theorem dispatchTerminal_kept {b : MessageBus V C} {ctx : C} {env : Envelope V}
    {l : List (Exchange (Reply V C))} {r : Dispatched V}
    (h : Execution (dispatchTerminal b ctx env) l r) :
    Kept env.message l r ↔ ¬ GoesOut b env ∧ ¬ Misnamed env := by
  obtain ⟨hsend, hhandle⟩ := dispatchTerminal_goesOut h
  unfold Kept
  rw [hsend]
  refine and_congr_right fun hgoes => ?_
  rcases dispatchTerminal_cases b ctx env with ⟨hs, -, hnamed, heq⟩ |
    ⟨transportName, hs, hout, hnamed, heq⟩ |
    ⟨hs, -, hnamed, p, heq⟩
  · rw [heq] at h
    refine iff_of_true ?_ hnamed
    rcases (syncTerminal_spec h).1 with ⟨hreg, -⟩ | ⟨-, -, hfails⟩
    · exact Or.inl (syncTerminal_called h hreg)
    · exact Or.inr hfails
  · rw [heq] at h
    refine iff_of_true (Or.inr ?_) hnamed
    rcases sendToTransport_spec h with ⟨htransport, -⟩ | ⟨-, -, hfails⟩
    · exact absurd ⟨transportName, hout, htransport⟩ hgoes
    · exact hfails
  · rw [heq] at h
    obtain ⟨-, rfl⟩ := execution_pure.1 h
    refine iff_of_false ?_ (not_not.2 hnamed)
    rintro (hcalled | ⟨err, herr⟩)
    · exact hs (hhandle.1 (anyHandle_of_called hcalled)).1
    · cases herr

/-! ### Whole calls -/

theorem LiveBus.querySent_append {b : LiveBus V C} {l l' : List (Exchange (Reply V C))} :
    b.QuerySent (l ++ l') ↔ b.QuerySent l ∨ b.QuerySent l' := by
  simp only [LiveBus.QuerySent, List.mem_append, or_and_right, exists_or]

theorem LiveBus.anySend_of_querySent {b : LiveBus V C} {l : List (Exchange (Reply V C))}
    (h : b.QuerySent l) : AnySend l := by
  obtain ⟨transportName, ctx, env, reply, hmem, -⟩ := h
  exact ⟨_, hmem, rfl⟩

/-- The terminal sends a query exactly if it is given one that goes out. -/
theorem terminal_querySent {b : LiveBus V C} {ctx : C} {env : Envelope V}
    {l : List (Exchange (LiveReply V C))} {r : Dispatched V}
    (h : Execution (b.dispatchTerminal ctx env) l r) :
    b.QuerySent (busEvents l) ↔ b.IsQuery env.message ∧ GoesOut (b.snapshot (loaded l)) env := by
  have hstatic := execution_snapshot h
  have hsend := (dispatchTerminal_goesOut hstatic).1
  constructor
  · intro hsent
    refine ⟨?_, hsend.1 (LiveBus.anySend_of_querySent hsent)⟩
    obtain ⟨transportName, ctx', env', reply, hmem, hquery⟩ := hsent
    rcases execution_dispatchTerminal hstatic with ⟨-, hsync⟩ | ⟨-, hnil | ⟨_, _, hone⟩⟩
    · exact absurd ⟨_, hmem, rfl⟩ (syncTerminal_sends hsync).1
    · rw [hnil] at hmem
      cases hmem
    · rw [hone] at hmem
      cases List.mem_singleton.1 hmem
      exact hquery
  · rintro ⟨hquery, hgoes⟩
    obtain ⟨ev, hmem, hev⟩ := hsend.2 hgoes
    rcases execution_dispatchTerminal hstatic with ⟨-, hsync⟩ |
      ⟨-, hnil | ⟨transportName, reply, hone⟩⟩
    · exact absurd ⟨ev, hmem, hev⟩ (syncTerminal_sends hsync).1
    · rw [hnil] at hmem
      cases hmem
    · exact ⟨transportName, ctx, env, reply, by simp [hone], hquery⟩

/-- What is sent in an execution of a chain is sent by its terminal. -/
theorem through_querySent {b : LiveBus V C} {l : List (Exchange (LiveReply V C))}
    {calls : List (NextCall V C)} (h : Through b.dispatchTerminal l calls) :
    b.QuerySent (busEvents l) ↔ ∃ call ∈ calls, b.IsQuery call.env.message ∧
      GoesOut (b.snapshot (loaded call.events)) call.env := by
  induction h with
  | nil => simp [LiveBus.QuerySent, busEvents]
  | @own ev l calls hev _ ih =>
    rw [← ih]
    obtain ⟨e | _, reply⟩ := ev
    · have hnot : ¬ b.QuerySent [⟨e, reply⟩] := by
        rintro ⟨_, _, _, _, hmem, -⟩
        cases List.mem_singleton.1 hmem
        cases hev
      show b.QuerySent ([⟨e, reply⟩] ++ busEvents l) ↔ _
      rw [LiveBus.querySent_append]
      exact or_iff_right hnot
    · exact Iff.rfl
  | call h₁ _ ih =>
    rw [busEvents_append, LiveBus.querySent_append, terminal_querySent h₁, ih]
    simp

theorem through_syncTerminal {b : LiveBus V C} {l : List (Exchange (LiveReply V C))}
    {calls : List (NextCall V C)} (h : Through b.syncTerminal l calls) :
    ¬ AnySend (busEvents l) := by
  induction h with
  | nil => simp [AnySend, busEvents]
  | @own ev l calls hev _ ih =>
    obtain ⟨e | _, reply⟩ := ev
    · show ¬ AnySend (⟨e, reply⟩ :: busEvents l)
      rw [anySend_cons]
      rintro (hsend | hrest)
      · cases hev.symm.trans hsend
      · exact ih hrest
    · exact ih
  | call h₁ _ ih =>
    rw [busEvents_append]
    rintro ⟨ev, hmem, hev⟩
    rcases List.mem_append.1 hmem with hmem | hmem
    · exact (syncTerminal_sends (busEvents_of_lift h₁).1).1 ⟨ev, hmem, hev⟩
    · exact ih ⟨ev, hmem, hev⟩

/-- `Dispatch` on a bus without further `Sender`s. -/
theorem dispatch_through {b : LiveBus V C} (hmw : ∀ m ∈ b.middleware, ThroughNext m)
    {ctx : C} {q : V} {stamps : List (Stamp V)} {l : List (Exchange (LiveReply V C))}
    {r : Dispatched V}
    (h : Execution (b.dispatch ctx q stamps) l r) :
    ∃ calls, Through b.dispatchTerminal l calls := by
  unfold LiveBus.dispatch at h
  split_ifs at h
  · obtain ⟨rfl, -⟩ := execution_pure.1 h
    exact ⟨[], .nil⟩
  · obtain ⟨t, l', rfl, hchain⟩ := execution_call.1 h
    obtain ⟨calls, hcalls⟩ := through_chain hmw hchain
    exact ⟨calls, .own rfl hcalls⟩

/-- An execution of `Query`: it returns an error at once, or runs the chain with the synchronous
terminal. -/
theorem execution_query {b : LiveBus V C} {ctx : C} {q : V} {stamps : List (Stamp V)}
    {l : List (Exchange (LiveReply V C))} {r : Outcome (Except Err (Option V))}
    (h : Execution (b.query ctx q stamps) l r) :
    (busEvents l = [] ∧ ∃ err, r = .returned (.error err)) ∨
    ∃ (t : ℤ) (l' : List (Exchange (LiveReply V C))) (r' : Dispatched V),
      busEvents l = ⟨.now, t⟩ :: busEvents l' ∧ r = queryResult r' ∧
      Execution ((buildNodes b.middleware b.syncTerminal).execute ctx (.new q stamps t)) l' r' := by
  unfold LiveBus.query at h
  split_ifs at h
  · obtain ⟨rfl, rfl⟩ := execution_pure.1 h
    exact Or.inl ⟨rfl, _, rfl⟩
  · obtain ⟨routes, l₁, rfl, hk⟩ := execution_call.1 h
    simp only at hk
    split_ifs at hk
    · obtain ⟨rfl, rfl⟩ := execution_pure.1 hk
      exact Or.inl ⟨rfl, _, rfl⟩
    · obtain ⟨t, l₂, rfl, hchain⟩ := execution_call.1 hk
      obtain ⟨l', r', _, rfl, hrun, hend⟩ := execution_bind.1 hchain
      obtain ⟨rfl, rfl⟩ := execution_pure.1 hend
      exact Or.inr ⟨t, l', r', by rw [List.append_nil]; rfl, rfl, hrun⟩

/-- `Dispatch` on a bus whose middleware hands on the envelope. -/
theorem dispatch_kept {b : LiveBus V C} (hmw : ∀ m ∈ b.middleware, HandsOn m) {ctx : C} {q : V}
    {stamps : List (Stamp V)} {l : List (Exchange (LiveReply V C))} {r : Dispatched V}
    (h : Execution (b.dispatch ctx q stamps) l r) :
    Kept q (busEvents l) r ↔ b.closed = true ∨
      (¬ GoesOut (b.snapshot (loaded l)) (.new q stamps 0) ∧ ¬ Misnamed (.new q stamps 0)) := by
  unfold LiveBus.dispatch at h
  split_ifs at h with hclosed
  · obtain ⟨rfl, rfl⟩ := execution_pure.1 h
    exact iff_of_true ⟨by simp [AnySend, busEvents], Or.inr ⟨_, rfl⟩⟩ (Or.inl hclosed)
  · obtain ⟨t, l₁, rfl, hchain⟩ := execution_call.1 h
    obtain ⟨ctx', l', hterminal, hl'⟩ := handsOn_chain hmw hchain
    obtain ⟨hsend, hhandle, hloaded⟩ := sameWay hl' q
    have hkept := dispatchTerminal_kept (execution_snapshot hterminal)
    rw [← hloaded] at hkept
    rw [or_iff_right hclosed]
    refine Iff.trans (and_congr (not_congr ?_) (or_congr_left ?_)) hkept
    · refine Iff.trans ?_ hsend
      exact (anySend_cons _ _).trans (by simp [Cmd.isSend])
    · refine Iff.trans ?_ hhandle
      simp [HandlerCalled, busEvents]

theorem query_kept {b : LiveBus V C} (hmw : ∀ m ∈ b.middleware, HandsOn m) {ctx : C} {q : V}
    {stamps : List (Stamp V)} {l : List (Exchange (LiveReply V C))}
    {r : Outcome (Except Err (Option V))}
    (h : Execution (b.query ctx q stamps) l r) : Kept q (busEvents l) r := by
  rcases execution_query h with ⟨hnil, herr⟩ | ⟨t, l₁, r', hl, rfl, hchain⟩
  · rw [hnil]
    exact ⟨by simp [AnySend], Or.inr herr⟩
  · obtain ⟨ctx', l', hterminal, hl'⟩ := handsOn_chain hmw hchain
    obtain ⟨hsend, hhandle, -⟩ := sameWay hl' q
    have hsync := (busEvents_of_lift hterminal).1
    rw [hl]
    unfold Kept
    rw [anySend_cons, hsend]
    refine ⟨by simpa [Cmd.isSend] using (syncTerminal_sends hsync).1, ?_⟩
    rcases (syncTerminal_spec hsync).1 with ⟨hreg, -⟩ | ⟨-, -, err, rfl⟩
    · obtain ⟨ev, hev, hcalled⟩ := hhandle.2 (syncTerminal_called hsync hreg)
      exact Or.inl ⟨ev, List.mem_cons_of_mem _ hev, hcalled⟩
    · exact Or.inr ⟨err, rfl⟩

/-- **When a query is sent.**  For middleware without a `Sender`, whatever it does otherwise: an
execution of `Dispatch` consists of calls of the terminal and of what the middleware does, and a
query is sent in it exactly if some call of the terminal is given a query that goes out, by its
stamps and the table loaded then; an execution of `Query` sends nothing.  For middleware that hands
on the envelope: `Dispatch` keeps the message in the process, with its handler called or an error,
if and only if the bus is closed or the stamps and the loaded table do not send it out and the type
assertion on its stamps does not fail; `Query` always does. -/
theorem queries_sent_iff (b : LiveBus V C) (ctx : C) (q : V) (stamps : List (Stamp V)) :
    ((∀ m ∈ b.middleware, ThroughNext m) →
      (∀ l r, Execution (b.dispatch ctx q stamps) l r → ∃ calls,
        Through b.dispatchTerminal l calls ∧
        (b.QuerySent (busEvents l) ↔ ∃ call ∈ calls, b.IsQuery call.env.message ∧
          GoesOut (b.snapshot (loaded call.events)) call.env)) ∧
      ∀ l r, Execution (b.query ctx q stamps) l r → ¬ AnySend (busEvents l)) ∧
    ((∀ m ∈ b.middleware, HandsOn m) →
      (∀ l r, Execution (b.dispatch ctx q stamps) l r → (Kept q (busEvents l) r ↔ b.closed = true ∨
        (¬ GoesOut (b.snapshot (loaded l)) (.new q stamps 0) ∧ ¬ Misnamed (.new q stamps 0)))) ∧
      ∀ l r, Execution (b.query ctx q stamps) l r → Kept q (busEvents l) r) := by
  refine ⟨fun hmw => ⟨fun l r h => ?_, fun l r h => ?_⟩,
    fun hmw => ⟨fun l r h => dispatch_kept hmw h, fun l r h => query_kept hmw h⟩⟩
  · obtain ⟨calls, hcalls⟩ := dispatch_through hmw h
    exact ⟨calls, hcalls, through_querySent hcalls⟩
  · rcases execution_query h with ⟨hnil, -⟩ | ⟨t, l', r', hl, -, hchain⟩
    · simp [hnil, AnySend]
    · obtain ⟨calls, hcalls⟩ := through_chain hmw hchain
      rw [hl, anySend_cons]
      simpa [Cmd.isSend] using through_syncTerminal hcalls

end

end

/-! ### A query with a route -/

structure GetOrder where
  orderID : String
  deriving DecidableEq

instance : Typed GetOrder := ⟨fun _ => "order.GetOrder"⟩

/-- A bus with a handler for the query, a transport, and no middleware. -/
def queryBus : LiveBus GetOrder Unit where
  handlers := fun name => if name = "order.GetOrder" then some ⟨false, fun _ => none⟩ else none
  transports := fun name => name = "async"
  middleware := []
  closed := false

theorem isQuery_getOrder : queryBus.IsQuery ⟨"o1"⟩ := ⟨_, rfl, rfl⟩

/-- With a `ForceSyncStamp`, whatever the routes, the query stays in the process. -/
theorem queries_sent_iff_forceSync :
    queryBus.IsQuery ⟨"o1"⟩ ∧ (∀ m ∈ queryBus.middleware, HandsOn m) ∧
    ∀ l r, Execution (queryBus.dispatch () ⟨"o1"⟩ [.forceSync]) l r →
      Kept ⟨"o1"⟩ (busEvents l) r := by
  have hmw : ∀ m ∈ queryBus.middleware, HandsOn m := by simp [queryBus]
  refine ⟨isQuery_getOrder, hmw, fun l r h => ?_⟩
  refine (((queries_sent_iff queryBus () ⟨"o1"⟩ [.forceSync]).2 hmw).1 l r h).2 (Or.inr ⟨?_, ?_⟩)
  · exact not_goesOut_of_handlesSync (Or.inl rfl)
  · rintro ⟨hsync, -⟩
    cases hsync

/-- `Dispatch` of a query with a route sends it to the transport and returns nil; its handler is not
called. -/
theorem dispatch_sends_query :
    queryBus.IsQuery ⟨"o1"⟩ ∧
    ∃ l env, Execution (queryBus.dispatch () ⟨"o1"⟩ []) l (.returned (.ok ⟨env, true⟩)) ∧
      queryBus.QuerySent (busEvents l) ∧ ¬ AnyHandle (busEvents l) := by
  refine ⟨isQuery_getOrder, [⟨.bus .now, (0 : ℤ)⟩,
    ⟨.loadRoutes, StrMap.empty.set "order.GetOrder" "async"⟩,
    ⟨.bus (.send "async" () ⟨⟨"o1"⟩, [], 0⟩), .returned none⟩], ⟨⟨"o1"⟩, [], 0⟩,
    .call (.call (.call (.pure _))), ?_, ?_⟩
  · exact ⟨"async", (), ⟨⟨"o1"⟩, [], 0⟩, .returned none, by simp [busEvents], isQuery_getOrder⟩
  · simp [busEvents, AnyHandle, Cmd.isHandle]

end WolfCore.Messenger
