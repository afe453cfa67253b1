import WolfCore.Messenger.Routing

/-!
# Conditional middleware (`messenger/middleware/conditional.go`)

A `Conditional` runs its inner middleware or skips it.  `OnAsync` and `OnSync` look for a
`SentStamp` or a `ReceivedStamp` on the envelope, before the terminal decides where the message
goes.  A worker adds the `ReceivedStamp`; nothing adds the `SentStamp`.

* `buildChain_conditional`: a chain with a `Conditional` is the chain with its inner middleware in
  its place, or the chain without it;
* `dispatchTerminal_goesOut`: what the dispatch ends up doing, for any stamps;
* `conditional_by_stamps`: on the dispatching side the stamps that were passed decide, so that the
  conditions agree with the routing only if the stamps happen to; on the side of a worker `OnAsync`
  runs for every message.
-/

namespace WolfCore.Messenger

open Go Interleave

/-- `Condition`. -/
inductive Condition
  | always
  | onCommand
  | onQuery
  | onConsumed
  | onAsync
  | onSync
  | other (text : String)

/-- `NameSent`. -/
def Stamp.nameSent : String := "messenger.sent"

/-- `Conditional`; the registry may be nil. -/
structure Conditional (V C : Type) where
  inner : Middleware V C
  cond : Condition
  registry : Option (String → Option (AnyHandler V))

section

variable {V C : Type}

/-- The envelope has a stamp with the name of a `SentStamp` or a `ReceivedStamp`. -/
def Envelope.crossed (env : Envelope V) : Bool :=
  env.hasStamp Stamp.nameSent || env.hasStamp Stamp.nameReceived

namespace Conditional

variable [Typed V]

/-- `resolveIsCommand`: whether the handler of the message is one of commands, if there is one. -/
def resolveIsCommand (c : Conditional V C) (env : Envelope V) : Option Bool :=
  c.registry.bind fun handlers => (handlers (Typed.typeNameOf env.message)).map AnyHandler.isCommand

/-- `shouldExecute`. -/
def shouldExecute (c : Conditional V C) (env : Envelope V) : Bool :=
  match c.cond with
  | .always => true
  | .onCommand => c.resolveIsCommand env = some true
  | .onQuery => c.resolveIsCommand env = some false
  | .onConsumed => env.hasStamp Stamp.nameReceived
  | .onAsync => env.hasStamp Stamp.nameSent || env.hasStamp Stamp.nameReceived
  | .onSync => !env.hasStamp Stamp.nameSent && !env.hasStamp Stamp.nameReceived
  | .other _ => true

/-- `Conditional.Handle`. -/
def handle (c : Conditional V C) : Middleware V C := fun ctx env next =>
  if !c.shouldExecute env then next ctx env else c.inner ctx env next

/-- The middleware that takes part in a dispatch of the envelope. -/
def active (c : Conditional V C) (env : Envelope V) : List (Middleware V C) :=
  if c.shouldExecute env then [c.inner] else []

theorem shouldExecute_onAsync {c : Conditional V C} (h : c.cond = .onAsync) (env : Envelope V) :
    c.shouldExecute env = env.crossed := by
  rw [shouldExecute, h]
  rfl

theorem shouldExecute_onSync {c : Conditional V C} (h : c.cond = .onSync) (env : Envelope V) :
    c.shouldExecute env = !env.crossed := by
  rw [shouldExecute, h, Envelope.crossed, Bool.not_or]

end Conditional

/-- Some `Sender` was called. -/
def AnySend (l : List (Exchange (Reply V C))) : Prop := ∃ ev ∈ l, ev.cmd.isSend = true

def AnyHandle (l : List (Exchange (Reply V C))) : Prop := ∃ ev ∈ l, ev.cmd.isHandle = true

theorem sendToTransport_sends {b : MessageBus V C} {ctx : C} {env : Envelope V}
    {transportName : String} {l : List (Exchange (Reply V C))} {r : Dispatched V}
    (h : Execution (sendToTransport b ctx env transportName) l r) :
    (AnySend l ↔ b.transports transportName = true) ∧ ¬ AnyHandle l := by
  rcases sendToTransport_spec h with ⟨htransport, reply, rfl, -⟩ | ⟨htransport, rfl, -⟩
  · simp [AnySend, AnyHandle, Cmd.isSend, Cmd.isHandle, htransport]
  · simp [AnySend, AnyHandle, htransport]

/-- The two conditions agree with what a dispatch ends up doing: `OnAsync` runs if and only if the
envelope is sent, and `OnSync` if and only if the handler is called. -/
def Agree (env : Envelope V) (l : List (Exchange (Reply V C))) : Prop :=
  (env.crossed = true ↔ AnySend l) ∧ (env.crossed = false ↔ AnyHandle l)

/-- Calls of a `Sender` and of a handler are effects. -/
theorem anySend_effects {l : List (Exchange (Reply V C))} :
    (AnySend (effects l) ↔ AnySend l) ∧ (AnyHandle (effects l) ↔ AnyHandle l) := by
  have hkept : ∀ f : Cmd V C → Bool, (∀ e, f e = true → e.isEffect = true) →
      ((∃ ev ∈ effects l, f ev.cmd = true) ↔ ∃ ev ∈ l, f ev.cmd = true) := by
    intro f hf
    constructor
    · rintro ⟨ev, hev, hfev⟩
      exact ⟨ev, List.mem_of_mem_filter hev, hfev⟩
    · rintro ⟨ev, hev, hfev⟩
      exact ⟨ev, List.mem_filter.2 ⟨hev, hf _ hfev⟩, hfev⟩
  constructor
  · refine hkept Cmd.isSend fun e he => ?_
    cases e <;> first | rfl | cases he
  · refine hkept Cmd.isHandle fun e he => ?_
    cases e <;> first | rfl | cases he

variable [Typed V]

/-- A `Conditional` with an inner middleware that passes through passes through. -/
theorem passThrough_conditional {c : Conditional V C} (h : PassThrough c.inner) :
    PassThrough c.handle := by
  intro ctx env
  unfold Conditional.handle
  cases c.shouldExecute env with
  | true => exact h ctx env
  | false =>
    refine ⟨.pure ctx, fun _ => .pure (), trivial, fun _ => trivial, fun next => ?_⟩
    show next ctx env = (next ctx env).bind fun r => .pure r
    exact (Prog.bind_pure _).symm

/-- **The place of a `Conditional` in a chain** that starts with middleware that passes through: its
inner middleware takes part, or nothing does. -/
theorem buildChain_conditional {terminal : Next V C} {pre post : List (Middleware V C)}
    (hpre : ∀ m ∈ pre, PassThrough m) (c : Conditional V C) (ctx : C) (env : Envelope V) :
    buildChain terminal (pre ++ c.handle :: post) ctx env =
      buildChain terminal (pre ++ c.active env ++ post) ctx env := by
  induction pre generalizing ctx with
  | nil =>
    show c.handle ctx env (buildChain terminal post) = _
    unfold Conditional.handle Conditional.active
    cases c.shouldExecute env <;> rfl
  | cons m pre ih =>
    -- `m` hands on the same envelope, so only the rest of the chain on this envelope matters
    obtain ⟨before, after, -, -, hm⟩ := hpre m List.mem_cons_self ctx env
    show m ctx env (buildChain terminal (pre ++ c.handle :: post)) =
      m ctx env (buildChain terminal (pre ++ c.active env ++ post))
    rw [hm, hm]
    congr 1
    funext ctx'
    rw [ih (fun m' hm' => hpre m' (List.mem_cons_of_mem _ hm')) ctx']

/-! ### What the dispatch ends up doing -/

/-- The last stamp with the name of a `ForceTransportStamp` is not of this type, and decides. -/
def Misnamed (env : Envelope V) : Prop :=
  env.hasStamp Stamp.nameForceSync = false ∧
    ∃ st, env.last Stamp.nameForceTransport = some st ∧ st.forcedTransport = none

/-- The transport the terminal asks for, for any stamps. -/
def outgoing (b : MessageBus V C) (env : Envelope V) : Option String :=
  if env.hasStamp Stamp.nameForceSync then none
  else
    match env.last Stamp.nameForceTransport with
    | some st => st.forcedTransport
    | none => if route b env.message = "" then none else some (route b env.message)

/-- The envelope is passed to a `Sender`. -/
def GoesOut (b : MessageBus V C) (env : Envelope V) : Prop :=
  ∃ transportName, outgoing b env = some transportName ∧ b.transports transportName = true

/-- The handler of the message is called. -/
def StaysIn (b : MessageBus V C) (env : Envelope V) : Prop :=
  HandlesSync b env ∧ Registered b env.message

theorem syncTerminal_sends {b : MessageBus V C} {ctx : C} {env : Envelope V}
    {l : List (Exchange (Reply V C))} {r : Dispatched V}
    (h : Execution (syncTerminal b ctx env) l r) :
    ¬ AnySend l ∧ (AnyHandle l ↔ Registered b env.message) := by
  rcases (syncTerminal_spec h).1 with ⟨hreg, ctx', reply, rfl⟩ | ⟨hreg, rfl, -⟩
  · simp [AnySend, AnyHandle, Cmd.isSend, Cmd.isHandle, hreg]
  · simp [AnySend, AnyHandle, hreg]

/-- The three ways of the terminal: the handler, a transport, and the panic of the type
assertion. -/
theorem dispatchTerminal_cases (b : MessageBus V C) (ctx : C) (env : Envelope V) :
    (HandlesSync b env ∧ outgoing b env = none ∧ ¬ Misnamed env ∧
      dispatchTerminal b ctx env = syncTerminal b ctx env) ∨
    (∃ transportName, ¬ HandlesSync b env ∧ outgoing b env = some transportName ∧ ¬ Misnamed env ∧
      dispatchTerminal b ctx env = sendToTransport b ctx env transportName) ∨
    (¬ HandlesSync b env ∧ outgoing b env = none ∧ Misnamed env ∧
      ∃ p, dispatchTerminal b ctx env = .pure (.panicked p)) := by
  by_cases hsync : env.hasStamp Stamp.nameForceSync = true
  · have hs : HandlesSync b env := Or.inl hsync
    exact Or.inl ⟨hs, if_pos hsync, by simp [Misnamed, hsync], dispatchTerminal_of_handlesSync hs⟩
  · cases hlast : env.last Stamp.nameForceTransport with
    | none =>
      have hnamed : ¬ Misnamed env := by simp [Misnamed, hlast]
      by_cases hroute : route b env.message = ""
      · have hs : HandlesSync b env := Or.inr ⟨hlast, hroute⟩
        exact Or.inl ⟨hs, by simp [outgoing, hsync, hlast, hroute], hnamed,
          dispatchTerminal_of_handlesSync hs⟩
      · refine Or.inr (Or.inl ⟨route b env.message, by simp [HandlesSync, hsync, hroute],
          by simp [outgoing, hsync, hlast, hroute], hnamed, ?_⟩)
        simp [dispatchTerminal, hsync, hlast, hroute]
    | some st =>
      have hs : ¬ HandlesSync b env := by simp [HandlesSync, hsync, hlast]
      have hst : outgoing b env = st.forcedTransport := by simp [outgoing, hsync, hlast]
      cases hforced : st.forcedTransport with
      | some transportName =>
        refine Or.inr
          (Or.inl ⟨transportName, hs, hst.trans hforced, by simp [Misnamed, hlast, hforced], ?_⟩)
        rw [Stamp.forcedTransport_eq_some.1 hforced] at hlast
        simp [dispatchTerminal, hsync, hlast]
      | none =>
        refine Or.inr (Or.inr ⟨hs, hst.trans hforced, ⟨by simpa using hsync, st, hlast, hforced⟩,
          stampAssertion "stamp.ForceTransportStamp", ?_⟩)
        unfold dispatchTerminal
        rw [if_neg hsync, hlast]
        cases st <;> first | rfl | cases hforced

/-- The terminal sends the envelope, or calls the handler, exactly if the stamps and the route say
so. -/
theorem dispatchTerminal_goesOut {b : MessageBus V C} {ctx : C} {env : Envelope V}
    {l : List (Exchange (Reply V C))} {r : Dispatched V}
    (h : Execution (dispatchTerminal b ctx env) l r) :
    (AnySend l ↔ GoesOut b env) ∧ (AnyHandle l ↔ StaysIn b env) := by
  rcases dispatchTerminal_cases b ctx env with ⟨hs, hout, -, heq⟩ |
    ⟨transportName, hs, hout, -, heq⟩ |
    ⟨hs, hout, -, p, heq⟩
  · rw [heq] at h
    obtain ⟨hsend, hhandle⟩ := syncTerminal_sends h
    simp [GoesOut, StaysIn, hout, hs, hsend, hhandle]
  · rw [heq] at h
    obtain ⟨hsend, hhandle⟩ := sendToTransport_sends h
    simp [GoesOut, StaysIn, hout, hs, hsend, hhandle]
  · rw [heq] at h
    obtain ⟨rfl, -⟩ := execution_pure.1 h
    simp [GoesOut, StaysIn, AnySend, AnyHandle, hout, hs]

theorem not_goesOut_of_handlesSync {b : MessageBus V C} {env : Envelope V} (h : HandlesSync b env) :
    ¬ GoesOut b env := by
  rintro ⟨transportName, hout, -⟩
  unfold outgoing at hout
  rcases h with hsync | ⟨hlast, hroute⟩
  · simp [hsync] at hout
  · simp [hlast, hroute] at hout

/-- A dispatch on a bus with a `Conditional` is the dispatch on the bus with the middleware that
takes part. -/
theorem dispatch_conditional {b : MessageBus V C} {pre post : List (Middleware V C)}
    {c : Conditional V C} (hchain : b.middleware = pre ++ c.handle :: post)
    (hpre : ∀ m ∈ pre, PassThrough m) (ctx : C) (cmd : V)
    (stamps : List (Stamp V)) :
    dispatch b ctx cmd stamps = dispatch { b with
      middleware := pre ++ c.active (.new cmd stamps 0) ++ post } ctx cmd stamps := by
  unfold dispatch
  rw [hchain]
  split_ifs
  · rfl
  · congr 1
    funext t
    exact buildChain_conditional hpre c ctx (.new cmd stamps t)

/-- What a dispatch through middleware that passes through ends up doing. -/
theorem dispatch_goesOut {b : MessageBus V C} (hopen : b.closed = false)
    (hmw : ∀ m ∈ b.middleware, PassThrough m) {ctx : C} {cmd : V} {stamps : List (Stamp V)}
    {l : List (Exchange (Reply V C))} {r : Dispatched V}
    (h : Execution (dispatch b ctx cmd stamps) l r) :
    (AnySend l ↔ GoesOut b (.new cmd stamps 0)) ∧
      (AnyHandle l ↔ StaysIn b (.new cmd stamps 0)) := by
  obtain ⟨t, ctx', l', hl, hterminal⟩ := execution_dispatch hopen hmw h
  -- neither depends on the time of the envelope
  obtain ⟨hsend, hhandle⟩ := dispatchTerminal_goesOut hterminal
  rw [← anySend_effects.1, ← anySend_effects.2, hl, anySend_effects.1, anySend_effects.2]
  exact ⟨hsend, hhandle⟩

theorem agree_iff {b : MessageBus V C} {env : Envelope V} {l : List (Exchange (Reply V C))}
    (hsend : AnySend l ↔ GoesOut b env) (hhandle : AnyHandle l ↔ StaysIn b env) :
    Agree env l ↔ (env.crossed = true ∧ GoesOut b env) ∨ (env.crossed = false ∧ StaysIn b env) := by
  have hnot : StaysIn b env → ¬ GoesOut b env := fun hin => not_goesOut_of_handlesSync hin.1
  unfold Agree
  rw [hsend, hhandle]
  cases env.crossed <;> simp <;> tauto

/-- A worker's message has a `ReceivedStamp`, so `OnAsync` runs its inner middleware. -/
theorem processMessage_onAsync {b : MessageBus V C} {pre post : List (Middleware V C)}
    {c : Conditional V C} (hchain : b.middleware = pre ++ c.handle :: post)
    (hpre : ∀ m ∈ pre, PassThrough m)
    (hcond : c.cond = .onAsync) (transportName : String) (ctx : C) (received : Envelope V) :
    processMessage b transportName ctx received =
      processMessage { b with middleware := pre ++ c.inner :: post } transportName ctx
        received := by
  unfold processMessage
  congr 1
  funext t
  have hactive : c.active (.new received.message
      (received.withStamp (.received transportName t)).stamps 0) = [c.inner] := by
    rw [Conditional.active, Conditional.shouldExecute_onAsync hcond]
    simp [Envelope.crossed, Envelope.hasStamp, Envelope.new, Stamp.stampName]
  rw [dispatch_conditional hchain hpre, hactive]
  simp

/-- **Conditions and routing.**  In a chain of middleware that passes through, whatever the routes
and the stamps: a dispatch runs the inner middleware of a `Conditional` with `OnAsync` if and only
if a stamp named as a `SentStamp` or a `ReceivedStamp` was passed, and with `OnSync` if and only if
none was.  The two conditions agree with what the dispatch ends up doing if and only if such a stamp
was passed and the envelope is sent, or none was passed and the handler is called.  A worker runs
the inner middleware of `OnAsync` for every message. -/
theorem conditional_by_stamps {b : MessageBus V C} (hopen : b.closed = false)
    {pre post : List (Middleware V C)} {c : Conditional V C}
    (hchain : b.middleware = pre ++ c.handle :: post) (hpre : ∀ m ∈ pre, PassThrough m)
    (hpost : ∀ m ∈ post, PassThrough m) (hinner : PassThrough c.inner) (ctx : C) (cmd : V)
    (stamps : List (Stamp V)) :
    let env : Envelope V := .new cmd stamps 0
    dispatch b ctx cmd stamps =
      dispatch { b with middleware := pre ++ c.active env ++ post } ctx cmd stamps ∧
    (c.cond = .onAsync → (c.shouldExecute env = true ↔
      ∃ st ∈ stamps, st.stampName = Stamp.nameSent ∨ st.stampName = Stamp.nameReceived)) ∧
    (c.cond = .onSync → (c.shouldExecute env = true ↔
      ¬ ∃ st ∈ stamps, st.stampName = Stamp.nameSent ∨ st.stampName = Stamp.nameReceived)) ∧
    (∀ l r, Execution (dispatch b ctx cmd stamps) l r →
      (Agree env l ↔ (env.crossed = true ∧ GoesOut b env) ∨
        (env.crossed = false ∧ StaysIn b env))) ∧
    (c.cond = .onAsync → ∀ transportName received, processMessage b transportName ctx received =
      processMessage { b with middleware := pre ++ c.inner :: post } transportName ctx
        received) := by
  intro env
  have hcrossed : env.crossed = true ↔
      ∃ st ∈ stamps, st.stampName = Stamp.nameSent ∨ st.stampName = Stamp.nameReceived := by
    simp only [env, Envelope.crossed, Envelope.hasStamp, Envelope.new, Bool.or_eq_true,
      List.any_eq_true, decide_eq_true_eq, ← exists_or, ← and_or_left]
  have hmw : ∀ m ∈ b.middleware, PassThrough m := by
    rw [hchain]
    intro m hm
    rcases List.mem_append.1 hm with hm | hm
    · exact hpre m hm
    · rcases List.mem_cons.1 hm with rfl | hm
      · exact passThrough_conditional hinner
      · exact hpost m hm
  refine ⟨dispatch_conditional hchain hpre ctx cmd stamps, fun hcond => ?_, fun hcond => ?_,
    fun l r h => ?_,
    fun hcond transportName received =>
      processMessage_onAsync hchain hpre hcond transportName ctx received⟩
  · rw [Conditional.shouldExecute_onAsync hcond, hcrossed]
  · rw [Conditional.shouldExecute_onSync hcond, ← hcrossed, Bool.not_eq_true', Bool.not_eq_true]
  · obtain ⟨hsend, hhandle⟩ := dispatch_goesOut hopen hmw h
    exact agree_iff hsend hhandle

end

/-! ### An order on its way out -/

/-- A `Conditional` around the logging middleware. -/
def conditionalLogging (cond : Condition) : Conditional PlaceOrder Unit := ⟨logging, cond, none⟩

/-- A bus whose only middleware is the `Conditional`, with a route for orders. -/
def conditionalBus (cond : Condition) : MessageBus PlaceOrder Unit :=
  { orderBus (StrMap.empty.set "order.PlaceOrder" "async") with
    middleware := [(conditionalLogging cond).handle] }

/-- An order with a `SentStamp` is sent, and both conditions agree with that. -/
theorem conditional_by_stamps_sent :
    (conditionalBus .onAsync).middleware = [] ++ (conditionalLogging .onAsync).handle :: [] ∧
    PassThrough (conditionalLogging .onAsync).inner ∧
    ∀ l r, Execution (dispatch (conditionalBus .onAsync) () ⟨"o1"⟩ [.sent "async" 0]) l r →
      Agree (.new ⟨"o1"⟩ [.sent "async" 0] 0) l := by
  have hinner : PassThrough (conditionalLogging .onAsync).inner := passThrough_logging
  refine ⟨rfl, hinner, fun l r h => ?_⟩
  have hagree :=
    (conditional_by_stamps (b := conditionalBus .onAsync) (c := conditionalLogging .onAsync) rfl
    (List.nil_append _).symm (by simp) (by simp) hinner () ⟨"o1"⟩ [.sent "async" 0]).2.2.2.1 l r h
  exact hagree.2 (Or.inl ⟨rfl, "async", rfl, rfl⟩)

/-- Without stamps, the order is sent to a transport, but `OnAsync` skips its middleware, and
`OnSync` runs it. -/
theorem conditional_ignores_route :
    (∃ l r, Execution (dispatch (conditionalBus .onAsync) () ⟨"o1"⟩ []) l r ∧ AnySend l ∧
      ¬ AnyHandle l) ∧
    (conditionalLogging .onAsync).shouldExecute (.new ⟨"o1"⟩ [] 0) = false ∧
    (∃ l r, Execution (dispatch (conditionalBus .onSync) () ⟨"o1"⟩ []) l r ∧ AnySend l ∧
      ¬ AnyHandle l) ∧
    (conditionalLogging .onSync).shouldExecute (.new ⟨"o1"⟩ [] 0) = true := by
  refine ⟨?_, rfl, ?_, rfl⟩
  · refine ⟨[⟨.now, (0 : ℤ)⟩, ⟨.send "async" () ⟨⟨"o1"⟩, [], 0⟩, .returned none⟩], _,
      .call (.call (.pure _)), ?_, ?_⟩ <;> simp [AnySend, AnyHandle, Cmd.isSend, Cmd.isHandle]
  · refine ⟨[⟨.now, (0 : ℤ)⟩, ⟨.now, (0 : ℤ)⟩, ⟨.send "async" () ⟨⟨"o1"⟩, [], 0⟩, .returned none⟩,
      ⟨.now, (0 : ℤ)⟩, ⟨.own 0, (0 : ℕ)⟩], _, .call (.call (.call (.call (.call (.pure _))))),
        ?_, ?_⟩ <;>
      simp [AnySend, AnyHandle, Cmd.isSend, Cmd.isHandle]

end WolfCore.Messenger
