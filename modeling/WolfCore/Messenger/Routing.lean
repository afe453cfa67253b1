import WolfCore.Messenger.Worker

/-!
# Where a dispatched message goes (`messenger/bus.go`, `messenger/chain.go`)

The bus builds its chain once, from the terminal to the first middleware.  `execute_buildNodes` says
what the built chain does.  The terminal of a dispatch then decides where the message goes.

* `ChainNode`, `buildNodes`: the chain as the code builds it, for any middleware and any kind of
  result;
* `Target`, `target`: the decision, by the stamps that were passed and the route of the message;
* `dispatchTerminal_eq_runTarget`: the terminal follows the decision;
* `dispatch_routing`: one call of the handler, or one `Send`, or an error.

Stamps are found by name and then asserted to have their type.  A stamp of another type with the
name of a `ForceTransportStamp` makes the dispatch panic, and one with the name of a
`ForceSyncStamp` counts as one.  The names are therefore left to the built-in stamps
(`ReservedNames`).
-/

namespace WolfCore.Messenger

open Go Interleave

/-! ### The chain -/

section Chain

variable {V C ρ : Type}

/-- `chainNode`: the last node has the terminal, every other one a middleware and its pre-bound
`nextFunc`. -/
inductive ChainNode (V C ρ : Type)
  | tail (terminal : C → Envelope V → ρ)
  | node (middleware : C → Envelope V → (C → Envelope V → ρ) → ρ) (nextFunc : C → Envelope V → ρ)

/-- `chainNode.execute`. -/
def ChainNode.execute : ChainNode V C ρ → C → Envelope V → ρ
  | .tail terminal, ctx, env => terminal ctx env
  | .node middleware nextFunc, ctx, env => middleware ctx env nextFunc

/-- The loop of `buildChain`, from the last middleware to the first. -/
def buildNodes (mws : List (C → Envelope V → (C → Envelope V → ρ) → ρ))
    (terminal : C → Envelope V → ρ) :
    ChainNode V C ρ :=
  mws.reverse.foldl (fun next m => .node m next.execute) (.tail terminal)

/-- The built chain is the first middleware applied to the second applied to the others and the
terminal. -/
theorem execute_buildNodes (mws : List (C → Envelope V → (C → Envelope V → ρ) → ρ))
    (terminal : C → Envelope V → ρ) :
    (buildNodes mws terminal).execute = mws.foldr
      (fun m next ctx env => m ctx env next) terminal := by
  unfold buildNodes
  rw [List.foldl_reverse]
  induction mws with
  | nil =>
    funext ctx env
    rfl
  | cons m mws ih =>
    funext ctx env
    rw [List.foldr_cons, List.foldr_cons, ← ih]
    rfl

theorem buildChain_eq_execute (terminal : Next V C) (mws : List (Middleware V C)) :
    buildChain terminal mws = (buildNodes mws terminal).execute := by
  rw [execute_buildNodes]
  induction mws with
  | nil => rfl
  | cons m mws ih =>
    funext ctx env
    rw [List.foldr_cons, ← ih]
    rfl

end Chain

/-! ### The decision -/

section

variable {V C : Type}

/-- Where a message goes. -/
inductive Target
  | handler
  | transport (name : String)

/-- The stamp is a `ForceSyncStamp`. -/
def Stamp.isForceSync : Stamp V → Bool
  | .forceSync => true
  | _ => false

/-- The transport that a `ForceTransportStamp` names. -/
def Stamp.forcedTransport : Stamp V → Option String
  | .forceTransport name => some name
  | _ => none

/-- A `ForceSyncStamp` comes first, then the last `ForceTransportStamp`, then the route. -/
def target (routed : String) (stamps : List (Stamp V)) : Target :=
  if stamps.any Stamp.isForceSync then .handler
  else
    match (stamps.filterMap Stamp.forcedTransport).getLast? with
    | some transportName => .transport transportName
    | none => if routed = "" then .handler else .transport routed

/-- The stamps with the names of the two routing stamps are of their types. -/
def ReservedNames (stamps : List (Stamp V)) : Prop :=
  ∀ st ∈ stamps, (st.stampName = Stamp.nameForceSync → st.isForceSync = true) ∧
    (st.stampName = Stamp.nameForceTransport → st.forcedTransport ≠ none)

theorem Stamp.isForceSync_iff {st : Stamp V} : st.isForceSync = true ↔ st = .forceSync := by
  cases st <;> simp [Stamp.isForceSync]

theorem Stamp.forcedTransport_eq_some {st : Stamp V} {transportName : String} :
    st.forcedTransport = some transportName ↔ st = .forceTransport transportName := by
  cases st <;> simp [Stamp.forcedTransport]

theorem hasStamp_forceSync {env : Envelope V} (h : ReservedNames env.stamps) :
    env.hasStamp Stamp.nameForceSync = env.stamps.any Stamp.isForceSync := by
  rw [Bool.eq_iff_iff, Envelope.hasStamp, List.any_eq_true, List.any_eq_true]
  constructor
  · rintro ⟨st, hst, hname⟩
    exact ⟨st, hst, (h st hst).1 (of_decide_eq_true hname)⟩
  · rintro ⟨st, hst, hsync⟩
    rw [Stamp.isForceSync_iff.1 hsync] at hst
    exact ⟨_, hst, rfl⟩

/-- The first stamp with the name of a `ForceTransportStamp` is the first of this type. -/
theorem find?_forceTransport {stamps : List (Stamp V)} (h : ReservedNames stamps) :
    stamps.find? (fun st => st.stampName = Stamp.nameForceTransport) =
      (stamps.filterMap Stamp.forcedTransport).head?.map .forceTransport := by
  induction stamps with
  | nil => rfl
  | cons st stamps ih =>
    cases hforced : st.forcedTransport with
    | some transportName =>
      rw [List.filterMap_cons_some hforced, Stamp.forcedTransport_eq_some.1 hforced]
      rfl
    | none =>
      have hname : ¬ st.stampName = Stamp.nameForceTransport :=
        fun hname => (h st List.mem_cons_self).2 hname hforced
      rw [List.filterMap_cons_none hforced, List.find?_cons_of_neg (by simpa using hname)]
      exact ih fun st' hst' => h st' (List.mem_cons_of_mem _ hst')

theorem last_forceTransport {env : Envelope V} (h : ReservedNames env.stamps) :
    env.last Stamp.nameForceTransport =
      (env.stamps.filterMap Stamp.forcedTransport).getLast?.map .forceTransport := by
  unfold Envelope.last
  rw [List.findRev?_eq_find?_reverse, find?_forceTransport fun st hst =>
    h st (List.mem_reverse.1 hst), List.filterMap_reverse, List.head?_reverse]

/-! ### What is done -/

/-- The message is sent with its stamps, once and to this transport. -/
def Sends (transportName : String) (msg : V) (stamps : List (Stamp V))
    (l : List (Exchange (Reply V C))) :
    Prop :=
  ∃ ctx createdAt reply, l = [⟨.send transportName ctx ⟨msg, stamps, createdAt⟩, reply⟩]

/-- An error is returned, and nothing is done. -/
def Fails (l : List (Exchange (Reply V C))) (r : Dispatched V) : Prop :=
  l = [] ∧ ∃ err, r = .returned (.error err)

/-- `DispatchResult.Async`, of a dispatch that returns no error. -/
def isAsync : Dispatched V → Bool
  | .returned (.ok result) => result.async
  | _ => false

/-- A `Send` returned nil. -/
def SentOk (l : List (Exchange (Reply V C))) : Prop :=
  ∃ transportName ctx env, ⟨.send transportName ctx env, .returned none⟩ ∈ l

theorem Fails.effects_eq {l : List (Exchange (Reply V C))} {r : Dispatched V} (h : Fails l r) :
    effects l = l := by
  rw [h.1]
  rfl

theorem Fails.not_sentOk {l : List (Exchange (Reply V C))} {r : Dispatched V} (h : Fails l r) :
    ¬ SentOk l := by
  rintro ⟨_, _, _, hmem⟩
  rw [h.1] at hmem
  cases hmem

/-- `sendToTransport`: the transport is asked to send the envelope if it is registered. -/
theorem sendToTransport_spec {b : MessageBus V C} {ctx : C} {env : Envelope V}
    {transportName : String} {l : List (Exchange (Reply V C))} {r : Dispatched V}
    (h : Execution (sendToTransport b ctx env transportName) l r) :
    (b.transports transportName = true ∧ ∃ reply, l = [⟨.send transportName ctx env, reply⟩] ∧
      r = sent env transportName reply) ∨ (b.transports transportName = false ∧ Fails l r) := by
  unfold sendToTransport at h
  split_ifs at h with htransport
  · obtain ⟨reply, _, rfl, hend⟩ := execution_call.1 h
    obtain ⟨rfl, rfl⟩ := execution_pure.1 hend
    exact Or.inl ⟨htransport, reply, rfl, rfl⟩
  · obtain ⟨rfl, rfl⟩ := execution_pure.1 h
    exact Or.inr ⟨by simpa using htransport, rfl, _, rfl⟩

theorem isAsync_sent {env : Envelope V} {transportName : String} {reply : Outcome (Option Err)} :
    isAsync (sent env transportName reply) = true ↔ reply = .returned none := by
  rcases reply with (_ | err) | p <;> simp [sent, isAsync]

/-- The result is asynchronous if and only if the `Send` returned nil. -/
theorem sendToTransport_async {b : MessageBus V C} {ctx : C} {env : Envelope V}
    {transportName : String} {l : List (Exchange (Reply V C))} {r : Dispatched V}
    (h : Execution (sendToTransport b ctx env transportName) l r) :
    isAsync r = true ↔ SentOk l := by
  rcases sendToTransport_spec h with ⟨-, reply, rfl, rfl⟩ | ⟨-, hfails⟩
  · rw [isAsync_sent]
    constructor
    · rintro rfl
      exact ⟨transportName, ctx, env, List.mem_singleton_self _⟩
    · rintro ⟨_, _, _, hmem⟩
      cases List.mem_singleton.1 hmem
      rfl
  · have hnot := hfails.not_sentOk
    obtain ⟨-, err, rfl⟩ := hfails
    simpa [isAsync] using hnot

theorem sentOk_effects {l : List (Exchange (Reply V C))} : SentOk (effects l) ↔ SentOk l := by
  simp [SentOk, effects, Cmd.isEffect]

variable [Typed V]

/-- The handler of the message is called, once. -/
def Runs (msg : V) (l : List (Exchange (Reply V C))) : Prop :=
  ∃ ctx reply, l = [⟨.handle (Typed.typeNameOf msg) ctx msg, reply⟩]

theorem Runs.effects_eq {msg : V} {l : List (Exchange (Reply V C))} (h : Runs msg l) :
    effects l = l := by
  obtain ⟨ctx, reply, rfl⟩ := h
  rfl

theorem Runs.not_sentOk {msg : V} {l : List (Exchange (Reply V C))} (h : Runs msg l) :
    ¬ SentOk l := by
  obtain ⟨ctx, reply, rfl⟩ := h
  rintro ⟨_, _, _, hmem⟩
  cases List.mem_singleton.1 hmem

def runTarget (b : MessageBus V C) (ctx : C) (env : Envelope V) :
    Target → Prog (Reply V C) (Dispatched V)
  | .handler => syncTerminal b ctx env
  | .transport transportName => sendToTransport b ctx env transportName

/-- **The terminal of a dispatch follows the decision.** -/
theorem dispatchTerminal_eq_runTarget (b : MessageBus V C) (ctx : C) {env : Envelope V}
    (h : ReservedNames env.stamps) :
    dispatchTerminal b ctx env = runTarget b ctx env (target (route b env.message) env.stamps) := by
  unfold dispatchTerminal target
  rw [hasStamp_forceSync h, last_forceTransport h]
  by_cases hsync : env.stamps.any Stamp.isForceSync = true
  · rw [if_pos hsync, if_pos hsync]
    rfl
  · rw [if_neg hsync, if_neg hsync]
    cases (env.stamps.filterMap Stamp.forcedTransport).getLast? with
    | some transportName => rfl
    | none =>
      simp only [Option.map_none]
      split_ifs <;> rfl

/-- The synchronous terminal: the handler is called if there is one. -/
theorem syncTerminal_spec {b : MessageBus V C} {ctx : C} {env : Envelope V}
    {l : List (Exchange (Reply V C))} {r : Dispatched V}
    (h : Execution (syncTerminal b ctx env) l r) :
    ((Registered b env.message ∧ Runs env.message l) ∨ (¬ Registered b env.message ∧ Fails l r)) ∧
      isAsync r = false := by
  unfold syncTerminal resolve at h
  cases hhandler : b.handlers (Typed.typeNameOf env.message) with
  | none =>
    simp only [hhandler, execution_pure] at h
    obtain ⟨rfl, rfl⟩ := h
    exact ⟨Or.inr ⟨by simp [Registered, hhandler], rfl, _, rfl⟩, rfl⟩
  | some handler =>
    simp only [hhandler, handleAny] at h
    cases hassert : handler.assertType env.message with
    | some err =>
      simp only [hassert, Prog.pure_bind, execution_pure] at h
      obtain ⟨rfl, rfl⟩ := h
      exact ⟨Or.inr ⟨by simp [Registered, hhandler, hassert], rfl, _, rfl⟩, rfl⟩
    | none =>
      simp only [hassert, Prog.bind, execution_call, execution_pure] at h
      obtain ⟨reply, _, rfl, rfl, rfl⟩ := h
      refine ⟨Or.inl ⟨⟨handler, hhandler, hassert⟩, ctx, reply, rfl⟩, ?_⟩
      rcases handler.answer reply with (_ | _ | v) | p <;> rfl

/-- A call of the handler is not asynchronous, and nothing is sent. -/
theorem syncTerminal_async {b : MessageBus V C} {ctx : C} {env : Envelope V}
    {l : List (Exchange (Reply V C))} {r : Dispatched V}
    (h : Execution (syncTerminal b ctx env) l r) :
    isAsync r = true ↔ SentOk l := by
  obtain ⟨hdone, hasync⟩ := syncTerminal_spec h
  rw [hasync]
  rcases hdone with ⟨-, hruns⟩ | ⟨-, hfails⟩
  · simpa using hruns.not_sentOk
  · simpa using hfails.not_sentOk

/-- A dispatch on an open bus whose middleware passes through does what its terminal does. -/
theorem execution_dispatch {b : MessageBus V C} (hopen : b.closed = false)
    (hmw : ∀ m ∈ b.middleware, PassThrough m) {ctx : C} {cmd : V} {stamps : List (Stamp V)}
    {l : List (Exchange (Reply V C))} {r : Dispatched V}
    (h : Execution (dispatch b ctx cmd stamps) l r) :
    ∃ t ctx' l', effects l = effects l' ∧
      Execution (dispatchTerminal b ctx' (.new cmd stamps t)) l' r := by
  rw [dispatch, if_neg (by simp [hopen])] at h
  obtain ⟨t, l₁, rfl, hchain⟩ := execution_call.1 h
  obtain ⟨ctx', l', hl', hterminal⟩ := execution_passThrough hmw hchain
  exact ⟨t, ctx', l', hl', hterminal⟩

/-- **Where a dispatched message goes.**  On an open bus whose middleware passes through, and for
stamps that leave the names of the routing stamps to them: if the decision is for the handler, it is
called once, or there is none and an error is returned; if the decision is for a transport, this
transport is asked once to send the message with its stamps, or it is not registered and an error is
returned.  Nothing else is done.  The result is asynchronous if and only if a `Send` returned nil.
And for any middleware, the built chain is the first middleware applied to the second, and so on to
the terminal. -/
theorem dispatch_routing {b : MessageBus V C} (hopen : b.closed = false)
    (hmw : ∀ m ∈ b.middleware, PassThrough m) (ctx : C) (cmd : V) {stamps : List (Stamp V)}
    (hnames : ReservedNames stamps) :
    (∀ l r, Execution (dispatch b ctx cmd stamps) l r →
      (target (route b cmd) stamps = .handler →
        (Registered b cmd ∧ Runs cmd (effects l)) ∨ (¬ Registered b cmd ∧ Fails (effects l) r)) ∧
      (∀ transportName, target (route b cmd) stamps = .transport transportName →
        (b.transports transportName = true ∧ Sends transportName cmd stamps (effects l)) ∨
        (b.transports transportName = false ∧ Fails (effects l) r)) ∧
      (isAsync r = true ↔ SentOk l)) ∧
    ∀ (ρ : Type) (mws : List (C → Envelope V → (C → Envelope V → ρ) → ρ))
      (terminal : C → Envelope V → ρ),
      (buildNodes mws terminal).execute = mws.foldr
        (fun m next ctx env => m ctx env next) terminal := by
  refine ⟨fun l r h => ?_, fun ρ mws terminal => execute_buildNodes mws terminal⟩
  obtain ⟨t, ctx', l', hl, hterminal⟩ := execution_dispatch hopen hmw h
  have heq : dispatchTerminal b ctx' (.new cmd stamps t) =
      runTarget b ctx' (.new cmd stamps t) (target (route b cmd) stamps) :=
    dispatchTerminal_eq_runTarget b ctx' hnames
  rw [heq] at hterminal
  rw [← sentOk_effects, hl, sentOk_effects]
  cases htarget : target (route b cmd) stamps with
  | handler =>
    rw [htarget] at hterminal
    refine ⟨fun _ => ?_, by simp, syncTerminal_async hterminal⟩
    rcases (syncTerminal_spec hterminal).1 with ⟨hreg, hruns⟩ | ⟨hreg, hfails⟩
    · exact Or.inl ⟨hreg, hruns.effects_eq.symm ▸ hruns⟩
    · exact Or.inr ⟨hreg, hfails.effects_eq.symm ▸ hfails⟩
  | transport transportName =>
    rw [htarget] at hterminal
    refine ⟨by simp, fun name hname => ?_, sendToTransport_async hterminal⟩
    cases hname
    rcases sendToTransport_spec hterminal with ⟨htransport, reply, rfl, -⟩ | ⟨htransport, hfails⟩
    · exact Or.inl ⟨htransport, ctx', t, reply, rfl⟩
    · exact Or.inr ⟨htransport, hfails.effects_eq.symm ▸ hfails⟩

end

/-- Two stamps that ask for a transport. -/
def reroutedStamps : List (Stamp PlaceOrder) := [.forceTransport "outbox", .forceTransport "async"]

/-- The last `ForceTransportStamp` decides: the order is sent to its transport. -/
theorem dispatch_routing_rerouted :
    ReservedNames reroutedStamps ∧
    ∀ l r, Execution (dispatch (orderBus (StrMap.empty.set "order.PlaceOrder" "outbox")) () ⟨"o1"⟩
        reroutedStamps) l r →
      Sends "async" ⟨"o1"⟩ reroutedStamps (effects l) ∧ (isAsync r = true ↔ SentOk l) := by
  have hnames : ReservedNames reroutedStamps := by
    simp [ReservedNames, reroutedStamps, Stamp.forcedTransport, Stamp.stampName,
      Stamp.nameForceSync, Stamp.nameForceTransport]
  have hmw : ∀ m ∈ (orderBus (StrMap.empty.set "order.PlaceOrder" "outbox")).middleware,
      PassThrough m := by
    intro m hm
    rw [List.mem_singleton.1 hm]
    exact passThrough_logging
  refine ⟨hnames, fun l r h => ?_⟩
  obtain ⟨-, hsend, hasync⟩ := (dispatch_routing rfl hmw () ⟨"o1"⟩ hnames).1 l r h
  rcases hsend "async" rfl with ⟨-, hsent⟩ | ⟨hnot, -⟩
  · exact ⟨hsent, hasync⟩
  · cases hnot

/-- A stamp of the application with the name of a `ForceTransportStamp` makes the dispatch panic:
the handler is not called, nothing is sent and no error is returned.  One with the name of a
`ForceSyncStamp` overrides the route. -/
theorem custom_stamps_misroute :
    (∃ l p, Execution (dispatch (orderBus StrMap.empty) () ⟨"o1"⟩
        [.custom "messenger.force_transport" ⟨"x"⟩]) l (.panicked p) ∧ effects l = []) ∧
    ∃ l, Execution (dispatch (orderBus (StrMap.empty.set "order.PlaceOrder" "async")) () ⟨"o1"⟩
        [.custom "messenger.force_sync" ⟨"x"⟩]) l
        (.returned (.ok ⟨⟨⟨"o1"⟩, [.custom "messenger.force_sync" ⟨"x"⟩], 0⟩, false⟩)) ∧
      Runs (⟨"o1"⟩ : PlaceOrder) (effects l) := by
  refine ⟨⟨[⟨.now, (0 : ℤ)⟩, ⟨.now, (0 : ℤ)⟩], _, .call (.call (.pure _)), rfl⟩, ?_⟩
  refine ⟨[⟨.now, (0 : ℤ)⟩, ⟨.now, (0 : ℤ)⟩,
    ⟨.handle "order.PlaceOrder" () ⟨"o1"⟩, .returned (.ok none)⟩, ⟨.now, (0 : ℤ)⟩,
    ⟨.own 0, (0 : ℕ)⟩], .call (.call (.call (.call (.call (.pure _))))), (), _, rfl⟩

end WolfCore.Messenger
