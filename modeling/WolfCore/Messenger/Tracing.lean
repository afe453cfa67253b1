import WolfCore.Messenger.Worker

/-!
# Trace propagation (`messenger/middleware/tracing.go`)

`Tracing` starts a span around a dispatch.  When it handles a received envelope, the parent of the
span is extracted from the last `TraceStamp`; when the message was sent to a transport, the headers
of the span are injected into a new `TraceStamp` of the result.

The result is not what the transport was given: `Send` runs inside `next`, before the stamp is
added.  `propagated_iff` says that a dispatch that sends the message never propagates its span to
the transport, and `untraced` is a dispatch without any trace.

The tracer and the propagator of OpenTelemetry are parameters.
-/

namespace WolfCore.Messenger

open Go Interleave

/-- The propagator, and the span a context carries (`trace.SpanContextFromContext`). -/
structure Otel (C : Type) where
  inject : C → List (String × String)
  extract : C → List (String × String) → C
  spanContext : C → Option (String × String)

section

variable {V C : Type}

/-- The headers of the last stamp named `NameTrace`, if it is a `TraceStamp`. -/
def traceHeaders (stamps : List (Stamp V)) : Option (List (String × String)) :=
  match stamps.findRev? fun s => s.stampName = Stamp.nameTrace with
  | some (.trace _ _ headers) => some headers
  | _ => none

/-- `extractParentContext`. -/
def extractParentContext (o : Otel C) (ctx : C) (env : Envelope V) : C :=
  match traceHeaders env.stamps with
  | some headers => if headers = [] then ctx else o.extract ctx headers
  | none => ctx

/-- The context in which the span is started. -/
def parentContext (o : Otel C) (ctx : C) (env : Envelope V) : C :=
  if env.hasStamp Stamp.nameReceived then extractParentContext o ctx env else ctx

/-- `injectTraceContext`. -/
def injectTraceContext (o : Otel C) (span : Started C) (env : Envelope V) : Envelope V :=
  env.withStamp (.trace span.traceID span.spanID (o.inject span.ctx))

/-- What `Tracing.Handle` returns for the result of `next`. -/
def traced (o : Otel C) (span : Started C) : Dispatched V → Dispatched V
  | .returned (.ok ⟨env, true⟩) => .returned (.ok ⟨injectTraceContext o span env, true⟩)
  | r => r

def spanName [Typed V] (env : Envelope V) : String :=
  (if env.hasStamp Stamp.nameReceived then "messenger.consume " else "messenger.dispatch ") ++
    Typed.typeNameOf env.message

/-- `Tracing.Handle`. -/
def tracing [Typed V] (o : Otel C) : Middleware V C := fun ctx env next =>
  .call (.startSpan (parentContext o ctx env) (spanName env) env.stamps.length
      (env.hasStamp Stamp.nameReceived)) fun span =>
    (next span.ctx env).bind fun r => .pure (traced o span r)

/-! ### Spans and sent envelopes of an execution -/

/-- The span an effect starts, with the context of its parent. -/
def startedSpan : Exchange (Reply V C) → Option (C × Started C)
  | ⟨.startSpan ctx _ _ _, span⟩ => some (ctx, span)
  | _ => none

/-- The envelope an effect gives to a transport, with the answer. -/
def sentEnvelope : Exchange (Reply V C) → Option (String × Envelope V × Outcome (Option Err))
  | ⟨.send transport _ env, reply⟩ => some (transport, env, reply)
  | _ => none

def spansOf (l : List (Exchange (Reply V C))) : List (C × Started C) := l.filterMap startedSpan

def sendsOf (l : List (Exchange (Reply V C))) : List (String × Envelope V × Outcome (Option Err)) :=
  l.filterMap sentEnvelope

theorem filterMap_effects {β : Type} {f : Exchange (Reply V C) → Option β}
    (hf : ∀ ev, ev.cmd.isEffect = false → f ev = none) (l : List (Exchange (Reply V C))) :
    (effects l).filterMap f = l.filterMap f := by
  unfold effects
  rw [List.filterMap_filter]
  congr
  funext ev
  cases hev : ev.cmd.isEffect with
  | false => exact (hf ev hev).symm
  | true => rfl

theorem spansOf_effects (l : List (Exchange (Reply V C))) : spansOf (effects l) = spansOf l :=
  filterMap_effects (fun ev h => by rcases ev with ⟨_ | _ | _ | _ | _ | _ | _, _⟩ <;> trivial) l

theorem sendsOf_effects (l : List (Exchange (Reply V C))) : sendsOf (effects l) = sendsOf l :=
  filterMap_effects (fun ev h => by rcases ev with ⟨_ | _ | _ | _ | _ | _ | _, _⟩ <;> trivial) l

theorem mem_sendsOf {l : List (Exchange (Reply V C))} {transport : String} {env : Envelope V}
    {reply : Outcome (Option Err)} :
    (transport, env, reply) ∈ sendsOf l ↔ ∃ c, ⟨.send transport c env, reply⟩ ∈ l := by
  unfold sendsOf
  rw [List.mem_filterMap]
  constructor
  · rintro ⟨⟨_ | _ | _ | _ | ⟨_, c, _⟩ | _ | _, _⟩, hmem, heq⟩ <;> cases heq
    exact ⟨c, hmem⟩
  · rintro ⟨c, hmem⟩
    exact ⟨_, hmem, rfl⟩

theorem spansOf_eq_nil {l : List (Exchange (Reply V C))} (h : ∀ ev ∈ l, startedSpan ev = none) :
    spansOf l = [] := List.filterMap_eq_nil_iff.2 h

theorem startedSpan_eq_none {ev : Exchange (Reply V C)}
    (h : ev.cmd.isEffect = false ∨ ev.cmd.isSettle = true) : startedSpan ev = none := by
  rcases ev with ⟨_ | _ | _ | _ | _ | _ | _, _⟩ <;> first | rfl | rcases h with h | h <;> cases h

/-! ### Headers -/

/-- The headers of the context's span, extracted into any context, give back the span. -/
def RoundTrips (o : Otel C) (c : C) : Prop :=
  o.inject c ≠ [] ∧ ∀ c', o.spanContext (o.extract c' (o.inject c)) = o.spanContext c

/-- What a transport may do to an envelope between `Send` and the worker: it may add stamps of its
own, but no `TraceStamp`. -/
def Lossless (env env' : Envelope V) : Prop :=
  env'.message = env.message ∧
    ∃ extra, env'.stamps = env.stamps ++ extra ∧ ∀ s ∈ extra, s.stampName ≠ Stamp.nameTrace

theorem traceHeaders_append {stamps extra : List (Stamp V)}
    (h : ∀ s ∈ extra, s.stampName ≠ Stamp.nameTrace) :
    traceHeaders (stamps ++ extra) = traceHeaders stamps := by
  have hextra : extra.reverse.find? (fun s => s.stampName = Stamp.nameTrace) = none := by
    simpa using h
  simp [traceHeaders, List.findRev?_eq_find?_reverse, hextra]

/-- The parent of a span started for a received envelope. -/
theorem parentContext_received {o : Otel C} {span : Started C} (hround : RoundTrips o span.ctx)
    {env : Envelope V} (hreceived : env.hasStamp Stamp.nameReceived = true)
    (hheaders : traceHeaders env.stamps = some (o.inject span.ctx)) (ctx : C) :
    o.spanContext (parentContext o ctx env) = o.spanContext span.ctx := by
  unfold parentContext extractParentContext
  rw [if_pos hreceived, hheaders]
  simp only [if_neg hround.1]
  exact hround.2 ctx

/-! ### What is sent -/

variable [Typed V]

/-- The transport of the bus to which the terminal sends the envelope. -/
def transportOf (b : MessageBus V C) (env : Envelope V) : Option String :=
  let name :=
    if env.hasStamp Stamp.nameForceSync then none
    else
      match env.last Stamp.nameForceTransport with
      | some (.forceTransport transportName) => some transportName
      | some _ => none
      | none => if route b env.message = "" then none else some (route b env.message)
  name.filter b.transports

/-- The terminal of a dispatch starts no span, and it sends the envelope it was given to its
transport, once. -/
theorem dispatchTerminal_sends {b : MessageBus V C} {ctx : C} {env : Envelope V}
    {l : List (Exchange (Reply V C))} {r : Dispatched V}
    (h : Execution (dispatchTerminal b ctx env) l r) :
    spansOf l = [] ∧ ((transportOf b env = none ∧ sendsOf l = []) ∨
      ∃ transport reply, transportOf b env = some transport ∧
        sendsOf l = [(transport, env, reply)] ∧ r = sent env transport reply) := by
  have hsync : Execution (syncTerminal b ctx env) l r → spansOf l = [] ∧ sendsOf l = [] := by
    intro h
    rcases execution_syncTerminal h with ⟨-, rfl⟩ | ⟨reply, rfl, -⟩ <;> exact ⟨rfl, rfl⟩
  have hsend : ∀ name, Execution (sendToTransport b ctx env name) l r →
      spansOf l = [] ∧ (((some name).filter b.transports = none ∧ sendsOf l = []) ∨
        ∃ transport reply, (some name).filter b.transports = some transport ∧
          sendsOf l = [(transport, env, reply)] ∧ r = sent env transport reply) := by
    intro name h
    unfold sendToTransport at h
    split_ifs at h with hname
    · obtain ⟨reply, _, rfl, hend⟩ := execution_call.1 h
      obtain ⟨rfl, rfl⟩ := execution_pure.1 hend
      exact ⟨rfl, Or.inr ⟨name, reply, by simp [hname], rfl, rfl⟩⟩
    · obtain ⟨rfl, -⟩ := execution_pure.1 h
      exact ⟨rfl, Or.inl ⟨by simp [hname], rfl⟩⟩
  unfold dispatchTerminal at h
  unfold transportOf
  by_cases hforced : env.hasStamp Stamp.nameForceSync = true
  · rw [if_pos hforced] at h ⊢
    exact ⟨(hsync h).1, Or.inl ⟨rfl, (hsync h).2⟩⟩
  · rw [if_neg hforced] at h ⊢
    cases hforce : env.last Stamp.nameForceTransport with
    | none =>
      rw [hforce] at h
      dsimp only at h ⊢
      split_ifs at h with hroute
      · exact ⟨(hsync h).1, Or.inl ⟨by simp [hroute], (hsync h).2⟩⟩
      · rw [if_neg hroute]
        exact hsend _ h
    | some st =>
      rw [hforce] at h
      cases st with
      | forceTransport transportName => exact hsend transportName h
      | _ =>
        obtain ⟨rfl, -⟩ := execution_pure.1 h
        exact ⟨rfl, Or.inl ⟨rfl, rfl⟩⟩

/-- The chain of a bus with `Tracing` among middleware that passes through starts one span and sends
the envelope it was given, once; `Tracing` adds its stamp to the result. -/
theorem execution_tracing {o : Otel C} {b : MessageBus V C} {pre post : List (Middleware V C)}
    (hpre : ∀ m ∈ pre, PassThrough m) (hpost : ∀ m ∈ post, PassThrough m) {ctx : C}
    {env : Envelope V} {l : List (Exchange (Reply V C))} {r : Dispatched V}
    (h : Execution (buildChain (dispatchTerminal b) (pre ++ tracing o :: post) ctx env) l r) :
    ∃ c span, spansOf l = [(parentContext o c env, span)] ∧
      ((transportOf b env = none ∧ sendsOf l = []) ∨
        ∃ transport reply, transportOf b env = some transport ∧
          sendsOf l = [(transport, env, reply)] ∧ r = traced o span
            (sent env transport reply)) := by
  obtain ⟨c, l', hl', hrest⟩ := execution_buildChain hpre h
  obtain ⟨span, _, rfl, hnext⟩ := execution_call.1 hrest
  obtain ⟨l₁, r₁, l₂, rfl, hpostChain, hend⟩ := execution_bind.1 hnext
  obtain ⟨rfl, rfl⟩ := execution_pure.1 hend
  obtain ⟨c₁, l₃, hl₃, hterminal⟩ := execution_passThrough hpost hpostChain
  obtain ⟨hspans, hsends⟩ := dispatchTerminal_sends hterminal
  rw [List.append_nil] at hl'
  have hspansOf : spansOf l = [(parentContext o c env, span)] := by
    rw [← spansOf_effects, hl', spansOf_effects]
    change _ :: spansOf l₁ = _
    rw [← spansOf_effects, hl₃, spansOf_effects, hspans]
  have hsendsOf : sendsOf l = sendsOf l₃ := by
    rw [← sendsOf_effects, hl', sendsOf_effects]
    change sendsOf l₁ = _
    rw [← sendsOf_effects, hl₃, sendsOf_effects]
  refine ⟨c, span, hspansOf, ?_⟩
  rw [hsendsOf]
  rcases hsends with hnone | ⟨transport, reply, htransport, hsent, rfl⟩
  · exact Or.inl hnone
  · exact Or.inr ⟨transport, reply, htransport, hsent, rfl⟩

/-! ### Producer and consumer -/

/-- The span is propagated by the envelope: the last `TraceStamp` has its headers, and it is the
parent of every span that a worker with `Tracing` starts for the envelope. -/
structure Propagates (o : Otel C) (env : Envelope V) (span : Started C) : Prop where
  stamped : traceHeaders env.stamps = some (o.inject span.ctx)
  parent : ∀ (b : MessageBus V C) pre post, b.middleware = pre ++ tracing o :: post →
    (∀ m ∈ pre, PassThrough m) → (∀ m ∈ post, PassThrough m) → ∀ env', Lossless env env' →
    ∀ transportName ctx l out, Execution (processMessage b transportName ctx env') l out →
      ∀ p ∈ spansOf l, o.spanContext p.1 = o.spanContext span.ctx

/-- A span of a worker with `Tracing` is started for the received envelope. -/
theorem spansOf_processMessage {o : Otel C} {b : MessageBus V C} {pre post : List (Middleware V C)}
    (hmw : b.middleware = pre ++ tracing o :: post) (hpre : ∀ m ∈ pre, PassThrough m)
    (hpost : ∀ m ∈ post, PassThrough m) {transportName : String} {ctx : C} {env : Envelope V}
    {l : List (Exchange (Reply V C))} {out : Outcome Unit}
    (h : Execution (processMessage b transportName ctx env) l out) {p : C × Started C}
    (hp : p ∈ spansOf l) : ∃ t t' c, p.1 = parentContext o c
      (.new env.message (env.withStamp (.received transportName t)).stamps t') := by
  cases hopen : b.closed with
  | true =>
    have hnone : spansOf l = [] := spansOf_eq_nil fun ev hev =>
      startedSpan_eq_none (Only.mem (processMessage_closed hopen transportName ctx env) h ev hev)
    rw [hnone] at hp
    cases hp
  | false =>
    obtain ⟨t, t', l₁, l₂, r, hl, hchain, hquiet, -⟩ := execution_processMessage hopen h
    rw [hmw] at hchain
    obtain ⟨c, span, hspan, -⟩ := execution_tracing hpre hpost hchain
    have hsettle : spansOf l₂ = [] :=
      spansOf_eq_nil fun ev hev => startedSpan_eq_none (Or.inr (hquiet ev hev))
    have hspans : spansOf l = spansOf l₁ ++ spansOf l₂ := by
      rw [← spansOf_effects l, hl, ← spansOf_effects l₁]
      exact List.filterMap_append
    rw [hspans, hspan, hsettle, List.append_nil, List.mem_singleton] at hp
    exact ⟨t, t', c, by rw [hp]⟩

/-- An envelope with the headers of the span propagates it. -/
theorem propagates_of_stamped {o : Otel C} {env : Envelope V} {span : Started C}
    (hround : RoundTrips o span.ctx) (h : traceHeaders env.stamps = some (o.inject span.ctx)) :
    Propagates o env span := by
  refine ⟨h, fun b pre post hmw hpre hpost env' hlossless transportName ctx l out hex p hp => ?_⟩
  obtain ⟨t, t', c, hp⟩ := spansOf_processMessage hmw hpre hpost hex hp
  obtain ⟨-, extra, hstamps, hextra⟩ := hlossless
  rw [hp]
  refine parentContext_received hround ?_ ?_ c
  · simp [Envelope.new, Envelope.hasStamp, Stamp.stampName]
  · have hreceived : ∀ s ∈ [Stamp.received (V := V) transportName t],
        s.stampName ≠ Stamp.nameTrace := by
      intro s hs
      rw [List.mem_singleton.1 hs]
      show Stamp.nameReceived ≠ Stamp.nameTrace
      decide
    change traceHeaders (env'.stamps ++ [.received transportName t]) = _
    rw [traceHeaders_append hreceived, hstamps, traceHeaders_append hextra, h]

/-- A dispatch sends the message: the bus is open, and the stamps and the route lead to one of its
transports. -/
def SendsAsync (b : MessageBus V C) (cmd : V) (stamps : List (Stamp V)) : Prop :=
  b.closed = false ∧ transportOf b (.new cmd stamps 0) ≠ none

/-- The headers of the span are those of no `TraceStamp` that the caller passed: a new span has an
identifier of its own. -/
def FreshSpan (o : Otel C) (stamps : List (Stamp V)) (span : Started C) : Prop :=
  ∀ traceID spanID headers, .trace traceID spanID headers ∈ stamps → headers ≠ o.inject span.ctx

theorem FreshSpan.not_propagates {o : Otel C} {env : Envelope V} {span : Started C}
    (h : FreshSpan o env.stamps span) : ¬ Propagates o env span := by
  intro hp
  have hstamped := hp.stamped
  unfold traceHeaders at hstamped
  split at hstamped
  · rename_i traceID spanID headers hfound
    rw [List.findRev?_eq_find?_reverse] at hfound
    exact h traceID spanID headers (List.mem_reverse.1 (List.mem_of_find?_eq_some hfound))
      (Option.some.inj hstamped)
  · cases hstamped

/-- The result of `Tracing` propagates the span. -/
theorem propagates_injectTraceContext {o : Otel C} {span : Started C}
    (hround : RoundTrips o span.ctx) (env : Envelope V) :
    Propagates o (injectTraceContext o span env) span := by
  refine propagates_of_stamped hround ?_
  simp [traceHeaders, injectTraceContext, List.findRev?_eq_find?_reverse, Stamp.stampName]

/-- **When the dispatch span is propagated.** Let `Tracing` be anywhere among middleware that passes
through, and the headers of new spans be fresh.  Every envelope a dispatch gives to `Send`
propagates its span exactly if it sends nothing: an envelope that is sent has only the stamps of the
caller, and the stamp with the headers of the span is in the result, which would propagate it. -/
theorem propagated_iff {o : Otel C} {b : MessageBus V C} {pre post : List (Middleware V C)}
    (hmw : b.middleware = pre ++ tracing o :: post) (hpre : ∀ m ∈ pre, PassThrough m)
    (hpost : ∀ m ∈ post, PassThrough m) {ctx : C} {cmd : V} {stamps : List (Stamp V)}
    {l : List (Exchange (Reply V C))} {r : Dispatched V}
    (h : Execution (dispatch b ctx cmd stamps) l r) (hround : ∀ p ∈ spansOf l, RoundTrips o p.2.ctx)
    (hfresh : ∀ p ∈ spansOf l, FreshSpan o stamps p.2) :
    ((∀ transport c env reply, ⟨.send transport c env, reply⟩ ∈ l →
        ∃ p ∈ spansOf l, Propagates o env p.2) ↔ ¬ SendsAsync b cmd stamps) ∧
    ∀ transport c env reply, ⟨.send transport c env, reply⟩ ∈ l →
      ∃ c₀ span, spansOf l = [(c₀, span)] ∧ env.stamps = stamps ∧ ¬ Propagates o env span ∧
        (reply = .returned none → ∃ env', r = .returned (.ok ⟨env', true⟩) ∧
          env' = injectTraceContext o span env ∧ Propagates o env' span) := by
  unfold dispatch at h
  split_ifs at h with hclosed
  · obtain ⟨rfl, -⟩ := execution_pure.1 h
    exact ⟨iff_of_true nofun fun hs => absurd hclosed (by simp [hs.1]), nofun⟩
  · obtain ⟨t, l', rfl, hchain⟩ := execution_call.1 h
    rw [hmw] at hchain
    obtain ⟨c₀, span, hspan, hsends⟩ := execution_tracing hpre hpost hchain
    have hspans : spansOf (⟨.now, t⟩ :: l') = [(parentContext o c₀ (.new cmd stamps t), span)] :=
      hspan
    have hsendsOf : sendsOf (⟨.now, t⟩ :: l') = sendsOf l' := rfl
    rw [hspans] at hround hfresh
    have hspanRound : RoundTrips o span.ctx := hround _ (List.mem_singleton_self _)
    have hspanFresh : FreshSpan o stamps span := hfresh _ (List.mem_singleton_self _)
    rcases hsends with ⟨hnone, hnil⟩ | ⟨transport, reply, hsome, hone, rfl⟩
    · -- nothing is sent
      have hno : ∀ transport c env reply, ⟨.send transport c env, reply⟩ ∉
          (⟨.now, t⟩ :: l' : List (Exchange (Reply V C))) := by
        intro transport c env reply hmem
        have hmem' := mem_sendsOf.2 ⟨c, hmem⟩
        rw [hsendsOf, hnil] at hmem'
        cases hmem'
      exact ⟨iff_of_true (fun _ _ _ _ hmem => absurd hmem (hno _ _ _ _)) fun hs => hs.2 hnone,
        fun _ _ _ _ hmem => absurd hmem (hno _ _ _ _)⟩
    · have hnot : ¬ Propagates o (.new cmd stamps t) span := hspanFresh.not_propagates
      constructor
      · refine iff_of_false (fun hall => ?_) (not_not.2 ⟨by simpa using hclosed, ?_⟩)
        · obtain ⟨c, hmem⟩ := mem_sendsOf.1 (hsendsOf.trans hone ▸ List.mem_singleton_self _)
          obtain ⟨p, hp, hprop⟩ := hall _ _ _ _ hmem
          rw [hspans, List.mem_singleton] at hp
          rw [hp] at hprop
          exact hnot hprop
        · exact ne_of_eq_of_ne hsome (Option.some_ne_none _)
      · intro transport' c env reply' hmem
        have hmem' := mem_sendsOf.2 ⟨c, hmem⟩
        rw [hsendsOf, hone, List.mem_singleton] at hmem'
        cases hmem'
        refine ⟨_, span, hspans, rfl, hnot, ?_⟩
        rintro rfl
        exact ⟨_, rfl, rfl, propagates_injectTraceContext hspanRound _⟩

end

/-! ### A dispatch without a trace -/

/-- The W3C trace context, over contexts that carry at most a span: its trace and span
identifiers. -/
def traceContext : Otel (Option (String × String)) where
  inject
    | some (traceID, spanID) => [("traceparent", "00-" ++ traceID ++ "-" ++ spanID ++ "-01")]
    | none => []
  extract ctx headers :=
    match headers.lookup "traceparent" with
    | some parent => some (String.ofList ((parent.toList.drop 3).take 32),
        String.ofList ((parent.toList.drop 36).take 16))
    | none => ctx
  spanContext := id

/-- The span that is started for the dispatch. -/
def dispatchSpan : Started (Option (String × String)) :=
  ⟨some ("0af7651916cd43dd8448eb211c80319c", "b7ad6b7169203331"),
    "0af7651916cd43dd8448eb211c80319c", "b7ad6b7169203331"⟩

theorem roundTrips_dispatchSpan : RoundTrips traceContext dispatchSpan.ctx := by
  refine ⟨by decide, fun c' => ?_⟩
  rfl

/-- A bus with logging and tracing that sends the message to a transport. -/
def tracedBus : MessageBus PlaceOrder (Option (String × String)) where
  handlers := fun _ => none
  routes := StrMap.empty.set "order.PlaceOrder" "async"
  transports := fun name => name = "async"
  middleware := [logging, tracing traceContext]
  closed := false

/-- What a dispatch with these stamps does. -/
def dispatchEvents (stamps : List (Stamp PlaceOrder)) :
    List (Exchange (Reply PlaceOrder (Option (String × String)))) :=
  [⟨.now, (1 : ℤ)⟩, ⟨.now, (2 : ℤ)⟩,
    ⟨.startSpan none "messenger.dispatch order.PlaceOrder" stamps.length false, dispatchSpan⟩,
    ⟨.send "async" dispatchSpan.ctx ⟨⟨"o1"⟩, stamps, 1⟩, .returned none⟩,
    ⟨.now, (3 : ℤ)⟩, ⟨.own 0, (0 : ℕ)⟩]

/-- A stamp with the span of the caller. -/
def callerStamp : Stamp PlaceOrder :=
  .trace "0af7651916cd43dd8448eb211c80319c" "00f067aa0ba902b7"
    [("traceparent", "00-0af7651916cd43dd8448eb211c80319c-00f067aa0ba902b7-01")]

def dispatchResult (stamps : List (Stamp PlaceOrder)) : Dispatched PlaceOrder :=
  .returned (.ok ⟨injectTraceContext traceContext dispatchSpan ⟨⟨"o1"⟩, stamps, 1⟩, true⟩)

theorem execution_dispatchEvents (stamps : List (Stamp PlaceOrder))
    (hstamps : stamps = [callerStamp] ∨ stamps = []) :
    Execution (dispatch tracedBus none ⟨"o1"⟩ stamps) (dispatchEvents stamps)
      (dispatchResult stamps) := by
  rcases hstamps with rfl | rfl <;>
    exact .call (.call (.call (.call (.call (.call (.pure _))))))

/-- The caller passes the span it is in: the envelope given to `Send` has this span, the result has
the span of the dispatch. -/
theorem propagated_iff_caller :
    SendsAsync tracedBus (⟨"o1"⟩ : PlaceOrder) [callerStamp] ∧
    ¬ Propagates traceContext (⟨⟨"o1"⟩, [callerStamp], 1⟩ : Envelope PlaceOrder) dispatchSpan ∧
    Propagates traceContext
      (injectTraceContext traceContext dispatchSpan ⟨⟨"o1"⟩, [callerStamp], 1⟩)
      dispatchSpan := by
  have hround : ∀ p ∈ spansOf (dispatchEvents [callerStamp]), RoundTrips traceContext p.2.ctx := by
    intro p hp
    rw [List.mem_singleton.1 hp]
    exact roundTrips_dispatchSpan
  have hfresh : ∀ p ∈ spansOf (dispatchEvents [callerStamp]),
      FreshSpan traceContext [callerStamp] p.2 := by
    rintro p hp traceID spanID headers hmem
    rw [List.mem_singleton.1 hp]
    cases List.mem_singleton.1 hmem
    decide
  have hlogging : ∀ m ∈ [logging], PassThrough
      (m : Middleware PlaceOrder (Option (String × String))) := by
    intro m hm
    rw [List.mem_singleton.1 hm]
    exact passThrough_logging
  have hmw : tracedBus.middleware = [logging] ++ tracing traceContext :: [] := rfl
  obtain ⟨-, hsent⟩ := propagated_iff hmw hlogging nofun
    (execution_dispatchEvents [callerStamp] (Or.inl rfl)) hround hfresh
  obtain ⟨c₀, span, hspans, -, hnot, hresult⟩ := hsent "async" dispatchSpan.ctx
    ⟨⟨"o1"⟩, [callerStamp], 1⟩ (.returned none)
    (List.mem_cons_of_mem _ (List.mem_cons_of_mem _ (List.mem_cons_of_mem _ List.mem_cons_self)))
  cases hspans
  obtain ⟨env', -, rfl, hprop⟩ := hresult rfl
  exact ⟨⟨rfl, by decide⟩, hnot, hprop⟩

/-- A dispatch without stamps: the envelope given to `Send` has no `TraceStamp`, although the result
has one. -/
theorem untraced :
    Execution (dispatch tracedBus none ⟨"o1"⟩ []) (dispatchEvents []) (dispatchResult []) ∧
      spansOf (dispatchEvents []) = [(none, dispatchSpan)] ∧
      sendsOf (dispatchEvents []) = [("async", ⟨⟨"o1"⟩, [], 1⟩, .returned none)] ∧
      ¬ Propagates traceContext (⟨⟨"o1"⟩, [], 1⟩ : Envelope PlaceOrder) dispatchSpan := by
  refine ⟨execution_dispatchEvents [] (Or.inr rfl), rfl, rfl, fun h => ?_⟩
  cases h.stamped

end WolfCore.Messenger
