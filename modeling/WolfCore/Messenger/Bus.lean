import WolfCore.Lib.Execution
import WolfCore.Messenger.Envelope

/-!
# The message bus (`messenger/bus.go`, `messenger/chain.go`, `messenger/registry.go`,
`messenger/router.go`)

A dispatch is a program over the effects the bus and its middleware have: they read the clock, call
the handler, send an envelope to a transport, start a span.  `C` stands for Go's `context.Context`.

The middleware is arbitrary.  A middleware passes through if it hands the envelope to `next` once,
possibly with another context, returns what `next` returned, and around that does nothing but what
is neutral for the bus (`PassThrough`); the middleware for logging and for time limits are such.
`execution_buildChain` says what a chain that starts with middleware of this kind does.
-/

namespace WolfCore.Messenger

open Go Interleave

inductive Cmd (V C : Type)
  /-- `time.Now` -/
  | now
  /-- what a middleware does on its own: logging, metrics, timers -/
  | own (what : ℕ)
  /-- `tracer.Start`, with the attributes of the span -/
  | startSpan (ctx : C) (name : String) (stampCount : ℕ) (isConsumed : Bool)
  /-- the handler registered under a name -/
  | handle (typeName : String) (ctx : C) (msg : V)
  /-- `Sender.Send` -/
  | send (transport : String) (ctx : C) (env : Envelope V)
  /-- `Receiver.Ack` -/
  | ack (env : Envelope V)
  /-- `Receiver.Reject` -/
  | reject (env : Envelope V) (reason : Err)

/-- The span a tracer started: the context that carries it, and its identifiers. -/
structure Started (C : Type) where
  ctx : C
  traceID : String
  spanID : String

abbrev Reply (V C : Type) : Cmd V C → Type
  | .now => ℤ
  | .own _ => ℕ
  | .startSpan _ _ _ _ => Started C
  | .handle _ _ _ => Outcome (Except Err (Option V))
  | .send _ _ _ => Outcome (Option Err)
  | .ack _ => Option Err
  | .reject _ _ => Option Err

instance {V C : Type} (e : Cmd V C) : Nonempty (Reply V C e) := by
  cases e with
  | now => exact ⟨0⟩
  | own what => exact ⟨0⟩
  | startSpan ctx name stampCount isConsumed => exact ⟨⟨ctx, "", ""⟩⟩
  | handle typeName ctx msg => exact ⟨.panicked ""⟩
  | send transport ctx env => exact ⟨.panicked ""⟩
  | ack env => exact ⟨none⟩
  | reject env reason => exact ⟨none⟩

/-- `DispatchResult`. -/
structure DispatchResult (V : Type) where
  envelope : Envelope V
  async : Bool

/-- How a dispatch ends. -/
abbrev Dispatched (V : Type) := Outcome (Except Err (DispatchResult V))

/-- `MiddlewareNext`, and a terminal function. -/
abbrev Next (V C : Type) := C → Envelope V → Prog (Reply V C) (Dispatched V)

/-- `Middleware`. -/
abbrev Middleware (V C : Type) :=
  C → Envelope V → Next V C → Prog (Reply V C) (Dispatched V)

/-- `buildChain`: the first middleware is the outermost. -/
def buildChain {V C : Type} (terminal : Next V C) : List (Middleware V C) → Next V C
  | [] => terminal
  | m :: ms => fun ctx env => m ctx env (buildChain terminal ms)

/-! ### Handlers and routes -/

/-- `anyHandler`: its kind, and the error of the type assertion `HandleAny` starts with, if any. -/
structure AnyHandler (V : Type) where
  isCommand : Bool
  assertType : V → Option Err

/-- `MessageBus`, with its registry, its routes and the names of its transports. -/
structure MessageBus (V C : Type) where
  handlers : String → Option (AnyHandler V)
  routes : StrMap
  transports : String → Bool
  middleware : List (Middleware V C)
  closed : Bool

/-- `ErrNoHandler`. -/
def errNoHandler : Err := .msg "messenger: no handler registered for message type"

/-- `ErrTransportNotFound`. -/
def errTransportNotFound : Err := .msg "messenger: transport not found"

/-- `ErrBusClosed`. -/
def errBusClosed : Err := .msg "messenger: bus is closed"

/-- The panic of a failed type assertion on a stamp. -/
def stampAssertion (name : String) : String := "interface conversion: stamp.Stamp is not " ++ name

section

variable {V C : Type} [Typed V]

/-- `HandlerRegistry.Resolve`. -/
def resolve (b : MessageBus V C) (msg : V) : Except Err (AnyHandler V) :=
  match b.handlers (Typed.typeNameOf msg) with
  | some h => .ok h
  | none => .error (.wrap "%w: %s" (some (Typed.typeNameOf msg)) errNoHandler)

/-- `Router.Route`. -/
def route (b : MessageBus V C) (msg : V) : String := b.routes.get (Typed.typeNameOf msg)

/-- What `HandleAny` makes of the handler's answer: a command has no result. -/
def AnyHandler.answer (h : AnyHandler V) :
    Outcome (Except Err (Option V)) → Outcome (Except Err (Option V))
  | .returned (.ok v) => .returned (.ok (if h.isCommand then none else v))
  | r => r

/-- `HandleAny`. -/
def handleAny (h : AnyHandler V) (ctx : C) (msg : V) :
    Prog (Reply V C) (Outcome (Except Err (Option V))) :=
  match h.assertType msg with
  | some err => .pure (.returned (.error err))
  | none => .call (.handle (Typed.typeNameOf msg) ctx msg) fun r => .pure (h.answer r)

/-- What the synchronous terminal returns: a result is added as a `ResultStamp`. -/
def handled (env : Envelope V) : Outcome (Except Err (Option V)) → Dispatched V
  | .panicked p => .panicked p
  | .returned (.error err) => .returned (.error err)
  | .returned (.ok (some v)) => .returned (.ok ⟨env.withStamp (.result v), false⟩)
  | .returned (.ok none) => .returned (.ok ⟨env, false⟩)

/-- `makeSyncTerminal`. -/
def syncTerminal (b : MessageBus V C) : Next V C := fun ctx env =>
  match resolve b env.message with
  | .error err => .pure (.returned (.error err))
  | .ok h => (handleAny h ctx env.message).bind fun r => .pure (handled env r)

/-- What `sendToTransport` returns for the answer of the `Sender`. -/
def sent (env : Envelope V) (transportName : String) : Outcome (Option Err) → Dispatched V
  | .panicked p => .panicked p
  | .returned (some err) => .returned (.error
      (.wrap "messenger: transport %q send failed: %w" (some transportName) err))
  | .returned none => .returned (.ok ⟨env, true⟩)

/-- `sendToTransport`. -/
def sendToTransport (b : MessageBus V C) (ctx : C) (env : Envelope V) (transportName : String) :
    Prog (Reply V C) (Dispatched V) :=
  if b.transports transportName then
    .call (.send transportName ctx env) fun r => .pure (sent env transportName r)
  else .pure (.returned (.error (.wrap "%w: %q" (some transportName) errTransportNotFound)))

/-- `makeDispatchTerminal`. -/
def dispatchTerminal (b : MessageBus V C) : Next V C := fun ctx env =>
  if env.hasStamp Stamp.nameForceSync then syncTerminal b ctx env
  else
    match env.last Stamp.nameForceTransport with
    | some (.forceTransport transportName) => sendToTransport b ctx env transportName
    | some _ => .pure (.panicked (stampAssertion "stamp.ForceTransportStamp"))
    | none =>
        if route b env.message = "" then syncTerminal b ctx env
        else sendToTransport b ctx env (route b env.message)

/-- `MessageBus.Dispatch`. -/
def dispatch (b : MessageBus V C) (ctx : C) (cmd : V) (stamps : List (Stamp V)) :
    Prog (Reply V C) (Dispatched V) :=
  if b.closed then .pure (.returned (.error errBusClosed))
  else .call .now fun t => buildChain (dispatchTerminal b) b.middleware ctx (.new cmd stamps t)

end

/-! ### Middleware that passes through -/

section

variable {V C : Type}

/-- Effects that concern the bus: the clock and what a middleware does on its own do not. -/
def Cmd.isEffect : Cmd V C → Bool
  | .now | .own _ => false
  | _ => true

/-- The effects of an execution, without the neutral ones. -/
def effects (l : List (Exchange (Reply V C))) : List (Exchange (Reply V C)) :=
  l.filter fun ev => ev.cmd.isEffect

theorem effects_append (l l' : List (Exchange (Reply V C))) :
    effects (l ++ l') = effects l ++ effects l' := List.filter_append l l'

/-- A program without effects on the bus. -/
def Neutral {α : Type} (p : Prog (Reply V C) α) : Prop := Only (fun e => e.isEffect = false) p

theorem Neutral.effects_eq_nil {α : Type} {p : Prog (Reply V C) α} (hp : Neutral p)
    {l : List (Exchange (Reply V C))} {a : α} (h : Execution p l a) : effects l = [] :=
  List.filter_eq_nil_iff.2 fun ev hev => by simp [Only.mem hp h ev hev]

/-- The middleware hands the envelope to `next` once and returns its result. -/
def PassThrough (m : Middleware V C) : Prop :=
  ∀ ctx env, ∃ (before : Prog (Reply V C) C) (after : Dispatched V → Prog (Reply V C) Unit),
    Neutral before ∧ (∀ r, Neutral (after r)) ∧ ∀ next, m ctx env next =
      before.bind fun ctx' => (next ctx' env).bind fun r => (after r).bind fun _ => .pure r

/-- **A chain that starts with middleware that passes through** has the effects of the rest of the
chain, on the same envelope, and its result. -/
theorem execution_buildChain {terminal : Next V C} {pre ms : List (Middleware V C)}
    (hpre : ∀ m ∈ pre, PassThrough m) {ctx : C} {env : Envelope V}
    {l : List (Exchange (Reply V C))} {r : Dispatched V}
    (h : Execution (buildChain terminal (pre ++ ms) ctx env) l r) :
    ∃ ctx' l', effects l = effects l' ∧ Execution (buildChain terminal ms ctx' env) l' r := by
  induction pre generalizing ctx l with
  | nil => exact ⟨ctx, l, rfl, h⟩
  | cons m pre ih =>
    obtain ⟨before, after, hbefore, hafter, hm⟩ := hpre m List.mem_cons_self ctx env
    change Execution (m ctx env (buildChain terminal (pre ++ ms))) l r at h
    rw [hm, execution_bind] at h
    obtain ⟨l₀, ctx₁, _, rfl, h₀, h⟩ := h
    obtain ⟨l₁, r₁, _, rfl, h₁, h⟩ := execution_bind.1 h
    obtain ⟨l₂, _, _, rfl, h₂, h⟩ := execution_bind.1 h
    obtain ⟨rfl, rfl⟩ := execution_pure.1 h
    obtain ⟨ctx', l', hl', hrest⟩ := ih (fun m hm => hpre m (List.mem_cons_of_mem _ hm)) h₁
    refine ⟨ctx', l', ?_, hrest⟩
    rw [effects_append, effects_append, effects_append, hbefore.effects_eq_nil h₀,
      (hafter r).effects_eq_nil h₂, ← hl']
    simp [effects]

/-- A chain of middleware that passes through has the effects and the result of its terminal. -/
theorem execution_passThrough {terminal : Next V C} {ms : List (Middleware V C)}
    (hms : ∀ m ∈ ms, PassThrough m) {ctx : C} {env : Envelope V}
    {l : List (Exchange (Reply V C))} {r : Dispatched V}
    (h : Execution (buildChain terminal ms ctx env) l r) :
    ∃ ctx' l', effects l = effects l' ∧ Execution (terminal ctx' env) l' r := by
  rw [← List.append_nil ms] at h
  exact execution_buildChain hms h

/-- A chain of middleware that passes through only does what its terminal does, and what is
neutral. -/
theorem only_buildChain {P : Cmd V C → Prop} (hneutral : ∀ e, e.isEffect = false → P e)
    {terminal : Next V C} {ms : List (Middleware V C)} (hms : ∀ m ∈ ms, PassThrough m)
    {env : Envelope V} (hterminal : ∀ ctx, Only P (terminal ctx env))
    (ctx : C) : Only P (buildChain terminal ms ctx env) := by
  induction ms generalizing ctx with
  | nil => exact hterminal ctx
  | cons m ms ih =>
    obtain ⟨hm, hms⟩ := List.forall_mem_cons.1 hms
    obtain ⟨before, after, hbefore, hafter, heq⟩ := hm ctx env
    show Only P (m ctx env (buildChain terminal ms))
    rw [heq]
    refine (hbefore.imp hneutral).bind fun ctx' => (ih hms ctx').bind fun r => ?_
    exact ((hafter r).imp hneutral).bind fun _ => trivial

/-- `Logging.Handle`: the clock is read before and after, and a line is logged. -/
def logging : Middleware V C := fun ctx env next =>
  .call .now fun _ => (next ctx env).bind fun r =>
    match r with
    | .panicked p => .pure (.panicked p)
    | .returned result => .call .now fun _ => .call (.own 0) fun _ => .pure (.returned result)

/-- `Timeout.Handle`: `next` runs with a derived context, and the timer is stopped afterwards. -/
def timeout (withTimeout : C → ℤ → C) (duration : Envelope V → ℤ) : Middleware V C :=
  fun ctx env next => .call (.own 0) fun _ =>
    (next (withTimeout ctx (duration env)) env).bind fun r => .call (.own 1) fun _ => .pure r

theorem passThrough_logging : PassThrough (logging : Middleware V C) := by
  intro ctx env
  refine ⟨.call .now fun _ => .pure ctx, fun r =>
    match r with
    | .panicked _ => .pure ()
    | .returned _ => .call .now fun _ => .call (.own 0) fun _ => .pure (), ?_, ?_, ?_⟩
  · exact ⟨rfl, fun _ => trivial⟩
  · rintro (_ | _)
    · exact ⟨rfl, fun _ => ⟨rfl, fun _ => trivial⟩⟩
    · trivial
  · intro next
    simp only [logging, Prog.bind]
    congr
    funext t
    congr
    funext r
    cases r <;> rfl

theorem passThrough_timeout (withTimeout : C → ℤ → C) (duration : Envelope V → ℤ) :
    PassThrough (timeout withTimeout duration) := by
  intro ctx env
  refine ⟨.call (.own 0) fun _ => .pure (withTimeout ctx (duration env)), fun _ =>
    .call (.own 1) fun _ => .pure (), ⟨rfl, fun _ => trivial⟩, fun _ => ⟨rfl, fun _ => trivial⟩, ?_⟩
  intro next
  rfl

end

end WolfCore.Messenger
