import WolfCore.Config.Validate

/-!
# What is built from the configuration alone

`cors` is the middleware `BuildChain` makes of the CORS section, and `newBus` and `newStream` are
the two constructors of package `events` that get the broker's driver.  The library behind `cors`
is a parameter, `corsNew`, which checks the origins on its own (`ChecksOrigins`), and so is what the
NATS server answers (`NatsServer`).

`validated_boots_iff` says for every valid configuration when all three succeed.  Two acceptance
checks meet here that were written apart.  The validator looks for the wildcard in the origins as
given, and the constructor only after it has put a wildcard into an empty list; and the validator
lets every driver pass that it does not know, while the constructors refuse them.
-/

namespace WolfCore.Config

open Go

/-! ## The CORS middleware -/

/-- `cors.Config`, with the fields the middleware sets. -/
structure CorsSettings where
  allowOrigins : List String
  allowMethods : List String
  allowHeaders : List String
  allowCredentials : Bool
  maxAge : ℤ

section

variable {H : Type}

/-- What `cors.New` is taken to do: it panics unless there is an origin and it accepts all of them,
and the wildcard is one it accepts. -/
structure ChecksOrigins (corsNew : CorsSettings → Outcome H) (accepts : String → Bool) : Prop where
  wildcard : accepts "*" = true
  returns_iff : ∀ settings, (∃ handler, corsNew settings = .returned handler) ↔
    settings.allowOrigins ≠ [] ∧ ∀ o ∈ settings.allowOrigins, accepts o = true

def orDefault (values default : List String) : List String :=
  if values = [] then default else values

/-- Package `http`'s `CORS`; `MaxAge` becomes a duration, in 64 bits. -/
def cors (corsNew : CorsSettings → Outcome H) (cfg : CORSConfig) : Outcome H :=
  let allowed := orDefault cfg.allowedOrigins ["*"]
  if cfg.allowCredentials ∧ "*" ∈ allowed then
    .panicked ("cors: AllowCredentials=true is incompatible with wildcard origin \"*\"; " ++
      "list explicit origins instead")
  else
    corsNew
      { allowOrigins := allowed
        allowMethods := orDefault cfg.allowedMethods
          ["GET", "POST", "PUT", "PATCH", "DELETE", "OPTIONS"]
        allowHeaders := orDefault cfg.allowedHeaders
          ["Origin", "Content-Type", "Accept", "Authorization", "X-Request-ID"]
        allowCredentials := cfg.allowCredentials
        maxAge := (cfg.maxAge * second).bmod (2 ^ 64) }

theorem orDefault_ne_nil {values default : List String} (h : default ≠ []) :
    orDefault values default ≠ [] := by
  unfold orDefault
  split <;> assumption

/-- Both checks are of the origins after the default. -/
theorem returned_cors_iff {corsNew : CorsSettings → Outcome H} {accepts : String → Bool}
    (hlib : ChecksOrigins corsNew accepts) {cfg : CORSConfig} :
    (∃ handler, cors corsNew cfg = .returned handler) ↔
      ¬(cfg.allowCredentials ∧ "*" ∈ orDefault cfg.allowedOrigins ["*"]) ∧
        ∀ o ∈ orDefault cfg.allowedOrigins ["*"], accepts o = true := by
  unfold cors
  by_cases hwild : cfg.allowCredentials ∧ "*" ∈ orDefault cfg.allowedOrigins ["*"]
  · simp [hwild]
  · simp only [hwild, if_false, hlib.returns_iff, not_false_eq_true, true_and]
    exact and_iff_right (orDefault_ne_nil (by simp))

end

/-! ## The event bus and the stream -/

inductive EventBus
  | inProcess
  deriving DecidableEq

/-- `events.NewBus`. -/
def newBus (driver : String) : Except Err EventBus :=
  if driver = brokerInProcess ∨ driver = brokerNATS ∨ driver = brokerKafka ∨
    driver = brokerRabbitMQ then
    .ok .inProcess
  else .error (.msg ("events: unknown driver " ++ driver.quote))

/-- What the NATS server answers to a connection, to the request for a JetStream context, and to the
creation of a stream with its subjects and replicas. -/
structure NatsServer where
  connect : String → Option Err
  jetStream : Option Err
  createOrUpdateStream : String → List String → ℤ → Option Err

/-- A connected NATS bus: the stream it is bound to, with its subjects and replicas. -/
structure NatsBus where
  url : String
  stream : String
  subjects : List String
  replicas : ℤ

/-- Package `nats`'s `NewBus`. -/
def natsNewBus (server : NatsServer) (cfg : NATSConfig) : Except Err NatsBus :=
  if cfg.url = "" then .error (.msg "nats: URL must not be empty")
  else if cfg.stream = "" then .error (.msg "nats: Stream name must not be empty")
  else if cfg.subjects = [] then .error (.msg "nats: at least one Subject must be provided")
  else
    let replicas := if cfg.replicas ≤ 0 then 1 else cfg.replicas
    match server.connect cfg.url with
    | some err => .error (.wrap ("nats: connect to " ++ cfg.url ++ ": %w") none err)
    | none =>
      match server.jetStream with
      | some err => .error (.wrap "nats: create JetStream context: %w" none err)
      | none =>
        match server.createOrUpdateStream cfg.stream cfg.subjects replicas with
        | some err => .error (.wrap "nats: create or update stream %q: %w" (some cfg.stream) err)
        | none => .ok ⟨cfg.url, cfg.stream, cfg.subjects, replicas⟩

/-- `StreamResult`: the stream, which for NATS also has a health check. -/
inductive StreamResult
  | inProcess
  | nats (bus : NatsBus)

/-- `events.NewStream`. -/
def newStream (server : NatsServer) (driver : String) (nats : NATSConfig) :
    Except Err StreamResult :=
  if driver = brokerInProcess then .ok .inProcess
  else if driver = brokerNATS then (natsNewBus server nats).map .nats
  else .error (.msg ("events: unsupported stream driver " ++ driver.quote))

/-- A server that lets every client in and creates every stream. -/
def NatsServer.Accepts (server : NatsServer) : Prop :=
  (∀ url, server.connect url = none) ∧ server.jetStream = none ∧
    ∀ stream subjects replicas, server.createOrUpdateStream stream subjects replicas = none

theorem natsNewBus_of_accepts {server : NatsServer} (h : server.Accepts) {cfg : NATSConfig}
    (hurl : cfg.url ≠ "") (hstream : cfg.stream ≠ "")
    (hsubjects : cfg.subjects ≠ []) : ∃ bus, natsNewBus server cfg = .ok bus := by
  obtain ⟨hconnect, hjetStream, hcreate⟩ := h
  simp [natsNewBus, hurl, hstream, hsubjects, hconnect, hjetStream, hcreate]

/-! ## Booting -/

/-- The parts that depend only on the configuration can be built: the middleware and the event bus,
and the stream wherever the server makes no trouble. -/
structure Boots {H : Type} (corsNew : CorsSettings → Outcome H) (c : Config) : Prop where
  cors : ∃ handler, cors corsNew c.http.cors = .returned handler
  bus : ∃ bus, newBus c.broker.driver = .ok bus
  stream : ∀ server : NatsServer, server.Accepts →
    ∃ result, newStream server c.broker.driver c.nats = .ok result

def openServer : NatsServer := ⟨fun _ => none, none, fun _ _ _ => none⟩

theorem openServer_accepts : openServer.Accepts :=
  ⟨fun _ => rfl, rfl, fun _ _ _ => rfl⟩

/-- The middleware of a valid configuration: the validator has excluded a wildcard among the
origins, but not the one that stands for an empty list. -/
theorem cors_of_valid {H : Type} {corsNew : CorsSettings → Outcome H} {accepts : String → Bool}
    (hlib : ChecksOrigins corsNew accepts) {cfg : CORSConfig} (h : validateCORS cfg = []) :
    (∃ handler, cors corsNew cfg = .returned handler) ↔
      (cfg.allowCredentials = true → cfg.allowedOrigins ≠ []) ∧
        ∀ o ∈ cfg.allowedOrigins, accepts o = true := by
  have hwild : cfg.allowCredentials = true → "*" ∉ cfg.allowedOrigins := by
    simp only [validateCORS, List.append_eq_nil_iff, failIf_eq_nil, not_and] at h
    exact h.1
  rw [returned_cors_iff hlib]
  by_cases hempty : cfg.allowedOrigins = []
  · simp [orDefault, hempty, hlib.wildcard]
  · simp only [orDefault, hempty, if_false, not_and, ne_eq, not_false_eq_true, implies_true,
      true_and]
    exact and_iff_right hwild

theorem newStream_of_valid {driver : String} {nats : NATSConfig}
    (h : validateBroker driver nats = []) :
    (∀ server : NatsServer, server.Accepts → ∃ result, newStream server driver nats = .ok result) ↔
      driver = brokerInProcess ∨ driver = brokerNATS := by
  constructor
  · intro hall
    obtain ⟨result, hresult⟩ := hall openServer openServer_accepts
    by_contra hno
    obtain ⟨hin, hnats⟩ := not_or.1 hno
    simp [newStream, hin, hnats] at hresult
  · rintro (rfl | rfl) server haccepts
    · exact ⟨_, if_pos rfl⟩
    -- the three fields the constructor asks for are those the validator has checked
    · simp only [validateBroker, List.append_eq_nil_iff] at h
      obtain ⟨-, h⟩ := h
      rw [if_neg (by decide), if_neg (by decide), if_true] at h
      simp only [List.append_eq_nil_iff, notEmpty_eq_nil, failIf_eq_nil] at h
      obtain ⟨bus, hbus⟩ := natsNewBus_of_accepts haccepts h.1.1 h.1.2 h.2
      exact ⟨.nats bus, by
        rw [newStream, if_neg (by decide), if_pos rfl, hbus]
        rfl⟩

/-- A valid configuration boots exactly when it does not ask for credentials without naming an
origin, the library accepts its origins, and its driver is one of the two that are implemented. -/
theorem validated_boots_iff {H : Type} {corsNew : CorsSettings → Outcome H}
    {accepts : String → Bool} (hlib : ChecksOrigins corsNew accepts) (c : Config)
    (h : c.validate = none) :
    Boots corsNew c ↔
      (c.http.cors.allowCredentials = true → c.http.cors.allowedOrigins ≠ []) ∧
        (∀ o ∈ c.http.cors.allowedOrigins, accepts o = true) ∧
          (c.broker.driver = brokerInProcess ∨ c.broker.driver = brokerNATS) := by
  obtain ⟨hcors, hbroker⟩ := sections_of_validate h
  constructor
  · intro hboots
    obtain ⟨hcredentials, horigins⟩ := (cors_of_valid hlib hcors).1 hboots.cors
    exact ⟨hcredentials, horigins, (newStream_of_valid hbroker).1 hboots.stream⟩
  · rintro ⟨hcredentials, horigins, hdriver⟩
    have hbus : ∃ bus, newBus c.broker.driver = .ok bus :=
      ⟨.inProcess, if_pos (hdriver.imp_right .inl)⟩
    exact ⟨(cors_of_valid hlib hcors).2 ⟨hcredentials, horigins⟩, hbus,
      (newStream_of_valid hbroker).2 hdriver⟩

/-- An origin with a wildcard or one of the two schemes. -/
def webOrigin (o : String) : Bool :=
  o.toList.contains '*' || "http://".toList.isPrefixOf o.toList ||
    "https://".toList.isPrefixOf o.toList

/-- A library that accepts those. -/
def webCors (settings : CorsSettings) : Outcome CorsSettings :=
  if settings.allowOrigins = [] then .panicked "conflict settings: all origins disabled"
  else if settings.allowOrigins.all webOrigin then .returned settings
  else .panicked "bad origin"

theorem webCors_checks : ChecksOrigins webCors webOrigin where
  wildcard := by decide
  returns_iff settings := by
    unfold webCors
    split_ifs with hempty hall
    · simp [hempty]
    · simpa [hempty] using hall
    · simpa [hempty] using hall

/-- The defaults, with what a deployment has to provide. -/
def development : Config :=
  defaultsWith "postgres://wolf@db/wolf" "postgres://wolf@replica/wolf"
    "00000000000000000000000000000000"

/-- The defaults boot. -/
theorem development_boots : development.validate = none ∧ Boots webCors development := by
  have hvalid : development.validate = none := by decide +kernel
  refine ⟨hvalid, (validated_boots_iff webCors_checks development hvalid).2 ⟨?_, ?_, ?_⟩⟩
  · decide
  · decide +kernel
  · exact .inl rfl

/-- The defaults with an empty list of origins. -/
def noOrigins : Config :=
  { development with
    http := { development.http with
      cors := { development.http.cors with allowedOrigins := [] } } }

/-- The defaults with the name of the broker in capitals. -/
def capitals : Config := { development with broker := ⟨"NATS"⟩ }

/-- Both are valid.  With the one the middleware panics, whatever the library does, and with the
other neither constructor knows the driver. -/
theorem valid_does_not_boot :
    noOrigins.validate = none ∧
    (∀ (H : Type) (corsNew : CorsSettings → Outcome H), cors corsNew noOrigins.http.cors =
      .panicked ("cors: AllowCredentials=true is incompatible with wildcard origin \"*\"; " ++
        "list explicit origins instead")) ∧
    capitals.validate = none ∧
    newBus capitals.broker.driver = .error (.msg ("events: unknown driver " ++ "NATS".quote)) ∧
    newStream openServer capitals.broker.driver capitals.nats =
      .error (.msg ("events: unsupported stream driver " ++ "NATS".quote)) := by
  refine ⟨by decide +kernel, fun H corsNew => ?_, by decide +kernel, ?_, ?_⟩
  · rfl
  · rfl
  · rfl

end WolfCore.Config
