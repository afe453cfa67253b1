import Mathlib.Data.List.Infix
import WolfCore.Lib.Float64
import WolfCore.Lib.Go

/-!
# The configuration and its validation

`Config` is what `Load` hands to the rest of the service, with the sections in the order of the
source and in each the fields the validators or the constructors of `Boot` read.  Durations are in
nanoseconds.

`Config.validate` collects every error of every section before it returns, so that it is nil exactly
when all of them are.  Most of its checks are of four shapes, which take the path of the field as an
argument.

`defaults` are the values of `setDefaults`.  They pass every check but three: the two data source
names and the JWT secret have to come from the deployment (`errors_defaults`).
-/

namespace WolfCore.Config

open Go

def millisecond : ℤ := 1000000
def second : ℤ := 1000 * millisecond
def minute : ℤ := 60 * second
def hour : ℤ := 60 * minute

/-! ## The sections -/

structure AppConfig where
  name : String
  env : String
  debug : Bool
  shutdownTimeout : ℤ

structure CORSConfig where
  allowedOrigins : List String
  allowedMethods : List String
  allowedHeaders : List String
  allowCredentials : Bool
  maxAge : ℤ

structure HTTPConfig where
  port : ℤ
  readTimeout : ℤ
  writeTimeout : ℤ
  idleTimeout : ℤ
  maxHeaderBytes : ℤ
  trustedProxies : List String
  cors : CORSConfig

structure GRPCConfig where
  port : ℤ
  maxRecvMsgSize : ℤ
  maxSendMsgSize : ℤ
  keepaliveTime : ℤ
  keepaliveTimeout : ℤ

structure PoolConfig where
  dsn : String
  maxOpenConns : ℤ
  maxIdleConns : ℤ
  connMaxLifetime : ℤ
  connMaxIdleTime : ℤ

structure DBConfig where
  write : PoolConfig
  read : PoolConfig

structure RedisConfig where
  addr : String
  db : ℤ
  poolSize : ℤ
  readTimeout : ℤ
  writeTimeout : ℤ
  dialTimeout : ℤ

structure CacheConfig where
  driver : String

structure BrokerConfig where
  driver : String

structure NATSConfig where
  url : String
  stream : String
  subjects : List String
  replicas : ℤ

structure LoggingConfig where
  level : String
  format : String

structure TracingConfig where
  enabled : Bool
  exporter : String
  endpoint : String
  sampleRate : Float64.Value
  insecure : Bool

structure MetricsConfig where
  enabled : Bool
  port : ℤ

structure CircuitBreakerConfig where
  maxRequests : ℤ
  interval : ℤ
  timeout : ℤ

structure RateLimitConfig where
  rps : ℤ
  burst : ℤ

structure LoadShedConfig where
  maxConcurrent : ℤ

structure SecurityHeadersConfig where
  enabled : Bool
  hsts : Bool
  hstsMaxAge : ℤ

structure OutboxConfig where
  pollInterval : ℤ
  batchSize : ℤ
  maxRetries : ℤ
  retention : ℤ
  pollTimeout : ℤ
  healthThreshold : ℤ

structure JWTConfig where
  signingMethod : String
  secretKey : String
  privateKeyPath : String
  publicKeyPath : String
  accessTokenTTL : ℤ
  refreshTokenTTL : ℤ
  issuer : String
  audience : List String

structure BcryptConfig where
  cost : ℤ

structure SessionConfig where
  revokeOnRoleChange : Bool

end WolfCore.Config

namespace WolfCore

structure Config where
  app : Config.AppConfig
  http : Config.HTTPConfig
  grpc : Config.GRPCConfig
  db : Config.DBConfig
  redis : Config.RedisConfig
  cache : Config.CacheConfig
  broker : Config.BrokerConfig
  nats : Config.NATSConfig
  log : Config.LoggingConfig
  otel : Config.TracingConfig
  metrics : Config.MetricsConfig
  cb : Config.CircuitBreakerConfig
  rateLimit : Config.RateLimitConfig
  loadShed : Config.LoadShedConfig
  securityHeaders : Config.SecurityHeadersConfig
  outbox : Config.OutboxConfig
  jwt : Config.JWTConfig
  bcrypt : Config.BcryptConfig
  session : Config.SessionConfig

namespace Config

open Go

def envDevelopment : String := "development"
def envStaging : String := "staging"
def envProduction : String := "production"

def brokerInProcess : String := "inprocess"
def brokerKafka : String := "kafka"
def brokerRabbitMQ : String := "rabbitmq"
def brokerNATS : String := "nats"

def cacheDriverRedis : String := "redis"
def cacheDriverNoop : String := "noop"

/-! ## The shapes of the checks -/

/-- An error with this text, if the check fails. -/
def failIf (bad : Prop) [Decidable bad] (text : String) : List Err :=
  if bad then [.msg text] else []

@[simp] theorem failIf_eq_nil {bad : Prop} [Decidable bad] {text : String} :
    failIf bad text = [] ↔ ¬bad := by
  simp [failIf]

def notEmpty (field value : String) : List Err :=
  failIf (value = "") (field ++ " must not be empty")

def positive (field : String) (value : ℤ) : List Err :=
  failIf (value ≤ 0) (field ++ " must be positive")

def notNegative (field : String) (value : ℤ) : List Err :=
  failIf (value < 0) (field ++ " must not be negative")

def validatePort (name : String) (port : ℤ) : List Err :=
  failIf (port < 1 ∨ 65535 < port) (name ++ " (" ++ itoa port ++ ") must be between 1 and 65535")

@[simp] theorem notEmpty_eq_nil {field value : String} :
    notEmpty field value = [] ↔ value ≠ "" := by
  simp [notEmpty]

/-! ## The validators -/

def validEnvs : List String := [envDevelopment, envStaging, envProduction]
def validLogLevels : List String := ["debug", "info", "warn", "error"]
def validLogFormats : List String := ["json", "console"]

def knownWeakSecrets : List String :=
  ["change-me-in-production", "your-secret-key", "secret", "supersecret", "my-secret-key",
    "jwt-secret", "development-secret-key", "wolf-dev-secret", "wolf-prime-dev-secret-key"]

def defaultK8sGracePeriod : ℤ := 30 * second

def validateApp (cfg : AppConfig) : List Err :=
  notEmpty "app.name" cfg.name ++
  failIf (cfg.env ∉ validEnvs)
    ("app.env " ++ cfg.env.quote ++
      " is invalid: must be one of development, staging, production") ++
  failIf (cfg.debug ∧ cfg.env = envProduction)
    "app.debug must be false in production (exposes pprof and verbose output)" ++
  failIf (defaultK8sGracePeriod ≤ cfg.shutdownTimeout)
    ("app.shutdown_timeout (" ++ durationString cfg.shutdownTimeout ++
      ") must be less than K8s terminationGracePeriodSeconds (" ++
        durationString defaultK8sGracePeriod ++
      ") to avoid SIGKILL during drain")

def validateCORS (cfg : CORSConfig) : List Err :=
  failIf (cfg.allowCredentials ∧ "*" ∈ cfg.allowedOrigins)
    "http.cors: allow_credentials=true is incompatible with wildcard origin \"*\"" ++
  notNegative "http.cors.max_age" cfg.maxAge

def validateHTTP (cfg : HTTPConfig) : List Err :=
  validatePort "http.port" cfg.port ++
  positive "http.read_timeout" cfg.readTimeout ++
  positive "http.write_timeout" cfg.writeTimeout ++
  positive "http.idle_timeout" cfg.idleTimeout ++
  positive "http.max_header_bytes" cfg.maxHeaderBytes ++
  validateCORS cfg.cors

def validateGRPC (cfg : GRPCConfig) (httpPort : ℤ) : List Err :=
  validatePort "grpc.port" cfg.port ++
  failIf (cfg.port ≠ 0 ∧ cfg.port = httpPort)
    ("grpc.port (" ++ itoa cfg.port ++ ") must differ from http.port (" ++ itoa httpPort ++ ")") ++
  positive "grpc.max_recv_msg_size" cfg.maxRecvMsgSize ++
  positive "grpc.max_send_msg_size" cfg.maxSendMsgSize ++
  positive "grpc.keepalive_time" cfg.keepaliveTime ++
  positive "grpc.keepalive_timeout" cfg.keepaliveTimeout

/-- The checks of one pool, whose path is `pool`. -/
def validatePool (pool : String) (cfg : PoolConfig) : List Err :=
  notEmpty (pool ++ ".dsn") cfg.dsn ++
  positive (pool ++ ".max_open_conns") cfg.maxOpenConns ++
  positive (pool ++ ".max_idle_conns") cfg.maxIdleConns ++
  failIf (cfg.maxOpenConns < cfg.maxIdleConns)
    (pool ++ ".max_idle_conns (" ++ itoa cfg.maxIdleConns ++ ") must not exceed max_open_conns (" ++
      itoa cfg.maxOpenConns ++ ")") ++
  positive (pool ++ ".conn_max_lifetime") cfg.connMaxLifetime ++
  positive (pool ++ ".conn_max_idle_time") cfg.connMaxIdleTime

def validateDB (cfg : DBConfig) : List Err :=
  validatePool "db.write" cfg.write ++ validatePool "db.read" cfg.read

/-- The Redis section counts only with the driver that uses it, and a driver nobody knows is an
error. -/
def validateRedis (driver : String) (cfg : RedisConfig) : List Err :=
  if driver = cacheDriverRedis then
    failIf (cfg.addr = "") "redis.addr must not be empty when cache driver is redis" ++
    positive "redis.pool_size" cfg.poolSize ++
    failIf (cfg.db < 0) "redis.db must be >= 0" ++
    positive "redis.dial_timeout" cfg.dialTimeout ++
    positive "redis.read_timeout" cfg.readTimeout ++
    positive "redis.write_timeout" cfg.writeTimeout
  else if driver = cacheDriverNoop then []
  else if driver = "" then [.msg "cache.driver must not be empty"]
  else [.msg ("cache.driver " ++ driver.quote ++ " is invalid: must be redis or noop")]

def notYetImplemented (driver : String) : Err :=
  .msg ("broker.driver " ++ driver.quote ++ " is not yet implemented (use inprocess or nats)")

/-- Unlike `validateRedis`, the switch has no default case. -/
def validateBroker (driver : String) (nats : NATSConfig) : List Err :=
  notEmpty "broker.driver" driver ++
  if driver = brokerKafka then [notYetImplemented driver]
  else if driver = brokerRabbitMQ then [notYetImplemented driver]
  else if driver = brokerNATS then
    notEmpty "nats.url" nats.url ++
    notEmpty "nats.stream" nats.stream ++
    failIf (nats.subjects = []) "nats.subjects must have at least one entry"
  else []

def validateLog (cfg : LoggingConfig) : List Err :=
  failIf (cfg.level ∉ validLogLevels)
    ("log.level " ++ cfg.level.quote ++ " is invalid: must be debug, info, warn, or error") ++
  failIf (cfg.format ∉ validLogFormats)
    ("log.format " ++ cfg.format.quote ++ " is invalid: must be json or console")

def validateOtel (cfg : TracingConfig) : List Err :=
  if !cfg.enabled then []
  else
    failIf (cfg.exporter = "") "otel.exporter must not be empty when tracing is enabled" ++
    failIf (cfg.endpoint = "") "otel.endpoint must not be empty when tracing is enabled" ++
    failIf (cfg.sampleRate.lt (.finite 0) ∨ Float64.Value.lt (.finite 1) cfg.sampleRate)
      "otel.sample_rate must be between 0.0 and 1.0"

def validateMetrics (cfg : MetricsConfig) (httpPort grpcPort : ℤ) : List Err :=
  if !cfg.enabled then []
  else
    validatePort "metrics.port" cfg.port ++
    failIf (cfg.port = httpPort)
      ("metrics.port (" ++ itoa cfg.port ++ ") must differ from http.port (" ++
        itoa httpPort ++ ")") ++
    failIf (cfg.port = grpcPort)
      ("metrics.port (" ++ itoa cfg.port ++ ") must differ from grpc.port (" ++
        itoa grpcPort ++ ")")

def validateCB (cfg : CircuitBreakerConfig) : List Err :=
  positive "cb.max_requests" cfg.maxRequests ++
  positive "cb.interval" cfg.interval ++
  positive "cb.timeout" cfg.timeout

def validateRateLimit (cfg : RateLimitConfig) : List Err :=
  if cfg.rps = 0 then []
  else
    failIf (cfg.rps < 0) "rate_limit.rps must be >= 0 (0 = disabled)" ++
    failIf (cfg.burst ≤ 0) "rate_limit.burst must be positive when rate limiting is enabled"

def validateLoadShed (cfg : LoadShedConfig) : List Err :=
  notNegative "load_shed.max_concurrent" cfg.maxConcurrent

def validateSecurityHeaders (cfg : SecurityHeadersConfig) : List Err :=
  if !cfg.enabled then []
  else failIf (cfg.hsts ∧ cfg.hstsMaxAge < 0) "security_headers.hsts_max_age must not be negative"

def validateOutbox (cfg : OutboxConfig) : List Err :=
  positive "outbox.poll_interval" cfg.pollInterval ++
  positive "outbox.batch_size" cfg.batchSize ++
  positive "outbox.max_retries" cfg.maxRetries ++
  positive "outbox.retention" cfg.retention ++
  notNegative "outbox.poll_timeout" cfg.pollTimeout ++
  notNegative "outbox.health_threshold" cfg.healthThreshold

def maxRefreshTTL : ℤ := 2160 * hour

/-- The length of the secret is in bytes. -/
def validateJWT (cfg : JWTConfig) : List Err :=
  failIf ("$\x7b".toList <:+: cfg.secretKey.toList)
    "jwt.secret_key contains unexpanded variable placeholder" ++
  (if cfg.signingMethod = "HS256" then
    failIf (cfg.secretKey.utf8ByteSize < 32)
      "jwt.secret_key must be at least 32 characters for HS256"
  else if cfg.signingMethod = "RS256" then
    failIf (cfg.privateKeyPath = "") "jwt.private_key_path must not be empty for RS256" ++
    failIf (cfg.publicKeyPath = "") "jwt.public_key_path must not be empty for RS256"
  else [.msg
    ("jwt.signing_method " ++ cfg.signingMethod.quote ++ " is invalid: must be HS256 or RS256")]) ++
  failIf (cfg.accessTokenTTL < minute) "jwt.access_token_ttl must be at least 1m" ++
  failIf (hour < cfg.accessTokenTTL) "jwt.access_token_ttl must be at most 1h" ++
  failIf (cfg.refreshTokenTTL < hour) "jwt.refresh_token_ttl must be at least 1h" ++
  failIf (maxRefreshTTL < cfg.refreshTokenTTL)
    "jwt.refresh_token_ttl must be at most 2160h (90 days)" ++
  notEmpty "jwt.issuer" cfg.issuer ++
  failIf (cfg.audience.length ≠ 1)
    ("jwt.audience must contain exactly one entry, got " ++ itoa cfg.audience.length)

def validateBcrypt (cfg : BcryptConfig) : List Err :=
  failIf (cfg.cost < 10) "bcrypt.cost must be at least 10" ++
  failIf (14 < cfg.cost) "bcrypt.cost must be at most 14"

def validateSession (_ : SessionConfig) : List Err := []

def isSpace (c : Char) : Bool :=
  c.val ∈ [0x09, 0x0a, 0x0b, 0x0c, 0x0d, 0x20, 0x85, 0xa0, 0x1680, 0x2028, 0x2029, 0x202f, 0x205f,
    0x3000] ||
    (0x2000 ≤ c.val && c.val ≤ 0x200a)

/-- `unicode.ToLower`, as far as it gives ASCII letters: besides the capitals only two characters
do. -/
def lowerRune (c : Char) : Char :=
  if c.val = 0x212a then 'k' else if c.val = 0x130 then 'i' else c.toLower

/-- `strings.ToLower(strings.TrimSpace(s))`. -/
def normalise (s : String) : String :=
  String.ofList ((((s.toList.dropWhile isSpace).reverse.dropWhile isSpace).reverse).map lowerRune)

def validateProductionSafety (c : Config) : List Err :=
  failIf (c.broker.driver = brokerInProcess)
    ("production: broker.driver must not be " ++ brokerInProcess.quote ++ " (use nats)") ++
  failIf (c.cache.driver = "noop" ∨ c.cache.driver = "")
    ("production: cache.driver must not be empty or " ++ "noop".quote ++
      " (token revocation requires redis)") ++
  failIf c.otel.insecure "production: otel.insecure must be false (use TLS for trace export)" ++
  failIf (normalise c.jwt.secretKey ∈ knownWeakSecrets)
    "production: jwt.secret_key is a known weak default — use a strong random secret" ++
  failIf (0 < c.rateLimit.rps ∧ c.http.trustedProxies = [])
    ("production: http.trusted_proxies must be set when rate limiting is enabled " ++
      "(prevents rate-limit by proxy IP)")

/-- Everything `Validate` finds, in its order. -/
def errors (c : Config) : List Err :=
  List.flatten
    [validateApp c.app,
      validateHTTP c.http,
      validateGRPC c.grpc c.http.port,
      validateDB c.db,
      validateRedis c.cache.driver c.redis,
      validateBroker c.broker.driver c.nats,
      validateLog c.log,
      validateOtel c.otel,
      validateMetrics c.metrics c.http.port c.grpc.port,
      validateCB c.cb,
      validateRateLimit c.rateLimit,
      validateLoadShed c.loadShed,
      validateSecurityHeaders c.securityHeaders,
      validateOutbox c.outbox,
      validateJWT c.jwt,
      validateBcrypt c.bcrypt,
      validateSession c.session,
      if c.app.env = envProduction then validateProductionSafety c else []]

/-- `errors.Join`: nil without an error, and otherwise all of them. -/
def join : List Err → Option (List Err)
  | [] => none
  | errs => some errs

@[simp] theorem join_eq_none {errs : List Err} : join errs = none ↔ errs = [] := by
  cases errs <;> simp [join]

def validate (c : Config) : Option (List Err) := join c.errors

/-- A valid configuration passes the checks of its CORS section and of its broker. -/
theorem sections_of_validate {c : Config} (h : c.validate = none) :
    validateCORS c.http.cors = [] ∧ validateBroker c.broker.driver c.nats = [] := by
  rw [validate, join_eq_none, errors, List.flatten_eq_nil_iff] at h
  have hhttp := h (validateHTTP c.http) (by simp only [List.mem_cons, true_or, or_true])
  have hbroker :=
    h (validateBroker c.broker.driver c.nats) (by simp only [List.mem_cons, true_or, or_true])
  rw [validateHTTP, List.append_eq_nil_iff] at hhttp
  exact ⟨hhttp.2, hbroker⟩

/-! ## The defaults -/

def defaults : Config where
  app := ⟨"wolf-prime", envDevelopment, false, 15 * second⟩
  http :=
    { port := 8080
      readTimeout := 10 * second
      writeTimeout := 15 * second
      idleTimeout := 120 * second
      maxHeaderBytes := 1048576
      trustedProxies := []
      cors :=
        { allowedOrigins := ["http://localhost:3000"]
          allowedMethods := ["GET", "POST", "PUT", "PATCH", "DELETE", "OPTIONS"]
          allowedHeaders := ["Authorization", "Content-Type", "X-Request-ID", "Idempotency-Key"]
          allowCredentials := true
          maxAge := 86400 } }
  grpc := ⟨9090, 4194304, 4194304, 30 * second, 10 * second⟩
  db :=
    { write := ⟨"", 25, 10, 5 * minute, minute⟩
      read := ⟨"", 50, 25, 5 * minute, minute⟩ }
  redis := ⟨"localhost:6379", 0, 20, 3 * second, 3 * second, 5 * second⟩
  cache := ⟨cacheDriverRedis⟩
  broker := ⟨brokerInProcess⟩
  nats := ⟨"nats://localhost:4222", "wolf", ["wolf.>"], 1⟩
  log := ⟨"debug", "json"⟩
  otel := ⟨false, "otlp", "localhost:4317", .finite 1, true⟩
  metrics := ⟨true, 9091⟩
  cb := ⟨5, 10 * second, 30 * second⟩
  rateLimit := ⟨1000, 2000⟩
  loadShed := ⟨5000⟩
  securityHeaders := ⟨true, true, 31536000⟩
  outbox := ⟨500 * millisecond, 100, 5, 72 * hour, 30 * second, 60 * second⟩
  jwt := ⟨"HS256", "", "", "", 15 * minute, 168 * hour, "wolf-prime", ["wolf-prime-api"]⟩
  bcrypt := ⟨12⟩
  session := ⟨false⟩

/-- Only what a deployment has to provide is missing in the defaults. -/
theorem errors_defaults : defaults.errors =
    [.msg "db.write.dsn must not be empty", .msg "db.read.dsn must not be empty",
      .msg "jwt.secret_key must be at least 32 characters for HS256"] := by
  decide +kernel

/-- The defaults with the data source names and the secret. -/
def defaultsWith (writeDSN readDSN secretKey : String) : Config :=
  { defaults with
    db := { write := { defaults.db.write with dsn := writeDSN }
            read := { defaults.db.read with dsn := readDSN } }
    jwt := { defaults.jwt with secretKey := secretKey } }

end Config

end WolfCore
