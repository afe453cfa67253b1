import WolfCore.Lib.Calls
import WolfCore.Lib.Go

/-!
# The idempotency store

`idempotency_keys` has at most one row for a key.  `Store.get` reads it unless it has expired,
`Store.set` replaces it, and `Store.cleanup` deletes what has expired.  Times are those of the
database, in its resolution.

Any number of threads serve requests.  A request looks its key up; if nothing is found, it runs its
handler and stores the response.  The database may fail, with or without effect, a thread may crash,
time passes, and expired rows are deleted now and then.

`Replays` says that a lookup would return the first response that was stored for the key, as long as
that has not expired.  Because the store replaces what is there, this is so exactly in the runs in
which no request stores another response in that time (`first_response_iff`), and a request that
looked the key up too early does just that (`second_response_replayed`).  It cannot happen if no key
is looked up while another request with the key is between its lookup and its write
(`keepsFirst_of_alone`).
-/

namespace WolfCore.Idempotency

open Go Interleave

/-! ## The table -/

structure CachedResponse where
  statusCode : ℤ
  body : List UInt8
  createdAt : ℤ
  expiresAt : ℤ
  deriving DecidableEq

/-- The rows of `idempotency_keys` by their key, and the time. -/
structure Database where
  now : ℤ
  rows : String → Option CachedResponse

namespace Database

/-- `SELECT … WHERE key = $1 AND expires_at > NOW()`. -/
def select (db : Database) (key : String) : Option CachedResponse :=
  (db.rows key).filter (db.now < ·.expiresAt)

/-- `INSERT … ON CONFLICT (key) DO UPDATE`. -/
def upsert (db : Database) (key : String) (resp : CachedResponse) : Database :=
  { db with rows := Function.update db.rows key (some resp) }

/-- `DELETE … WHERE expires_at <= NOW()`. -/
def deleteExpired (db : Database) : Database :=
  { db with rows := fun key => (db.rows key).filter fun resp => !(resp.expiresAt ≤ db.now) }

end Database

/-- A failure of a statement, and whether the statement had its effect nevertheless. -/
structure Fault where
  err : Err
  effect : Bool

def takesEffect : Option Fault → Bool
  | none => true
  | some fault => fault.effect

namespace Store

def get (db : Database) (fault : Option Fault) (key : String) :
    Except Err (Option CachedResponse) :=
  match fault with
  | some fault => .error (.wrap "idempotency: get key %q: %w" (some key) fault.err)
  | none => .ok (db.select key)

/-- The error, and the database afterwards. -/
def set (db : Database) (fault : Option Fault) (key : String) (resp : CachedResponse) :
    Option Err × Database :=
  (fault.map fun fault => .wrap "idempotency: set key %q: %w" (some key) fault.err,
    if takesEffect fault then db.upsert key resp else db)

def cleanup (db : Database) (fault : Option Fault) : Option Err × Database :=
  (fault.map fun fault => .wrap "idempotency: cleanup: %w" none fault.err,
    if takesEffect fault then db.deleteExpired else db)

end Store

/-! ## Requests -/

/-- What a request does: it arrives, looks its key up, runs its handler and stores the response. -/
inductive Cmd
  | accept
  | get (key : String)
  | handle (key : String)
  | set (key : String) (resp : CachedResponse)

/-- The reply to a write also says, for the history, whether the row was written. -/
abbrev Reply : Cmd → Type
  | .accept => String
  | .get _ => Except Err (Option CachedResponse)
  | .handle _ => CachedResponse
  | .set _ _ => Option Err × Bool

/-- The key of the next request, the response of a handler, and how the database fails. -/
structure Choice where
  key : String
  response : CachedResponse
  fault : Option Fault

def exec (e : Cmd) (o : Choice) (db : Database) : Reply e × Database :=
  match e with
  | .accept => (o.key, db)
  | .get key => (Store.get db o.fault key, db)
  | .handle _ => (o.response, db)
  | .set key resp =>
      (((Store.set db o.fault key resp).1, takesEffect o.fault), (Store.set db o.fault key resp).2)

/-- Time passes, or expired rows are deleted. -/
inductive Background
  | tick (d : ℕ)
  | cleanup (fault : Option Fault)

def background : Background → Database → Database
  | .tick d, db => { db with now := db.now + d }
  | .cleanup fault, db => (Store.cleanup db fault).2

/-- One request: the handler runs only if nothing was found. -/
def request : Prog Reply Unit :=
  .call .accept fun key =>
    .call (.get key) fun found =>
      match found with
      | .ok none => .call (.handle key) fun resp => .call (.set key resp) fun _ => .pure ()
      | _ => .pure ()

def machine : Machine Reply Database Choice Unit Background where
  exec := exec
  body := fun _ _ => request
  boot := fun _ => ()
  env := background

def Cmd.isAccept : Cmd → Bool
  | .accept => true
  | _ => false

/-! ## The first response -/

variable {key : String} {i : ℕ} {e : Cmd} {o : Choice} {db : Database} {h : History Reply}

/-- The response the event stores for the key, if it does. -/
def storedBy (key : String) : Logged Reply → Option CachedResponse
  | ⟨_, .set key' resp, (_, stored)⟩ => if key' = key ∧ stored then some resp else none
  | _ => none

/-- The first response that was stored for the key. -/
def firstStored (key : String) : History Reply → Option CachedResponse
  | [] => none
  | ev :: h => (firstStored key h).or (storedBy key ev)

/-- The first response has been stored and has not expired. -/
def Lasts (key : String) (db : Database) (h : History Reply) (first : CachedResponse) : Prop :=
  firstStored key h = some first ∧ db.now < first.expiresAt

/-- A lookup would return the first response, as long as that has not expired. -/
def Replays (key : String) (db : Database) (h : History Reply) : Prop :=
  ∀ first, Lasts key db h first → db.select key = some first

/-- The step writes no other response over the first one before that has expired. -/
def KeepsFirst (key : String) (_ : ℕ) (e : Cmd) (o : Choice) (db : Database)
    (h : History Reply) : Prop :=
  ∀ resp first, e = .set key resp → takesEffect o.fault = true → Lasts key db h first → resp = first

/-- If the step is a lookup of the key and does not fail, it returns the first response, as long as
that has not expired. -/
def GetsFirst (key : String) (_ : ℕ) (e : Cmd) (o : Choice) (db : Database)
    (h : History Reply) : Prop :=
  ∀ first, e = .get key → o.fault = none → Lasts key db h first → Store.get db o.fault key = .ok
    (some first)

/-- A step stores a response exactly if it is a write that takes effect. -/
theorem storedBy_exec {resp : CachedResponse} :
    storedBy key ⟨i, e, (exec e o db).1⟩ = some resp ↔ e = .set key resp ∧
      takesEffect o.fault = true := by
  cases e with
  | set key' resp' =>
    show (if key' = key ∧ takesEffect o.fault = true then some resp' else none) = some resp ↔ _
    rw [Option.ite_none_right_eq_some, Option.some.injEq, Cmd.set.injEq]
    tauto
  | _ => simp [storedBy]

theorem rows_exec : (exec e o db).2.rows key = (storedBy key ⟨i, e, (exec e o db).1⟩).or
    (db.rows key) := by
  cases e with
  | set key' resp =>
    by_cases heffect : takesEffect o.fault = true
    · by_cases hkey : key' = key
      · subst hkey
        simp [exec, storedBy, Store.set, heffect, Database.upsert]
      · simp [exec, storedBy, Store.set, heffect, Database.upsert, hkey, Function.update_of_ne
          (Ne.symm hkey)]
    · simp [exec, storedBy, Store.set, heffect]
  | _ => rfl

theorem now_exec : (exec e o db).2.now = db.now := by
  cases e with
  | set key' resp =>
    simp only [exec, Store.set]
    split <;> rfl
  | _ => rfl

theorem select_eq_some {resp : CachedResponse} :
    db.select key = some resp ↔ db.rows key = some resp ∧ db.now < resp.expiresAt := by
  simp [Database.select, Option.filter_eq_some_iff]

/-- A step keeps `Replays` exactly if it keeps the first response. -/
theorem replays_exec_iff (hr : Replays key db h) :
    Replays key (exec e o db).2 (⟨i, e, (exec e o db).1⟩ :: h) ↔ KeepsFirst key i e o db h := by
  have hselect : ∀ resp, (exec e o db).2.select key = some resp ↔
      (storedBy key ⟨i, e, (exec e o db).1⟩).or (db.rows key) = some resp ∧
        db.now < resp.expiresAt := by
    intro resp
    rw [select_eq_some, rows_exec (i := i), now_exec]
  constructor
  · intro hafter resp first he heffect hlasts
    have hstored : storedBy key ⟨i, e, (exec e o db).1⟩ = some resp := storedBy_exec.2 ⟨he, heffect⟩
    have hreplay := (hselect first).1 (hafter first ⟨by rw [firstStored, hlasts.1]; rfl, by
      rw [now_exec]
      exact hlasts.2⟩)
    rw [hstored] at hreplay
    exact Option.some.inj hreplay.1
  · rintro hkeeps first ⟨hfirst, hnow⟩
    rw [now_exec] at hnow
    rw [hselect]
    refine ⟨?_, hnow⟩
    rw [firstStored] at hfirst
    cases hbefore : firstStored key h with
    | none =>
      -- it is the step that stores the first response
      rw [hbefore, Option.none_or] at hfirst
      rw [hfirst]
      rfl
    | some first' =>
      obtain rfl : first' = first := by simpa [hbefore] using hfirst
      have hrow := (select_eq_some.1 (hr first' ⟨hbefore, hnow⟩)).1
      cases hstored : storedBy key ⟨i, e, (exec e o db).1⟩ with
      | none => exact hrow
      | some resp =>
        obtain ⟨he, heffect⟩ := storedBy_exec.1 hstored
        rw [hkeeps resp first' he heffect ⟨hbefore, hnow⟩]
        rfl

theorem now_le_background (a : Background) (db : Database) : db.now ≤ (background a db).now := by
  cases a with
  | tick d => simp [background]
  | cleanup fault =>
    simp only [background, Store.cleanup]
    split <;> exact le_rfl

/-- Neither time nor the deletion of expired rows changes what has not expired. -/
theorem select_background {a : Background} {resp : CachedResponse}
    (hnow : (background a db).now < resp.expiresAt)
    (h : db.select key = some resp) : (background a db).select key = some resp := by
  have hrow := (select_eq_some.1 h).1
  rw [select_eq_some]
  refine ⟨?_, hnow⟩
  cases a with
  | tick d => exact hrow
  | cleanup fault =>
    have hlater := (now_le_background (.cleanup fault) db).trans_lt hnow
    simp only [background, Store.cleanup]
    split
    · simp [Database.deleteExpired, hrow, hlater]
    · exact hrow

theorem Lasts.of_background {a : Background} {first : CachedResponse}
    (hl : Lasts key (background a db) h first) :
    Lasts key db h first :=
  ⟨hl.1, (now_le_background a db).trans_lt hl.2⟩

theorem Replays.background (hr : Replays key db h) (a : Background) :
    Replays key (background a db) h := by
  intro first hlasts
  exact select_background hlasts.2 (hr first hlasts.of_background)

theorem replays_fresh (now : ℤ) (rows : String → Option CachedResponse) :
    Replays key ⟨now, rows⟩ [] := by
  rintro first ⟨hfirst, -⟩
  cases hfirst

theorem Replays.getsFirst (hr : Replays key db h) : GetsFirst key i e o db h := by
  rintro first - hfault hlasts
  rw [hfault, Store.get, hr first hlasts]

/-! ## Requests that do not overlap -/

/-- Thread `j` has found nothing for the key and has not written yet. -/
def Pending (key : String) (j : ℕ) (h : History Reply) : Prop :=
  ⟨j, .get key, .ok none⟩ ∈ since Cmd.isAccept j h ∧
    ∀ resp r, ⟨j, .set key resp, r⟩ ∉ since Cmd.isAccept j h

/-- The key is not looked up while another request with it is pending. -/
def Alone (key : String) (i : ℕ) (e : Cmd) (_ : Choice) (_ : Database) (h : History Reply) : Prop :=
  e = .get key → ∀ j, j ≠ i → ¬ Pending key j h

/-- While a request is pending, it is the only one, and the first response has not been stored or
has expired. -/
structure Inv (key : String) (db : Database) (h : History Reply) : Prop where
  replays : Replays key db h
  gone : ∀ j, Pending key j h → ∀ first, ¬ Lasts key db h first
  only : ∀ j k, Pending key j h → Pending key k h → j = k

/-- A request writes only while it is pending. -/
def Pre (key : String) (i : ℕ) (e : Cmd) (h : History Reply) : Prop :=
  ∀ resp, e = .set key resp → Pending key i h

theorem Pending.of_cons {ev : Logged Reply} {j : ℕ} (hp : Pending key j (ev :: h)) :
    Pending key j h ∨ ev = ⟨j, .get key, .ok none⟩ := by
  obtain ⟨hget, hset⟩ := hp
  rw [since] at hget hset
  split_ifs at hget hset
  · cases hget
  · rcases List.mem_cons.1 hget with heq | hget
    · exact .inr heq.symm
    · exact .inl ⟨hget, fun resp r hmem => hset resp r (List.mem_cons_of_mem _ hmem)⟩

theorem not_pending_set {resp : CachedResponse} {r : Reply (.set key resp)} :
    ¬ Pending key i (⟨i, .set key resp, r⟩ :: h) :=
  fun hp => hp.2 resp r ((mem_since_cons rfl).2 (.inl rfl))

/-- The history after a step without a write has the same first response. -/
theorem Lasts.of_exec {first : CachedResponse}
    (hstored : storedBy key ⟨i, e, (exec e o db).1⟩ = none)
    (hl : Lasts key (exec e o db).2 (⟨i, e, (exec e o db).1⟩ :: h) first) :
    Lasts key db h first := by
  obtain ⟨hfirst, hnow⟩ := hl
  rw [firstStored, hstored, Option.or_none] at hfirst
  rw [now_exec] at hnow
  exact ⟨hfirst, hnow⟩

theorem Inv.keepsFirst (hinv : Inv key db h) (hpre : Pre key i e h) : KeepsFirst key i e o db h :=
  fun resp first he _ hlasts => absurd hlasts (hinv.gone i (hpre resp he) first)

theorem Inv.exec (hinv : Inv key db h) (hpre : Pre key i e h) (halone : Alone key i e o db h) :
    Inv key (exec e o db).2 (⟨i, e, (exec e o db).1⟩ :: h) := by
  refine ⟨(replays_exec_iff hinv.replays).2 (hinv.keepsFirst hpre), fun j hj first hlasts => ?_,
    fun j k hj hk => ?_⟩
  · rcases hj.of_cons with hbefore | hev
    · -- a write would be by the pending request, which is then no longer pending
      refine hinv.gone j hbefore first (hlasts.of_exec ?_)
      by_contra hstored
      obtain ⟨resp, hresp⟩ := Option.ne_none_iff_exists'.1 hstored
      obtain ⟨rfl, -⟩ := storedBy_exec.1 hresp
      obtain rfl := hinv.only j i hbefore (hpre resp rfl)
      exact not_pending_set hj
    · -- the lookup has found nothing, which excludes a first response that has not expired
      obtain rfl : e = .get key := congrArg Logged.cmd hev
      have hreply : Store.get db o.fault key = .ok none := eq_of_heq (Logged.mk.inj hev).2.2
      have hselect := hinv.replays first (hlasts.of_exec rfl)
      cases hfault : o.fault with
      | some fault => simp [hfault, Store.get] at hreply
      | none => simp [hfault, Store.get, hselect] at hreply
  · rcases hj.of_cons with hbefore | hev <;> rcases hk.of_cons with hbefore' | hev'
    · exact hinv.only j k hbefore hbefore'
    · obtain rfl : i = k := congrArg Logged.tid hev'
      by_contra hne
      exact halone (congrArg Logged.cmd hev') j hne hbefore
    · obtain rfl : i = j := congrArg Logged.tid hev
      by_contra hne
      exact halone (congrArg Logged.cmd hev) k (Ne.symm hne) hbefore'
    · exact (congrArg Logged.tid hev).symm.trans (congrArg Logged.tid hev')

theorem Inv.background (hinv : Inv key db h) (a : Background) : Inv key (background a db) h :=
  ⟨hinv.replays.background a, fun j hj first hlasts => hinv.gone j hj first hlasts.of_background,
    hinv.only⟩

def protocol (key : String) : Protocol machine where
  inv := Inv key
  pre := Pre key
  idle := fun _ _ _ => True
  allowed := Alone key
  step := fun hinv _ hpre halone => hinv.exec hpre halone
  env := fun hinv => hinv.background _

/-- Thread `i` has not written since its request arrived. -/
def Unwritten (i : ℕ) (h : History Reply) : Prop :=
  ∀ key resp r, ⟨i, .set key resp, r⟩ ∉ since Cmd.isAccept i h

theorem Unwritten.others {h' : History Reply} (hu : Unwritten i h) (ho : Others i h h') :
    Unwritten i h' :=
  fun key resp r hmem => hu key resp r (mem_since_of_others ho rfl hmem)

theorem Unwritten.own (hu : Unwritten i h) {r : Reply e} (haccept : e.isAccept = false)
    (hset : ∀ key resp, e ≠ .set key resp) : Unwritten i (⟨i, e, r⟩ :: h) := by
  intro key resp r' hmem
  rcases (mem_since_cons haccept).1 hmem with heq | hmem
  · exact hset key resp (congrArg Logged.cmd heq).symm
  · exact hu key resp r' hmem

theorem unwritten_accept {r : Reply .accept} : Unwritten i (⟨i, .accept, r⟩ :: h) := by
  intro key resp r' hmem
  rw [since, if_pos ⟨rfl, rfl⟩] at hmem
  cases hmem

theorem pre_of_ne (hset : ∀ key resp, e ≠ .set key resp) : Pre key i e h :=
  fun resp he => absurd he (hset key resp)

theorem safe_request (key : String) (i : ℕ) (db : Database) (h : History Reply) :
    Safe (protocol key).contract i (fun _ _ _ => True) request db h := by
  refine Protocol.safe_call fun db₁ h₁ o₁ _ _ _ _ => ⟨pre_of_ne (by simp), ?_⟩
  generalize (machine.exec .accept o₁ db₁).1 = key'
  refine Protocol.safe_call fun db₂ h₂ o₂ ho₂ _ _ _ => ⟨pre_of_ne (by simp), ?_⟩
  generalize (machine.exec (.get key') o₂ db₂).1 = found
  rcases found with err | _ | resp
  · exact Protocol.safe_pure fun _ _ _ => trivial
  · -- nothing found: the request is pending until it writes
    refine Protocol.safe_call fun db₃ h₃ o₃ ho₃ _ _ _ => ⟨pre_of_ne (by simp), ?_⟩
    refine Protocol.safe_call fun db₄ h₄ o₄ ho₄ _ _ _ => ⟨fun resp he => ?_, ?_⟩
    · cases he
      have hu : Unwritten i h₄ :=
        ((((unwritten_accept.others ho₂).own rfl (by simp)).others ho₃).own rfl
          (by simp)).others ho₄
      refine ⟨mem_since_mono ho₄ ?_, hu key⟩
      exact (mem_since_cons rfl).2 (.inr (mem_since_mono ho₃ ((mem_since_cons rfl).2 (.inl rfl))))
    · exact Protocol.safe_pure fun _ _ _ => trivial
  · exact Protocol.safe_pure fun _ _ _ => trivial

/-! ## Whole runs -/

/-- After every part of the run, a lookup would return the first response. -/
def AlwaysReplays (key : String) (db : Database) (as : List (Action Choice Background)) : Prop :=
  ∀ as', as' <+: as → Replays key ((Pool.boot machine db).run machine as').shared
    ((Pool.boot machine db).run machine as').hist

theorem alwaysReplays_iff {as : List (Action Choice Background)} :
    AlwaysReplays key db as ↔ Along machine (OnStep (KeepsFirst key)) (.boot machine db) as :=
  Along.state_invariant_iff machine (fun _ _ _ _ _ hr => replays_exec_iff hr)
    (fun a _ _ hr => hr.background a) (replays_fresh db.now db.rows)

/-- Where requests with the key do not overlap, none of them writes over the first response. -/
theorem keepsFirst_of_alone {as : List (Action Choice Background)}
    (ha : Along machine (OnStep (Alone key)) (.boot machine db) as) :
    Along machine (OnStep (KeepsFirst key)) (.boot machine db) as := by
  refine alwaysReplays_iff.1 fun as' has' => ?_
  obtain ⟨rest, rfl⟩ := has'
  have hinv : Inv key db [] :=
    ⟨replays_fresh db.now db.rows, by simp [Pending, since], by simp [Pending, since]⟩
  exact ((protocol key).run (fun _ _ => trivial) (fun i _ db h _ => safe_request key i db h) hinv
    ((Along.append machine).1 ha).1).1.replays

/-- **The first response.**  In every interleaving of requests: after every part of the run a lookup
would return the first response that was stored for the key, as long as that has not expired,
exactly if no request stores another one in that time.  In such runs every lookup returns it, and
runs in which requests with the key do not overlap are such runs. -/
theorem first_response_iff (key : String) (db : Database) (as : List (Action Choice Background)) :
    (AlwaysReplays key db as ↔ Along machine (OnStep (KeepsFirst key)) (.boot machine db) as) ∧
    (Along machine (OnStep (KeepsFirst key)) (.boot machine db) as →
      Along machine (OnStep (GetsFirst key)) (.boot machine db) as) ∧
    (Along machine (OnStep (Alone key)) (.boot machine db) as →
      Along machine (OnStep (KeepsFirst key)) (.boot machine db) as) := by
  refine ⟨alwaysReplays_iff, fun hkeeps => ?_, keepsFirst_of_alone⟩
  have hreplays := (Along.state_invariant (I := Replays key) machine
    (fun _ _ _ _ _ hr hq => (replays_exec_iff hr).2 hq) (fun a _ _ hr => hr.background a)
    (replays_fresh db.now db.rows) hkeeps).1
  exact hreplays.mono machine fun p a hr => .of_state (fun _ _ _ => hr.getsFirst) a

/-! ## Two payments with one key -/

def fresh : Database := ⟨0, fun _ => none⟩

/-- The responses of two requests, each valid for a day. -/
def created : CachedResponse := ⟨201, [49], 0, 86400⟩
def conflict : CachedResponse := ⟨409, [50], 0, 86400⟩

/-- A step of thread `i`, when a request with the key arrives next and its handler would answer with
`resp`. -/
def payStep (i : ℕ) (resp : CachedResponse) : Action Choice Background :=
  .step i ⟨"pay-1", resp, none⟩

/-- A request is served from its arrival to its end. -/
def served (i : ℕ) (resp : CachedResponse) : List (Action Choice Background) :=
  .resume i :: List.replicate 4 (payStep i resp)

/-- One request after the other, and an hour between them. -/
def inTurn : List (Action Choice Background) :=
  served 0 created ++ .env (.tick 3600) :: served 1 conflict

/-- Two requests look the key up before either has written; a third one comes later. -/
def overlapping : List (Action Choice Background) :=
  [.resume 0, payStep 0 created, payStep 0 created, .resume 1, payStep 1 conflict,
    payStep 1 conflict, payStep 0 created, payStep 0 created, payStep 1 conflict,
    payStep 1 conflict,
    .resume 2, payStep 2 created, payStep 2 created]

/-- The second of two requests gets the response of the first. -/
theorem first_response_inTurn :
    ((Pool.boot machine fresh).run machine inTurn).hist.head? = some
      ⟨1, .get "pay-1", .ok (some created)⟩ ∧
    AlwaysReplays "pay-1" fresh inTurn := by
  have halone : Along machine (OnStep (Alone "pay-1")) (.boot machine fresh) inTurn := by
    refine ⟨trivial, fun he => (by cases he), fun _ j hj => ?_, fun he => (by cases he), fun he =>
      (by cases he), trivial,
      trivial, fun he => (by cases he), fun _ j hj => ?_, trivial, trivial, trivial⟩
    · rintro ⟨hget, -⟩
      change (_ : Logged Reply) ∈ since Cmd.isAccept j [⟨0, .accept, "pay-1"⟩] at hget
      simpa using mem_of_mem_since hget
    · rintro ⟨hget, hset⟩
      change (_ : Logged Reply) ∈ since Cmd.isAccept j [⟨1, .accept, "pay-1"⟩,
        ⟨0, .set "pay-1" created, (none, true)⟩, ⟨0, .handle "pay-1", created⟩,
        ⟨0, .get "pay-1", .ok none⟩, ⟨0, .accept, "pay-1"⟩] at hget
      obtain rfl : j = 0 := by simpa using mem_of_mem_since hget
      exact hset created (none, true) (.tail _ (.head _))
  exact ⟨rfl, (first_response_iff "pay-1" fresh inTurn).1.2
    ((first_response_iff "pay-1" fresh inTurn).2.2 halone)⟩

/-- A third request is answered with the response of the second one, which has replaced the first
one within its lifetime. -/
theorem second_response_replayed : ∃ h,
    ((Pool.boot machine fresh).run machine overlapping).hist =
      ⟨2, .get "pay-1", .ok (some conflict)⟩ :: h ∧
    Lasts "pay-1" ((Pool.boot machine fresh).run machine overlapping).shared h created ∧
      conflict ≠ created := by
  exact ⟨_, rfl, ⟨rfl, by decide⟩, by decide⟩

end WolfCore.Idempotency
