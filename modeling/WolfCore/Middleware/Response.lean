import WolfCore.Middleware.Transaction
import WolfCore.Lib.Execution

/-!
# The response of a request (`infra/middleware/http/transaction.go`, `infra/http/response.go`)

The handlers of a request share a response writer with the middlewares around them.  The writer of
gin remembers the status until something is written, and the status cannot change from then on.
`TransactionMiddleware` decides by the status of the writer whether to commit; when the commit
fails, or when `Recovery` catches a panic, it is too late to report it if the handlers have already
written.

`sent_iff_committed` says exactly when a status below 500 reaches the client without a commit, and
`sent_ok_not_committed` is a request whose commit fails after a handler has written its answer.
-/

namespace WolfCore.Middleware

open Go DI Interleave

/-! ### The response writer -/

/-- `ErrorResponse`. -/
structure ErrorResponse where
  typeURI : String
  status : ℕ
  code : String
  message : String
  instancePath : String
  requestID : String

/-- `ErrorTypeURI`. -/
def errorTypeURI (code : String) : String :=
  "/errors/" ++ code.map fun c => if c = '_' then '-' else c.toLower

/-- `newErrorResponse`. -/
def newErrorResponse (status : ℕ) (code message : String) : ErrorResponse :=
  ⟨errorTypeURI code, status, code, message, "", ""⟩

/-- A piece of a response body. -/
inductive Chunk
  | data (bytes : String)
  | error (resp : ErrorResponse)

/-- `gin.ResponseWriter`: the status, whether the header has been sent, and the body so far. -/
structure Writer where
  status : ℕ
  written : Bool
  body : List Chunk

namespace Writer

/-- The writer at the start of a request. -/
def fresh : Writer := ⟨200, false, []⟩

/-- `WriteHeader`, that is `c.Status`: without effect once the header has been sent. -/
def writeHeader (code : ℕ) (w : Writer) : Writer :=
  if 0 < code ∧ w.written = false then { w with status := code } else w

/-- `WriteHeaderNow`. -/
def writeHeaderNow (w : Writer) : Writer := { w with written := true }

/-- `Write`: the first write sends the header. -/
def write (chunk : Chunk) (w : Writer) : Writer :=
  { w.writeHeaderNow with body := w.body ++ [chunk] }

/-- `c.JSON` with a status that allows a body. -/
def json (status : ℕ) (chunk : Chunk) (w : Writer) : Writer := (w.writeHeader status).write chunk

end Writer

/-- What the abort helpers read from the request: the path of its URL, and the request id if one is
set. -/
structure RequestInfo where
  path : String
  requestID : Option String

/-- `AbortWithError`. -/
def abortWithError (req : RequestInfo) (status : ℕ) (code message : String) (w : Writer) : Writer :=
  w.json status (.error { newErrorResponse status code message with
    instancePath := req.path
    requestID := req.requestID.getD "" })

/-- `AbortInternalError`. -/
def abortInternalError (req : RequestInfo) (message : String) (w : Writer) : Writer :=
  abortWithError req 500 "INTERNAL" message w

/-! ### Handlers -/

inductive WriterCall
  | writeHeader (code : ℕ)
  | writeHeaderNow
  | write (chunk : Chunk)

def WriterCall.apply : WriterCall → Writer → Writer
  | .writeHeader code => Writer.writeHeader code
  | .writeHeaderNow => Writer.writeHeaderNow
  | .write chunk => Writer.write chunk

def Writer.run (calls : List WriterCall) (w : Writer) : Writer :=
  calls.foldl (fun w call => call.apply w) w

/-- A handler chain: a program of `Get` calls that ends with the calls it has made on the response
writer, in order, and returns or panics. -/
abbrev WritingHandler := Prog (fun _ : String => Except String Any) (List WriterCall × Outcome Unit)

/-- A handler chain run with the scoped container of its request. -/
def withScope {α : Type} (scope : ℕ) :
    Prog (fun _ : String => Except String Any) α → Prog Reply α
  | .pure r => .pure r
  | .call key k => (scopedGet scope key).bind fun v => withScope scope (k v)

/-! ### The middlewares -/

/-- The part of `TransactionMiddleware` after `c.Next()`. -/
def afterNext (req : RequestInfo) (tx : ℕ) (w : Writer) :
    Outcome Unit → Prog Reply (Writer × Outcome Unit)
  | .panicked p => .call (.rollback tx) fun _ => .pure (w, .panicked p)
  | .returned _ =>
      if w.status ≥ 500 then
        .call (.rollback tx) fun _ => .pure (w, .returned ())
      else
        .call (.commit tx) fun
          | some _ =>
              .pure (abortInternalError req "failed to commit database transaction" w, .returned ())
          | none => .pure (w, .returned ())

/-- `TransactionMiddleware`: the writer it leaves, and whether it returns or panics. -/
def writeInTransaction (req : RequestInfo) (handler : WritingHandler) :
    Prog Reply (Writer × Outcome Unit) :=
  .call .scopedCtx fun scope =>
    .call .beginTx fun
      | .error _ =>
          .pure (abortInternalError req "failed to begin database transaction" .fresh, .returned ())
      | .ok tx =>
          .call (.addScoped connKey (connFactory tx)) fun _ =>
            (withScope scope handler).bind fun r => afterNext req tx (Writer.fresh.run r.1) r.2

/-- `Recovery`. -/
def recovery (req : RequestInfo) : Writer × Outcome Unit → Writer
  | (w, .returned _) => w
  | (w, .panicked _) => abortInternalError req "an unexpected error occurred" w

/-- The engine sends the header at the end of a request, if no handler has. -/
def serveHTTP (req : RequestInfo) (handler : WritingHandler) : Prog Reply Writer :=
  (writeInTransaction req handler).bind fun r => .pure (recovery req r).writeHeaderNow

/-! ### What reaches the client -/

theorem status_abortInternalError (req : RequestInfo) (message : String) (w : Writer) :
    (abortInternalError req message w).status = if w.written then w.status else 500 := by
  unfold abortInternalError abortWithError Writer.json Writer.writeHeader
  cases w.written <;> rfl

/-- The commands before the handlers run. -/
def opening (scope tx : ℕ) : List (Exchange Reply) :=
  [⟨.scopedCtx, scope⟩, ⟨.beginTx, .ok tx⟩, ⟨.addScoped connKey (connFactory tx), ()⟩]

/-- In the execution the handler chain ran, made these calls and ended like this. -/
def Handled (handler : WritingHandler) (l : List (Exchange Reply)) (calls : List WriterCall)
    (outcome : Outcome Unit) : Prop :=
  ∃ scope tx l₁ l₂, l = opening scope tx ++ (l₁ ++ l₂) ∧
    Execution (withScope scope handler) l₁ (calls, outcome)

def Committed (l : List (Exchange Reply)) : Prop :=
  ∃ tx, ⟨.beginTx, .ok tx⟩ ∈ l ∧ ⟨.commit tx, none⟩ ∈ l

def CommitFailed (l : List (Exchange Reply)) : Prop := ∃ tx err, ⟨.commit tx, some err⟩ ∈ l

/-- The handler chain has sent a status below 500 when it panics or when the commit fails. -/
def SentTooEarly (handler : WritingHandler) (l : List (Exchange Reply)) : Prop :=
  ∃ calls outcome, Handled handler l calls outcome ∧ (Writer.fresh.run calls).written = true ∧
    (Writer.fresh.run calls).status < 500 ∧ ((∃ p, outcome = .panicked p) ∨ CommitFailed l)

section

variable {req : RequestInfo} {handler : WritingHandler} {l : List (Exchange Reply)} {w : Writer}

theorem only_scopedGet (scope : ℕ) (key : String) :
    Only (fun e => ∀ tx, e ≠ .commit tx) (scopedGet scope key) := by
  refine ⟨nofun, fun entry => ?_⟩
  cases entry with
  | none => trivial
  | some e =>
    show Only _ (if !e.isScoped then rootGet key else _)
    cases e.isScoped with
    | true => exact ⟨nofun, fun _ => trivial⟩
    | false =>
      refine ⟨nofun, fun entry => ?_⟩
      cases entry with
      | none => trivial
      | some e' =>
        show Only _ (if e'.isScoped then _ else _)
        cases e'.isScoped <;> exact ⟨nofun, fun _ => trivial⟩

theorem only_withScope {α : Type} (scope : ℕ) (p : Prog (fun _ : String => Except String Any) α) :
    Only (fun e => ∀ tx, e ≠ .commit tx) (withScope scope p) := by
  induction p with
  | pure a => trivial
  | call key k ih => exact (only_scopedGet scope key).bind ih

/-- A request whose transaction cannot be begun, or one whose handler chain runs. -/
theorem execution_writeInTransaction {r : Writer × Outcome Unit}
    (h : Execution (writeInTransaction req handler) l r) :
    (∃ scope err, l = [⟨.scopedCtx, scope⟩, ⟨.beginTx, .error err⟩] ∧
      r = (abortInternalError req "failed to begin database transaction" .fresh, .returned ())) ∨
    ∃ scope tx l₁ l₂ calls outcome, l = opening scope tx ++ (l₁ ++ l₂) ∧
      Execution (withScope scope handler) l₁ (calls, outcome) ∧
      Execution (afterNext req tx (Writer.fresh.run calls) outcome) l₂ r := by
  obtain ⟨scope, _, rfl, h₁⟩ := execution_call.1 h
  obtain ⟨began, _, rfl, h₂⟩ := execution_call.1 h₁
  cases began with
  | error err =>
    obtain ⟨rfl, rfl⟩ := execution_pure.1 h₂
    exact Or.inl ⟨scope, err, rfl, rfl⟩
  | ok tx =>
    obtain ⟨_, _, rfl, h₃⟩ := execution_call.1 h₂
    obtain ⟨l₁, ⟨calls, outcome⟩, l₂, rfl, hhandler, hafter⟩ := execution_bind.1 h₃
    exact Or.inr ⟨scope, tx, l₁, l₂, calls, outcome, rfl, hhandler, hafter⟩

/-- The end of a request, once its handler chain has left a writer. -/
theorem sent_afterNext {tx : ℕ} {outcome : Outcome Unit} {r : Writer × Outcome Unit}
    (h : Execution (afterNext req tx w outcome) l r) :
    ((recovery req r).status < 500 → ⟨.commit tx, none⟩ ∈ l) ↔
      ¬ (w.written = true ∧ w.status < 500 ∧ ((∃ p, outcome = .panicked p) ∨ CommitFailed l)) := by
  cases outcome with
  | panicked p =>
    obtain ⟨_, _, rfl, h'⟩ := execution_call.1 h
    obtain ⟨rfl, rfl⟩ := execution_pure.1 h'
    simp only [recovery, status_abortInternalError]
    cases w.written <;> simp
  | returned _ =>
    unfold afterNext at h
    by_cases hstatus : w.status ≥ 500
    · rw [if_pos hstatus] at h
      obtain ⟨_, _, rfl, h'⟩ := execution_call.1 h
      obtain ⟨rfl, rfl⟩ := execution_pure.1 h'
      simp only [recovery]
      constructor
      · intro _ hlate
        omega
      · intro _ hlt
        omega
    have hlt : w.status < 500 := by omega
    rw [if_neg hstatus] at h
    obtain ⟨committed, _, rfl, h'⟩ := execution_call.1 h
    cases committed with
    | none =>
      obtain ⟨rfl, rfl⟩ := execution_pure.1 h'
      simp [CommitFailed]
    | some err =>
      obtain ⟨rfl, rfl⟩ := execution_pure.1 h'
      simp only [recovery, status_abortInternalError]
      cases w.written <;> simp [CommitFailed, hlt]

theorem only_afterNext (tx : ℕ) (outcome : Outcome Unit) :
    Only (fun e => ∀ tx', e = .commit tx' → tx' = tx) (afterNext req tx w outcome) := by
  cases outcome with
  | panicked p => exact ⟨nofun, fun _ => trivial⟩
  | returned _ =>
    unfold afterNext
    split_ifs
    · exact ⟨nofun, fun _ => trivial⟩
    · refine ⟨fun tx' heq => by cases heq; rfl, fun committed => ?_⟩
      cases committed <;> trivial

theorem mem_commit {scope tx tx' : ℕ} {l₁ l₂ : List (Exchange Reply)}
    {r : List WriterCall × Outcome Unit} (h : Execution (withScope scope handler) l₁ r)
    {reply : Option Err} :
    ⟨.commit tx', reply⟩ ∈ opening scope tx ++ (l₁ ++ l₂) ↔ ⟨.commit tx', reply⟩ ∈ l₂ := by
  have hl₁ : ⟨.commit tx', reply⟩ ∉ l₁ := fun hmem =>
    (only_withScope scope handler).mem h _ hmem tx' rfl
  simp [opening, hl₁]

/-- The part of an execution in which the handler chain runs is determined. -/
theorem handled_opening {scope tx : ℕ} {l₁ l₂ : List (Exchange Reply)}
    {calls calls' : List WriterCall} {outcome outcome' : Outcome Unit}
    (h : Execution (withScope scope handler) l₁ (calls, outcome)) :
    Handled handler (opening scope tx ++ (l₁ ++ l₂)) calls' outcome' ↔
      calls' = calls ∧ outcome' = outcome := by
  constructor
  · rintro ⟨scope', tx', l₁', l₂', heq, h'⟩
    obtain ⟨hscope, hrest⟩ := List.cons.inj heq
    cases hscope
    obtain ⟨-, hrest⟩ := List.cons.inj hrest
    obtain ⟨-, hrest⟩ := List.cons.inj hrest
    obtain ⟨-, hr⟩ := h'.eq_of_append h hrest.symm
    cases hr
    exact ⟨rfl, rfl⟩
  · rintro ⟨rfl, rfl⟩
    exact ⟨scope, tx, l₁, l₂, rfl, h⟩

/-- **Committed iff reported.**  A status below 500 tells the client that the transaction was
committed, unless the handler chain has sent it when it panics or when the commit fails. -/
theorem sent_iff_committed (h : Execution (serveHTTP req handler) l w) :
    (w.status < 500 → Committed l) ↔ ¬ SentTooEarly handler l := by
  obtain ⟨l', r, _, rfl, h', hend⟩ := execution_bind.1 h
  obtain ⟨rfl, rfl⟩ := execution_pure.1 hend
  rw [List.append_nil]
  show ((recovery req r).status < 500 → _) ↔ _
  rcases execution_writeInTransaction h' with
    ⟨scope, err, rfl, rfl⟩ | ⟨scope, tx, l₁, l₂, calls, outcome, rfl, hhandler, hafter⟩
  · simp [recovery, status_abortInternalError, Writer.fresh, SentTooEarly, Handled, opening]
  have hcommitted : Committed (opening scope tx ++ (l₁ ++ l₂)) ↔ ⟨.commit tx, none⟩ ∈ l₂ := by
    constructor
    · rintro ⟨tx', -, hmem⟩
      have hmem' := (mem_commit hhandler).1 hmem
      obtain rfl := (only_afterNext tx outcome).mem hafter _ hmem' tx' rfl
      exact hmem'
    · exact fun hmem => ⟨tx, by simp [opening], (mem_commit hhandler).2 hmem⟩
  have hfailed : CommitFailed (opening scope tx ++ (l₁ ++ l₂)) ↔ CommitFailed l₂ := by
    simp only [CommitFailed, mem_commit hhandler]
  rw [hcommitted, sent_afterNext hafter, SentTooEarly, hfailed]
  simp only [handled_opening hhandler]
  constructor
  · rintro hnot ⟨_, _, ⟨rfl, rfl⟩, hsent⟩
    exact hnot hsent
  · exact fun hnot hsent => hnot ⟨calls, outcome, ⟨rfl, rfl⟩, hsent⟩

end

/-! ### The transaction behind the response -/

/-- What `TransactionMiddleware` sees of a handler chain: the status it leaves, or that it
panics. -/
def leftStatus : List WriterCall × Outcome Unit → Outcome ℕ
  | (calls, .returned _) => .returned (Writer.fresh.run calls).status
  | (_, .panicked p) => .panicked p

/-- The handler chain without its response. -/
def statusOf (handler : WritingHandler) : Handler ℕ := handler.bind fun r => .pure (leftStatus r)

theorem runHandler_statusOf (scope : ℕ) (handler : WritingHandler) :
    runHandler scope (statusOf handler) =
      (withScope scope handler).bind fun r => .pure (leftStatus r) := by
  induction handler with
  | pure r => rfl
  | call key k ih =>
    rw [withScope, Prog.bind_assoc]
    exact congrArg _ (funext ih)

/-- A transaction that was begun: the handlers run, and `finish` decides unless they panic. -/
theorem execution_inTransaction {α : Type} {handler : Handler α} {beginFailed : Response}
    {finish : ℕ → α → Prog Reply Response} {scope tx : ℕ} {l₁ l₂ : List (Exchange Reply)} {a : α}
    {response : Response} (hrun : Execution (runHandler scope handler) l₁ (.returned a))
    (hfinish : Execution (finish tx a) l₂ response) :
    Execution (inTransaction handler beginFailed finish)
      (opening scope tx ++ (l₁ ++ l₂)) response :=
  .call (.call (.call (hrun.bind hfinish)))

/-- A request executes the commands of `transactionMiddleware` for the status its handler chain
leaves, and answers with that status unless it aborts. -/
theorem execution_transactionMiddleware {req : RequestInfo} {handler : WritingHandler}
    {l : List (Exchange Reply)} {r : Writer × Outcome Unit}
    (h : Execution (writeInTransaction req handler) l r) :
    ∃ response, Execution (transactionMiddleware (statusOf handler)) l response ∧
      ∀ status, response = .http status → r.1.status = status := by
  rcases execution_writeInTransaction h with
    ⟨scope, err, rfl, rfl⟩ | ⟨scope, tx, l₁, l₂, calls, outcome, rfl, hhandler, hafter⟩
  · exact ⟨_, .call (.call (.pure _)), nofun⟩
  have hrun : Execution (runHandler scope (statusOf handler)) l₁ (leftStatus (calls, outcome)) := by
    rw [runHandler_statusOf]
    exact execution_bind.2 ⟨l₁, _, [], (List.append_nil _).symm, hhandler, .pure _⟩
  cases outcome with
  | panicked p =>
    obtain ⟨_, _, rfl, h'⟩ := execution_call.1 hafter
    obtain ⟨rfl, rfl⟩ := execution_pure.1 h'
    exact ⟨_, .call (.call (.call (hrun.bind (.call (.pure _))))), nofun⟩
  | returned _ =>
    suffices hfinish : ∃ response, Execution (if (Writer.fresh.run calls).status ≥ 500 then
          (.call (.rollback tx) fun _ => .pure (.http (Writer.fresh.run calls).status))
        else .call (.commit tx) fun
          | some _ => .pure (.abortInternalError "failed to commit database transaction")
          | none => .pure (.http (Writer.fresh.run calls).status) : Prog Reply Response)
        l₂ response ∧
        ∀ status, response = .http status → r.1.status = status by
      obtain ⟨response, hexec, hstatus⟩ := hfinish
      exact ⟨response, execution_inTransaction hrun hexec, hstatus⟩
    unfold afterNext at hafter
    by_cases hstatus : (Writer.fresh.run calls).status ≥ 500
    · rw [if_pos hstatus] at hafter ⊢
      obtain ⟨_, _, rfl, h'⟩ := execution_call.1 hafter
      obtain ⟨rfl, rfl⟩ := execution_pure.1 h'
      refine ⟨_, .call (.pure _), ?_⟩
      rintro _ ⟨⟩
      rfl
    · rw [if_neg hstatus] at hafter ⊢
      obtain ⟨committed, _, rfl, h'⟩ := execution_call.1 hafter
      cases committed with
      | some err =>
        obtain ⟨rfl, rfl⟩ := execution_pure.1 h'
        exact ⟨_, .call (.pure _), nofun⟩
      | none =>
        obtain ⟨rfl, rfl⟩ := execution_pure.1 h'
        refine ⟨_, .call (.pure _), ?_⟩
        rintro _ ⟨⟩
        rfl

/-- A request without a request id. -/
def rootRequest : RequestInfo := ⟨"/", none⟩

/-- A handler that answers with a status and a body. -/
def answers (status : ℕ) : WritingHandler :=
  .pure ([.writeHeader status, .write (.data "done")], .returned ())

/-- The commands of its request, when the commit ends like this. -/
def answered (committed : Option Err) : List (Exchange Reply) :=
  opening 0 0 ++ [⟨.commit 0, committed⟩]

theorem sent_iff_committed_answers : Execution (serveHTTP rootRequest (answers 200)) (answered none)
      ⟨200, true, [.data "done"]⟩ ∧
    ((200 < 500 → Committed (answered none)) ↔ ¬ SentTooEarly (answers 200) (answered none)) := by
  have h : Execution (serveHTTP rootRequest (answers 200)) (answered none)
      ⟨200, true, [.data "done"]⟩ := .call (.call (.call (.call (.pure _))))
  exact ⟨h, sent_iff_committed h⟩

/-- The commit fails after the handler has answered 200: the client is told 200. -/
theorem sent_ok_not_committed : ∃ w,
    Execution (serveHTTP rootRequest (answers 200)) (answered (some (.msg "connection lost"))) w ∧
      w.status = 200 ∧ ¬ Committed (answered (some (.msg "connection lost"))) := by
  refine ⟨_, .call (.call (.call (.call (.pure _)))), rfl, ?_⟩
  rintro ⟨tx, -, hmem⟩
  simp [answered, opening] at hmem

end WolfCore.Middleware
