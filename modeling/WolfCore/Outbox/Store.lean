import WolfCore.Lib.Table
import WolfCore.Event.Basic

/-!
# The outbox store (`infra/events/outbox/store.go`)

The rows of `outbox_events` and the statements of `Store` on them.  Each statement, and the
transaction of `ClaimBatch`, is a function on the table; who executes it, when, and whether the
database fails is the business of the modules that use it.

The table of `docs/getting-started.md` does not fit the statements (its `id` is generated, and it
has no `trace_id`, `claimed_at` or `lease_token`), so what they leave open is a parameter
(`Schema`): the default of `lease_token`, the type of the `id` column, what the JSONB column
accepts, and what scanning a NULL into a Go string gives.
-/

namespace WolfCore.Outbox

open Go

/-- `leaseTimeout`, five minutes in nanoseconds. -/
def leaseTimeout : ℤ := 300000000000

/-- `cleanupBatchLimit`. -/
def cleanupBatchLimit : ℕ := 10000

/-- What the table definition and the driver decide. -/
structure Schema where
  /-- the value of `lease_token` in a row whose INSERT does not name it -/
  leaseTokenDefault : Option String
  /-- what `Scan` stores in a Go string for a NULL; `none` is an error, as in `database/sql` -/
  scanNullString : Option String
  /-- whether the `id` column has type uuid rather than text -/
  idIsUuid : Bool
  /-- the JSON text read back from the payload column for the text written, if it is accepted -/
  jsonb : String → Option String

/-- A row of `outbox_events`.  `seq` is the row's identity in the database: no statement reads
or names it. -/
structure Row where
  id : String
  aggregateType : String
  aggregateID : String
  eventType : String
  payload : String
  traceID : String
  metadata : Metadata
  createdAt : ℤ
  claimedAt : Option ℤ
  leaseToken : Option String
  publishedAt : Option ℤ
  retryCount : ℤ
  lastError : Err
  seq : ℕ
  deriving DecidableEq

abbrev OutboxTable := Sql.Table Row.id

/-- `OutboxEntry`.  `seq` records which row was scanned. -/
structure OutboxEntry where
  id : String
  aggregateType : String
  aggregateID : String
  eventType : String
  payload : String
  traceID : String
  metadata : Metadata
  createdAt : ℤ
  claimedAt : Option ℤ
  leaseToken : String
  publishedAt : Option ℤ
  retryCount : ℤ
  lastError : Err
  seq : ℕ
  deriving DecidableEq

/-! ### INSERT -/

/-- The columns an INSERT names. -/
structure NewRow where
  id : String
  aggregateType : String
  aggregateID : String
  eventType : String
  payload : String
  traceID : String
  metadata : Metadata
  createdAt : ℤ
  deriving DecidableEq

/-- The columns an INSERT names, in a row. -/
def Row.columns (r : Row) : NewRow where
  id := r.id
  aggregateType := r.aggregateType
  aggregateID := r.aggregateID
  eventType := r.eventType
  payload := r.payload
  traceID := r.traceID
  metadata := r.metadata
  createdAt := r.createdAt

/-- The columns an INSERT names, in an entry. -/
def OutboxEntry.columns (e : OutboxEntry) : NewRow where
  id := e.id
  aggregateType := e.aggregateType
  aggregateID := e.aggregateID
  eventType := e.eventType
  payload := e.payload
  traceID := e.traceID
  metadata := e.metadata
  createdAt := e.createdAt

/-- The row an INSERT creates: retry count 0, no error, every other column at its default. -/
def NewRow.toRow (schema : Schema) (r : NewRow) (payload : String) (seq : ℕ) : Row where
  id := r.id
  aggregateType := r.aggregateType
  aggregateID := r.aggregateID
  eventType := r.eventType
  payload := payload
  traceID := r.traceID
  metadata := r.metadata
  createdAt := r.createdAt
  claimedAt := none
  leaseToken := schema.leaseTokenDefault
  publishedAt := none
  retryCount := 0
  lastError := .msg ""
  seq := seq

/-- The INSERT statement of `Insert` and `InsertEntry`: it fails when the payload is not JSON or
the id is taken. -/
def insertRow (schema : Schema) (t : OutboxTable) (r : NewRow) (seq : ℕ) : Option OutboxTable :=
  match schema.jsonb r.payload with
  | none => none
  | some payload => t.insert (r.toRow schema payload seq)

/-- A successful INSERT adds the row, with the payload as the JSONB column keeps it. -/
theorem insertRow_eq_some {schema : Schema} {t t' : OutboxTable} {nr : NewRow} {seq : ℕ} :
    insertRow schema t nr seq = some t' ↔ ∃ payload, schema.jsonb nr.payload = some payload ∧
      t.insert (nr.toRow schema payload seq) = some t' := by
  unfold insertRow
  cases schema.jsonb nr.payload <;> simp

/-! ### `ClaimBatch` -/

/-- `WHERE published_at IS NULL AND (claimed_at IS NULL OR claimed_at < NOW() - leaseTimeout)`. -/
def eligible (now : ℤ) (r : Row) : Bool :=
  r.publishedAt.isNone &&
    (match r.claimedAt with
      | none => true
      | some t => t < now - leaseTimeout)

/-- `rows.Scan` into a Go string. -/
def scanString (schema : Schema) : Option String → Except Err String
  | some s => .ok s
  | none =>
      match schema.scanNullString with
      | some s => .ok s
      | none => .error (.msg "converting NULL to string is unsupported")

/-- The trace id is copied into the metadata when these have none. -/
def NewRow.traced (c : NewRow) : NewRow :=
  { c with metadata := if c.metadata.traceID = "" && c.traceID ≠ "" then
      { c.metadata with traceID := c.traceID } else c.metadata }

def scanRow (schema : Schema) (r : Row) : Except Err OutboxEntry := do
  let leaseToken ← scanString schema r.leaseToken
  return {
    id := r.id
    aggregateType := r.aggregateType
    aggregateID := r.aggregateID
    eventType := r.eventType
    payload := r.payload
    traceID := r.traceID
    metadata := r.columns.traced.metadata
    createdAt := r.createdAt
    claimedAt := r.claimedAt
    leaseToken := leaseToken
    publishedAt := r.publishedAt
    retryCount := r.retryCount
    lastError := r.lastError
    seq := r.seq }

/-- The rows the SELECT of `ClaimBatch` returns: the oldest eligible ones that no concurrent
transaction has locked; the database breaks ties as it likes. -/
def selectBatch (now : ℤ) (locked : String → Bool) (tie : String → ℕ) (limit : ℕ)
    (t : OutboxTable) : List Row :=
  t.select (fun r => eligible now r && !locked r.id) (fun r => toLex (r.createdAt, tie r.id)) limit

/-- `claimEntriesTx`. -/
def claimEntriesTx (now : ℤ) (ids : List String) (token : String) (t : OutboxTable) :
    OutboxTable :=
  t.update (fun r => r.id ∈ ids)
    (fun r => { r with claimedAt := some now, leaseToken := some token }) fun _ => rfl

/-- `Store.ClaimBatch`, as one transaction: an error rolls it back. -/
def claimBatch (schema : Schema) (now : ℤ) (locked : String → Bool) (tie : String → ℕ)
    (token : String) (batchSize : ℤ) (t : OutboxTable) :
    Except Err (List OutboxEntry) × OutboxTable :=
  if batchSize < 0 then
    (.error (.wrap "outbox: query unpublished: %w" none (.msg "LIMIT must not be negative")), t)
  else
    match (selectBatch now locked tie batchSize.toNat t).mapM (scanRow schema) with
    | .error err => (.error (.wrap "outbox: scan row: %w" none err), t)
    | .ok [] => (.ok [], t)
    | .ok entries =>
        (.ok (entries.map fun e => { e with leaseToken := token }),
          claimEntriesTx now (entries.map (·.id)) token t)

/-! ### `MarkPublished`, `ReleaseClaims`, `Cleanup` -/

/-- `Store.MarkPublished`. -/
def markPublished (now : ℤ) (ids : List String) (leaseToken : String) (t : OutboxTable) :
    OutboxTable :=
  t.update (fun r => r.leaseToken = some leaseToken && r.id ∈ ids)
    (fun r => { r with publishedAt := some now }) fun _ => rfl

/-- `ReleaseEntry`. -/
structure ReleaseEntry where
  id : String
  lastError : Err
  deriving DecidableEq

/-- The assignment both release statements make. -/
def Row.release (r : Row) (lastError : Err) : Row :=
  { r with
    claimedAt := none
    leaseToken := none
    retryCount := r.retryCount + 1
    lastError := lastError }

/-- `Store.ReleaseClaim`. -/
def releaseClaim (id : String) (lastError : Err) (t : OutboxTable) : OutboxTable :=
  t.update (fun r => r.id = id) (fun r => r.release lastError) fun _ => rfl

/-- The batch statement of `Store.ReleaseClaims`: the rows joined with the list of values. -/
def releaseJoin (entries : List ReleaseEntry) (t : OutboxTable) : OutboxTable :=
  t.update (fun r => entries.any (·.id = r.id))
    (fun r => r.release ((entries.find? (·.id = r.id)).elim (.msg "") (·.lastError)))
    fun _ => rfl

/-- `Store.ReleaseClaims`.  The batch statement compares ids as text, which is a type error on a
uuid column. -/
def releaseClaims (schema : Schema) (entries : List ReleaseEntry) (t : OutboxTable) :
    Option Err × OutboxTable :=
  match entries with
  | [] => (none, t)
  | [e] => (none, releaseClaim e.id e.lastError t)
  | _ =>
      if schema.idIsUuid then
        (some (.wrap "outbox: batch release claims: %w" none
          (.msg "operator does not exist: uuid = text")), t)
      else (none, releaseJoin entries t)

/-- The rows `Store.Cleanup` may delete. -/
def stale (cutoff : ℤ) (r : Row) : Bool :=
  match r.publishedAt with
  | none => false
  | some t => t < cutoff

/-- `Store.Cleanup`: the inner SELECT has no ORDER BY, so which of the stale rows it picks, up to
the limit, is left to `pick`. -/
def cleanup (cutoff : ℤ) (pick : String → Bool) (t : OutboxTable) : OutboxTable :=
  let ids :=
    ((t.rows.filter fun r => stale cutoff r && pick r.id).take cleanupBatchLimit).map (·.id)
  t.delete fun r => r.id ∈ ids

end WolfCore.Outbox
