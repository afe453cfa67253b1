import WolfCore.Messaging.EventStream
import WolfCore.Outbox.Store

/-!
# Writing to the outbox (`infra/events/outbox/store.go`, `middleware.go`, `tx/context.go`)

`Store.Insert` writes a domain event through the executor of its context: the transaction that
`tx.Inject` has put there, or else the connection pool.  `Store.InsertEntry`, and with it
`OutboxMiddleware.Publish`, always writes through the pool.

A connection is seen as the committed database together with the working copy of the open
transaction, which sees what others commit meanwhile.  `json.Marshal` and the choices of the
database are parameters; a call of the database may fail at any time, and so may a marshaller panic.
-/

namespace WolfCore.Outbox

open Go Sql Messaging

/-- What the functions below find in a `context.Context`: a transaction (`tx.Extract`), the trace
id of the OpenTelemetry span and the request id. -/
structure Ctx where
  tx : Bool
  otelTraceID : String
  requestID : String

/-- `tx.Inject` of a `*sql.Tx`. -/
def Ctx.inject (ctx : Ctx) : Ctx := { ctx with tx := true }

/-- The database: the tables of the domain and the outbox, and the number of the next row. -/
structure Db (δ : Type) where
  domain : δ
  outbox : OutboxTable
  nextSeq : ℕ

/-- The committed database, and the working copy of the open transaction. -/
structure Conn (δ : Type) where
  pool : Db δ
  tx : Option (Db δ)

/-- How a call can end against the caller's will: with an error of the database, or with a panic of
code it calls. -/
inductive Fault
  | error (err : Err)
  | panic (p : String)

section

variable {δ V : Type}

/-- `db.BeginTx`. -/
def Conn.begin (c : Conn δ) : Conn δ := { c with tx := some c.pool }

/-- `tx.Rollback`. -/
def Conn.rollback (c : Conn δ) : Conn δ := { c with tx := none }

/-- `tx.Commit`: a transaction takes effect as a whole or not at all. -/
def Conn.commit (c : Conn δ) : Conn δ := { c with pool := c.tx.getD c.pool, tx := none }

def insertStmt (schema : Schema) (r : NewRow) (seq : ℕ) (db : Db δ) : Except Err (Db δ) :=
  match insertRow schema db.outbox r seq with
  | none => .error (.msg "invalid json or duplicate key")
  | some t => .ok { db with outbox := t, nextSeq := seq + 1 }

/-- The INSERT statement, executed in the transaction or on the pool.  On the pool it is committed
at once; an open transaction sees the row, and must not have written its id itself. -/
def Conn.exec (c : Conn δ) (inTx : Bool) (schema : Schema) (r : NewRow) : Except Err (Conn δ) :=
  if inTx then
    match c.tx with
    | none => .error (.msg "sql: transaction has already been committed or rolled back")
    | some db => (insertStmt schema r db.nextSeq db).map fun db' => { c with tx := some db' }
  else
    match c.tx with
    | none => (insertStmt schema r c.pool.nextSeq c.pool).map fun pool => { c with pool := pool }
    | some db =>
        match insertStmt schema r db.nextSeq c.pool, insertStmt schema r db.nextSeq db with
        | .ok pool, .ok db' => .ok ⟨pool, some db'⟩
        | .error err, _ => .error err
        | _, .error err => .error err

/-- The outbox has grown by `rows`, and nothing else has changed. -/
structure Extends (db : Db δ) (rows : List Row) (db' : Db δ) : Prop where
  domain : db'.domain = db.domain
  outbox : db'.outbox.rows = db.outbox.rows ++ rows

theorem Extends.refl (db : Db δ) : Extends db [] db := ⟨rfl, (List.append_nil _).symm⟩

theorem Extends.trans {db db' db'' : Db δ} {rows rows' : List Row} (h : Extends db rows db')
    (h' : Extends db' rows' db'') : Extends db (rows ++ rows') db'' :=
  ⟨h'.domain.trans h.domain, by rw [h'.outbox, h.outbox, List.append_assoc]⟩

/-- What an INSERT needs: JSON, and an id that is not taken. -/
def Db.Admits (db : Db δ) (schema : Schema) (r : NewRow) : Prop :=
  (schema.jsonb r.payload).isSome ∧ ∀ row ∈ db.outbox, row.id ≠ r.id

/-- An INSERT that is admitted appends the row and changes nothing else; any other fails. -/
theorem insertStmt_cases (schema : Schema) (r : NewRow) (seq : ℕ) (db : Db δ) :
    (db.Admits schema r ∧ ∃ stored db', schema.jsonb r.payload = some stored ∧
      insertStmt schema r seq db = .ok db' ∧ Extends db [r.toRow schema stored seq] db') ∨
    (¬ db.Admits schema r ∧ ∃ err, insertStmt schema r seq db = .error err) := by
  unfold insertStmt insertRow Db.Admits
  cases hjson : schema.jsonb r.payload with
  | none => exact Or.inr ⟨nofun, _, rfl⟩
  | some stored =>
    simp only
    cases hins : db.outbox.insert (r.toRow schema stored seq) with
    | none =>
      obtain ⟨row, hrow, hkey⟩ := Table.insert_eq_none.1 hins
      exact Or.inr ⟨fun h => h.2 row hrow hkey, _, rfl⟩
    | some t =>
      exact Or.inl ⟨⟨rfl, fun row hrow => Table.key_ne_of_insert hins hrow⟩, stored, _, rfl, rfl,
        rfl, Table.rows_insert hins⟩

/-- What an INSERT on the pool needs: it is admitted by the committed database and by the open
transaction. -/
def Conn.Admits (c : Conn δ) (schema : Schema) (r : NewRow) : Prop :=
  c.pool.Admits schema r ∧ ∀ db, c.tx = some db → db.Admits schema r

/-- An INSERT on the pool succeeds exactly if it is admitted; the committed database then has the
row, and the open transaction sees it. -/
theorem exec_on_pool (c : Conn δ) (schema : Schema) (r : NewRow) :
    (c.Admits schema r ∧ ∃ stored seq c', schema.jsonb r.payload = some stored ∧
      c.exec false schema r = .ok c' ∧ Extends c.pool [r.toRow schema stored seq] c'.pool ∧
      ∀ db, c.tx = some db → ∃ db', c'.tx = some db' ∧ Extends db [r.toRow schema stored seq] db') ∨
    (¬ c.Admits schema r ∧ ∃ err, c.exec false schema r = .error err) := by
  rcases c with ⟨pool, _ | db⟩
  · rcases insertStmt_cases schema r pool.nextSeq pool with
      ⟨hadm, stored, pool', hjson, hins, hext⟩ | ⟨hadm, err, hins⟩
    · refine Or.inl ⟨⟨hadm, nofun⟩, stored, pool.nextSeq, ⟨pool', none⟩, hjson, ?_, hext, nofun⟩
      simp [Conn.exec, hins, Except.map]
    · refine Or.inr ⟨fun h => hadm h.1, err, ?_⟩
      simp [Conn.exec, hins, Except.map]
  · rcases insertStmt_cases schema r db.nextSeq pool with
      ⟨hadm, stored, pool', hjson, hins, hext⟩ | ⟨hadm, err, hins⟩
    · rcases insertStmt_cases schema r db.nextSeq db with
        ⟨hadm', stored', db', hjson', hins', hext'⟩ | ⟨hadm', err, hins'⟩
      · obtain rfl : stored = stored' := Option.some.inj (hjson.symm.trans hjson')
        refine Or.inl ⟨⟨hadm, fun d hd => ?_⟩, stored, db.nextSeq, ⟨pool', some db'⟩, hjson,
          ?_, hext, fun d hd => ?_⟩
        · cases hd
          exact hadm'
        · simp [Conn.exec, hins, hins']
        · cases hd
          exact ⟨db', rfl, hext'⟩
      · refine Or.inr ⟨fun h => hadm' (h.2 db rfl), err, ?_⟩
        simp [Conn.exec, hins, hins']
    · refine Or.inr ⟨fun h => hadm h.1, err, ?_⟩
      simp [Conn.exec, hins]

/-- `enrichMetadataFromContext`. -/
def enrichMetadataFromContext (ctx : Ctx) (md : Metadata) : Metadata where
  traceID := if md.traceID = "" then ctx.otelTraceID else md.traceID
  correlationID := if md.correlationID = "" then ctx.requestID else md.correlationID
  causationID := md.causationID
  source := md.source

/-- The columns `Store.Insert` writes. -/
def eventRow (evt : Event V) (md : Metadata) (payload : String) : NewRow where
  id := evt.eventID
  aggregateType := evt.aggregateType
  aggregateID := evt.aggregateID
  eventType := evt.eventType
  payload := payload
  traceID := md.traceID
  metadata := md
  createdAt := evt.occurredAt

/-- `Store.Insert`, with the fault it meets, if any. -/
def insert (schema : Schema) (marshal : Option V → Except Err String) (ctx : Ctx)
    (fault : Option Fault) (evt : Event V) (md : Metadata) : Proc (Conn δ) := fun c =>
  let md := enrichMetadataFromContext ctx md
  match fault, marshal evt.payload with
  | some (.panic p), _ => (.panicked p, c)
  | _, .error err =>
      (.returned (some (.wrap "outbox: marshal event %q: %w" (some evt.eventID) err)), c)
  | some (.error err), .ok _ =>
      (.returned (some (.wrap "outbox: insert event %q: %w" (some evt.eventID) err)), c)
  | none, .ok payload =>
      match c.exec ctx.tx schema (eventRow evt md payload) with
      | .error err =>
          (.returned (some (.wrap "outbox: insert event %q: %w" (some evt.eventID) err)), c)
      | .ok c' => (.returned none, c')

/-- `r` is a row `Store.Insert` writes for the event. -/
def InsertedRow (schema : Schema) (marshal : Option V → Except Err String) (ctx : Ctx)
    (evt : Event V) (md : Metadata) (r : Row) : Prop :=
  ∃ payload stored seq, marshal evt.payload = .ok payload ∧ schema.jsonb payload = some stored ∧
    r = (eventRow evt (enrichMetadataFromContext ctx md) payload).toRow schema stored seq

/-- In a transaction, `Store.Insert` adds the row of its event to the working copy, or changes
nothing. -/
theorem insert_in_tx {schema : Schema} {marshal : Option V → Except Err String} {ctx : Ctx}
    {fault : Option Fault} {evt : Event V} {md : Metadata} {c : Conn δ} {db : Db δ}
    (hc : c.tx = some db) {o : Outcome (Option Err)} {c' : Conn δ}
    (h : insert schema marshal ctx.inject fault evt md c = (o, c')) :
    (o = .returned none ∧ ∃ row db', InsertedRow schema marshal ctx.inject evt md row ∧
      Extends db [row] db' ∧ c' = { c with tx := some db' }) ∨ (o ≠ .returned none ∧ c' = c) := by
  unfold insert at h
  match fault, hm : marshal evt.payload with
  | some (.panic p), _ => cases h; exact Or.inr ⟨nofun, rfl⟩
  | some (.error err), .error _ => rw [hm] at h; cases h; exact Or.inr ⟨nofun, rfl⟩
  | some (.error err), .ok _ => rw [hm] at h; cases h; exact Or.inr ⟨nofun, rfl⟩
  | none, .error _ => rw [hm] at h; cases h; exact Or.inr ⟨nofun, rfl⟩
  | none, .ok payload =>
    rw [hm] at h
    have hexec : c.exec ctx.inject.tx schema
        (eventRow evt (enrichMetadataFromContext ctx.inject md) payload) =
        (insertStmt schema (eventRow evt (enrichMetadataFromContext ctx.inject md) payload)
          db.nextSeq db).map fun db' => { c with tx := some db' } := by
      simp only [Conn.exec, hc, Ctx.inject, if_true]
    simp only [hexec] at h
    rcases insertStmt_cases schema (eventRow evt (enrichMetadataFromContext ctx.inject md) payload)
        db.nextSeq db with ⟨-, stored, db', hjson, hins, hext⟩ | ⟨-, err, hins⟩
    · rw [hins] at h
      cases h
      exact Or.inl ⟨rfl, _, db', ⟨payload, stored, db.nextSeq, hm, hjson, rfl⟩, hext, rfl⟩
    · rw [hins] at h
      cases h
      exact Or.inr ⟨nofun, rfl⟩

/-- The columns `Store.InsertEntry` writes; `now` is `NOW()`. -/
def entryRow (entry : OutboxEntry) (now : ℤ) : NewRow where
  id := entry.id
  aggregateType := entry.aggregateType
  aggregateID := entry.aggregateID
  eventType := entry.eventType
  payload := entry.payload
  traceID := entry.traceID
  metadata := entry.metadata
  createdAt := now

/-- `Store.InsertEntry`: the statement goes to `s.db`, whatever the context holds. -/
def insertEntry (schema : Schema) (_ctx : Ctx) (fault : Option Err) (now : ℤ)
    (entry : OutboxEntry) : Proc (Conn δ) := fun c =>
  match fault with
  | some err => (.returned (some (.wrap "outbox: insert entry %q: %w" (some entry.id) err)), c)
  | none =>
      match c.exec false schema (entryRow entry now) with
      | .error err =>
          (.returned (some (.wrap "outbox: insert entry %q: %w" (some entry.id) err)), c)
      | .ok c' => (.returned none, c')

/-- The event type `OutboxMiddleware.Publish` stores: the header, else the name, else the
subject. -/
def resolveEventType (subject : String) (msg : RawMessage) : String :=
  if msg.headers.get "event_type" ≠ "" then msg.headers.get "event_type"
  else if msg.name ≠ "" then msg.name
  else subject

/-- The entry `OutboxMiddleware.Publish` builds; the other fields have their zero values. -/
def messageEntry (subject : String) (msg : RawMessage) : OutboxEntry where
  id := msg.id
  aggregateType := msg.headers.get "aggregate_type"
  aggregateID := msg.headers.get "aggregate_id"
  eventType := resolveEventType subject msg
  payload := msg.data
  traceID := msg.headers.get "trace_id"
  metadata := Metadata.zero
  createdAt := 0
  claimedAt := none
  leaseToken := ""
  publishedAt := none
  retryCount := 0
  lastError := .msg ""
  seq := 0

/-- `OutboxMiddleware.Publish`. -/
def publish (schema : Schema) (ctx : Ctx) (fault : Option Err) (now : ℤ) (subject : String)
    (msg : RawMessage) : Proc (Conn δ) :=
  if msg.id = "" then fun c =>
    (.returned (some (.msg "outbox middleware: message ID must not be empty")), c)
  else (insertEntry schema ctx fault now (messageEntry subject msg)).mapErr
    (.wrap "outbox middleware: publish %q: %w" (some msg.id))

/-- `r` is a row `OutboxMiddleware.Publish` writes for the message. -/
def PublishedRow (schema : Schema) (now : ℤ) (subject : String) (msg : RawMessage) (r : Row) :
    Prop :=
  ∃ stored seq, schema.jsonb msg.data = some stored ∧
    r = (entryRow (messageEntry subject msg) now).toRow schema stored seq

/-- What `OutboxMiddleware.Publish` needs: an id, and a database that answers and admits the
row. -/
def Conn.AcceptsMessage (c : Conn δ) (schema : Schema) (fault : Option Err) (now : ℤ)
    (subject : String) (msg : RawMessage) : Prop :=
  msg.id ≠ "" ∧ fault = none ∧ c.Admits schema (entryRow (messageEntry subject msg) now)

/-- `OutboxMiddleware.Publish` returns nil exactly if the message is accepted, and then its row is
committed at once, whatever the context holds; otherwise nothing changes. -/
theorem publish_cases {schema : Schema} {ctx : Ctx} {fault : Option Err} {now : ℤ}
    {subject : String} {msg : RawMessage} {c c' : Conn δ} {o : Outcome (Option Err)}
    (h : publish schema ctx fault now subject msg c = (o, c')) :
    (o = .returned none ∧ c.AcceptsMessage schema fault now subject msg ∧ ∃ row,
      PublishedRow schema now subject msg row ∧ Extends c.pool [row] c'.pool ∧
      ∀ db, c.tx = some db → ∃ db', c'.tx = some db' ∧ Extends db [row] db') ∨
    (o ≠ .returned none ∧ ¬ c.AcceptsMessage schema fault now subject msg ∧ c' = c) := by
  unfold publish at h
  split_ifs at h with hid
  · cases h
    exact Or.inr ⟨nofun, fun hacc => hacc.1 hid, rfl⟩
  · unfold Proc.mapErr insertEntry at h
    cases fault with
    | some err =>
      cases h
      exact Or.inr ⟨nofun, fun hacc => (nomatch hacc.2.1), rfl⟩
    | none =>
      rcases exec_on_pool c schema (entryRow (messageEntry subject msg) now) with
        ⟨hadm, stored, seq, c'', hjson, hexec, hpool, htx⟩ | ⟨hadm, err, hexec⟩
      · simp only [hexec] at h
        cases h
        exact Or.inl ⟨rfl, ⟨hid, rfl, hadm⟩, _, ⟨stored, seq, hjson, rfl⟩, hpool, htx⟩
      · simp only [hexec] at h
        cases h
        exact Or.inr ⟨nofun, fun hacc => hadm hacc.2.2, rfl⟩

end

end WolfCore.Outbox
