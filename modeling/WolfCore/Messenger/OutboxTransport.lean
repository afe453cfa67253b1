import WolfCore.Lib.Float64
import WolfCore.Lib.Table
import WolfCore.Messenger.Bus
import WolfCore.Messenger.Serde

/-!
# The outbox transport (`messenger/transport/outbox/`)

`Transport.Send` writes an envelope into the table `outbox_events`, and `Transport.Get` polls the
table and decodes what it finds; an entry that cannot be decoded counts a retry.  `Ack` marks an
entry as published and `Reject` counts a retry.

Whatever the order of these calls, every row of the table was sent, with the payload it has
(`sentAs_of_mem_run`), and what `Get` returns are the decoded payloads of rows, each with the id of
its entry (`get_spec`).

Time is the time of the database, and its failures are choices of the environment, as is the order
of rows where the statements leave it open.  The payload column gives back the JSON value it was
given.
-/

namespace WolfCore.Messenger

open Go

/-! ### The table -/

/-- `Entry`. -/
structure Entry where
  id : String
  aggregateType : String
  aggregateID : String
  eventType : String
  payload : Json
  traceID : String
  createdAt : ℤ
  retryCount : ℤ

/-- A row of `outbox_events`: the columns of an entry and those the statements keep for
themselves. -/
structure OutboxRow where
  entry : Entry
  claimedAt : Option ℤ
  publishedAt : Option ℤ
  lastError : Option Err

def OutboxRow.id (r : OutboxRow) : String := r.entry.id

/-- The table, with its primary key. -/
abbrev OutboxTable := Sql.Table OutboxRow.id

/-- `PostgresStore`: its claim timeout in nanoseconds, and its retry limit. -/
structure PostgresStore where
  claimTimeout : ℤ
  maxRetries : ℤ

def errDuplicateKey : Err := .msg "duplicate key value violates unique constraint"

/-- `PostgresStore.Insert`. -/
def insertEntry (entry : Entry) (dbErr : Option Err) (t : OutboxTable) : Option Err × OutboxTable :=
  let failed := fun err => some (.wrap "outbox postgres: insert %q: %w" (some entry.id) err)
  match dbErr with
  | some err => (failed err, t)
  | none =>
      match t.insert ⟨{ entry with retryCount := 0 }, none, none, none⟩ with
      | none => (failed errDuplicateKey, t)
      | some t' => (none, t')

/-- Entries that are neither published nor out of retries. -/
def PostgresStore.unpublished (store : PostgresStore) (r : OutboxRow) : Bool :=
  r.publishedAt = none ∧ r.entry.retryCount < store.maxRetries

/-- `claimTimeoutSecs := int(s.claimTimeout.Seconds())`. -/
def PostgresStore.claimTimeoutSecs (store : PostgresStore) : ℤ :=
  Float64.truncate (seconds store.claimTimeout)

/-- Entries that no worker has claimed, or only one whose claim is too old. -/
def PostgresStore.claimable (store : PostgresStore) (now : ℤ) (r : OutboxRow) : Bool :=
  match r.claimedAt with
  | none => true
  | some claimedAt => claimedAt < now - store.claimTimeoutSecs * 1000000000

/-- What the statements leave open about the order of rows: which of those with the same creation
time come first, and the order in which `UPDATE … RETURNING` gives the updated rows. -/
structure RowOrder where
  tie : String → ℕ
  returning : List OutboxRow → List OutboxRow
  perm : ∀ rows, (returning rows).Perm rows

/-- `ORDER BY created_at ASC`. -/
def RowOrder.rank (order : RowOrder) (r : OutboxRow) : ℤ ×ₗ ℕ :=
  toLex (r.entry.createdAt, order.tie r.id)

/-- `getUnpublishedSimple`. -/
def PostgresStore.getUnpublishedSimple (store : PostgresStore) (order : RowOrder) (batchSize : ℕ)
    (t : OutboxTable) : List Entry × OutboxTable :=
  ((t.select store.unpublished order.rank batchSize).map OutboxRow.entry, t)

/-- The rows that `getUnpublishedClaim` chooses from; `locked` are the entries other transactions
hold a lock on. -/
def PostgresStore.available (store : PostgresStore) (now : ℤ) (locked : String → Bool)
    (r : OutboxRow) : Bool :=
  store.unpublished r && store.claimable now r && !locked r.id

/-- `getUnpublishedClaim`. -/
def PostgresStore.getUnpublishedClaim (store : PostgresStore) (now : ℤ) (locked : String → Bool)
    (order : RowOrder) (batchSize : ℕ) (t : OutboxTable) : List Entry × OutboxTable :=
  let claimed := t.select (store.available now locked) order.rank batchSize
  ((order.returning claimed).map OutboxRow.entry,
    t.update (fun r => decide (r.id ∈ claimed.map OutboxRow.id))
      (fun r => { r with claimedAt := some now }) fun _ => rfl)

/-- `GetUnpublished`. -/
def PostgresStore.getUnpublished (store : PostgresStore) (now : ℤ) (locked : String → Bool)
    (order : RowOrder) (batchSize : ℕ) (t : OutboxTable) : List Entry × OutboxTable :=
  if store.claimTimeout ≤ 0 then store.getUnpublishedSimple order batchSize t
  else store.getUnpublishedClaim now locked order batchSize t

/-- `MarkPublished`. -/
def markPublished (now : ℤ) (id : String) (dbErr : Option Err) (t : OutboxTable) :
    Option Err × OutboxTable :=
  match dbErr with
  | some err => (some (.wrap "outbox postgres: mark published %q: %w" (some id) err), t)
  | none => (none, t.update (fun r => decide (r.id = id))
      (fun r => { r with publishedAt := some now, claimedAt := none }) fun _ => rfl)

/-- `IncrementRetry`. -/
def incrementRetry (id : String) (lastError : Option Err) (dbErr : Option Err) (t : OutboxTable) :
    Option Err × OutboxTable :=
  match dbErr with
  | some err => (some (.wrap "outbox postgres: increment retry %q: %w" (some id) err), t)
  | none => (none, t.update (fun r => decide (r.id = id))
      (fun r => { r with
        entry := { r.entry with retryCount := r.entry.retryCount + 1 }
        lastError := lastError
        claimedAt := none }) fun _ => rfl)

/-! ### The transport -/

/-- `Transport`. -/
structure Transport (V T : Type) where
  store : PostgresStore
  serializer : JSONSerializer V T
  batchSize : ℕ

section

variable {V T : Type}

/-- The aggregate columns of an envelope. -/
def aggregateOf (env : Envelope V) : Outcome (String × String) :=
  match env.last "messenger.aggregate" with
  | none => .returned ("", "")
  | some (.aggregate type id) => .returned (type, id)
  | some _ => .panicked (stampAssertion "stamp.AggregateStamp")

/-- The trace column of an envelope. -/
def traceIDOf (env : Envelope V) : Outcome String :=
  match env.last Stamp.nameTrace with
  | none => .returned ""
  | some (.trace traceID _ _) => .returned traceID
  | some _ => .panicked (stampAssertion "stamp.TraceStamp")

/-- The part of `Transport.Send` before the insert; both ids are random. -/
def Transport.entryOf [Typed V] (tr : Transport V T) (wireID entryID : String) (env : Envelope V) :
    Outcome (Except Err Entry) :=
  match tr.serializer.encode wireID env with
  | .error err => .returned (.error (.wrap "outbox transport: encode: %w" none err))
  | .ok data =>
      match aggregateOf env, traceIDOf env with
      | .panicked p, _ => .panicked p
      | _, .panicked p => .panicked p
      | .returned (aggType, aggID), .returned traceID => .returned (.ok
          ⟨entryID, aggType, aggID, Typed.typeNameOf env.message, data, traceID, env.createdAt, 0⟩)

/-- `Transport.Send`. -/
def Transport.send [Typed V] (tr : Transport V T) (wireID entryID : String) (env : Envelope V)
    (dbErr : Option Err) (t : OutboxTable) : Outcome (Option Err) × OutboxTable :=
  match tr.entryOf wireID entryID env with
  | .panicked p => (.panicked p, t)
  | .returned (.error err) => (.returned (some err), t)
  | .returned (.ok entry) =>
      let r := insertEntry entry dbErr t
      (.returned (r.1.map (.wrap "outbox transport: insert: %w" none)), r.2)

/-- What the database does during a poll: its time, the entries others have locked, the order of
rows, and whether the query or the update of an entry fails. -/
structure Poll where
  now : ℤ
  locked : String → Bool
  order : RowOrder
  queryErr : Option Err
  retryErr : String → Option Err

/-- The loop of `Transport.Get`. -/
def Transport.receive (tr : Transport V T) (poll : Poll) :
    List Entry → OutboxTable → Outcome (List (Envelope V)) × OutboxTable
  | [], t => (.returned [], t)
  | e :: entries, t =>
      match tr.serializer.decode e.payload with
      | .panicked p => (.panicked p, t)
      | .returned (.error err) =>
          tr.receive poll entries
            (incrementRetry e.id (some (.wrap "decode: %w" none err)) (poll.retryErr e.id) t).2
      | .returned (.ok env) =>
          match tr.receive poll entries t with
          | (.panicked p, t') => (.panicked p, t')
          | (.returned envs, t') => (.returned (env.withStamp (.outboxID e.id) :: envs), t')

/-- `Transport.Get`. -/
def Transport.get (tr : Transport V T) (poll : Poll) (t : OutboxTable) :
    Outcome (Except Err (List (Envelope V))) × OutboxTable :=
  match poll.queryErr with
  | some err => (.returned (.error (.wrap "outbox transport: get: %w" none
      (.wrap "outbox postgres: query unpublished: %w" none err))), t)
  | none =>
      let polled := tr.store.getUnpublished poll.now poll.locked poll.order tr.batchSize t
      match tr.receive poll polled.1 polled.2 with
      | (.panicked p, t') => (.panicked p, t')
      | (.returned envs, t') => (.returned (.ok envs), t')

/-- `outboxEntryID`. -/
def outboxEntryID (env : Envelope V) : Outcome (Except Err String) :=
  match env.last "messenger.outbox_id" with
  | none => .returned (.error (.msg "outbox transport: missing OutboxIDStamp on envelope"))
  | some (.outboxID entryID) => .returned (.ok entryID)
  | some _ => .panicked (stampAssertion "stamp.OutboxIDStamp")

/-- What `Ack` and `Reject` share: the entry of the envelope is updated. -/
def onEntry (what : String) (env : Envelope V)
    (update : String → OutboxTable → Option Err × OutboxTable)
    (t : OutboxTable) : Outcome (Option Err) × OutboxTable :=
  match outboxEntryID env with
  | .panicked p => (.panicked p, t)
  | .returned (.error err) => (.returned (some (.wrap what none err)), t)
  | .returned (.ok id) =>
      let r := update id t
      (.returned (r.1.map (.wrap what none)), r.2)

/-- `Transport.Ack`. -/
def ack (env : Envelope V) (now : ℤ) (dbErr : Option Err) (t : OutboxTable) :
    Outcome (Option Err) × OutboxTable :=
  onEntry "outbox transport: ack: %w" env (fun id => markPublished now id dbErr) t

/-- `Transport.Reject`. -/
def reject (env : Envelope V) (reason : Option Err) (dbErr : Option Err) (t : OutboxTable) :
    Outcome (Option Err) × OutboxTable :=
  onEntry "outbox transport: reject: %w" env (fun id => incrementRetry id reason dbErr) t

/-- The entry that the envelope belongs to. -/
def entryIDOf (env : Envelope V) : Option String :=
  match outboxEntryID env with
  | .returned (.ok id) => some id
  | _ => none

theorem onEntry_of_some {what : String} {env : Envelope V} {id : String}
    (h : entryIDOf env = some id) (update : String → OutboxTable → Option Err × OutboxTable)
    (t : OutboxTable) :
    onEntry what env update t = (.returned ((update id t).1.map (.wrap what none)),
      (update id t).2) := by
  unfold entryIDOf at h
  unfold onEntry
  split at h
  · next id' hid =>
    rw [hid, Option.some.inj h]
  · cases h

theorem onEntry_of_none {what : String} {env : Envelope V} (h : entryIDOf env = none)
    (update : String → OutboxTable → Option Err × OutboxTable) (t : OutboxTable) :
    (onEntry what env update t).2 = t := by
  unfold entryIDOf at h
  unfold onEntry
  rcases hid : outboxEntryID env with (_ | id') | _
  · rfl
  · rw [hid] at h
    cases h
  · rfl

/-! ### What the calls leave in the table -/

/-- Every entry was there before, with its payload. -/
def SameEntries (t t' : OutboxTable) : Prop :=
  ∀ r' ∈ t', ∃ r ∈ t, r.id = r'.id ∧ r.entry.payload = r'.entry.payload

theorem SameEntries.refl (t : OutboxTable) : SameEntries t t := fun r hr => ⟨r, hr, rfl, rfl⟩

theorem SameEntries.trans {t t' t'' : OutboxTable} (h : SameEntries t t')
    (h' : SameEntries t' t'') :
    SameEntries t t'' := by
  intro r'' hr''
  obtain ⟨r', hr', hid', hpayload'⟩ := h' r'' hr''
  obtain ⟨r, hr, hid, hpayload⟩ := h r' hr'
  exact ⟨r, hr, hid.trans hid', hpayload.trans hpayload'⟩

theorem sameEntries_update {t : OutboxTable} {p : OutboxRow → Bool} {f : OutboxRow → OutboxRow}
    {hf : ∀ r, (f r).id = r.id} (hpayload : ∀ r, (f r).entry.payload = r.entry.payload) :
    SameEntries t (t.update p f hf) := by
  intro r' hr'
  obtain ⟨r, hr, rfl⟩ := Sql.Table.mem_update.1 hr'
  refine ⟨r, hr, ?_⟩
  split_ifs
  · exact ⟨(hf r).symm, (hpayload r).symm⟩
  · exact ⟨rfl, rfl⟩

theorem sameEntries_markPublished (now : ℤ) (id : String) (dbErr : Option Err) (t : OutboxTable) :
    SameEntries t (markPublished now id dbErr t).2 := by
  cases dbErr with
  | some err => exact .refl t
  | none => apply sameEntries_update <;> exact fun _ => rfl

theorem sameEntries_incrementRetry (id : String) (lastError dbErr : Option Err) (t : OutboxTable) :
    SameEntries t (incrementRetry id lastError dbErr t).2 := by
  cases dbErr with
  | some err => exact .refl t
  | none => apply sameEntries_update <;> exact fun _ => rfl

theorem sameEntries_onEntry (what : String) (env : Envelope V)
    {update : String → OutboxTable → Option Err × OutboxTable}
    (h : ∀ id t, SameEntries t (update id t).2) (t : OutboxTable) :
    SameEntries t (onEntry what env update t).2 := by
  unfold onEntry
  rcases outboxEntryID env with (_ | id) | _
  · exact .refl t
  · exact h id t
  · exact .refl t

/-- The entries that are polled are rows of the table. -/
theorem getUnpublished_spec (store : PostgresStore) (now : ℤ) (locked : String → Bool)
    (order : RowOrder) (batchSize : ℕ) (t : OutboxTable) :
    (∀ e ∈ (store.getUnpublished now locked order batchSize t).1, ∃ r ∈ t, r.entry = e) ∧
      SameEntries t (store.getUnpublished now locked order batchSize t).2 := by
  unfold PostgresStore.getUnpublished
  split_ifs
  · refine ⟨fun e he => ?_, .refl t⟩
    obtain ⟨r, hr, rfl⟩ := List.mem_map.1 he
    exact ⟨r, (Sql.Table.mem_of_mem_select hr).1, rfl⟩
  · constructor
    · intro e he
      obtain ⟨r, hr, rfl⟩ := List.mem_map.1 he
      exact ⟨r, (Sql.Table.mem_of_mem_select ((order.perm _).mem_iff.1 hr)).1, rfl⟩
    · apply sameEntries_update <;> exact fun _ => rfl

/-- The loop of `Get` returns the envelopes of its entries, each with the id of its entry. -/
theorem receive_spec (tr : Transport V T) (poll : Poll) (entries : List Entry) (t : OutboxTable) :
    SameEntries t (tr.receive poll entries t).2 ∧
      ∀ envs, (tr.receive poll entries t).1 = .returned envs → ∀ env ∈ envs, ∃ e ∈ entries,
        ∃ env', tr.serializer.decode e.payload = .returned (.ok env') ∧
          env = env'.withStamp (.outboxID e.id) := by
  induction entries generalizing t with
  | nil =>
    refine ⟨.refl t, ?_⟩
    rintro _ ⟨⟩ env ⟨⟩
  | cons e entries ih =>
    unfold Transport.receive
    rcases hdecode : tr.serializer.decode e.payload with (err | env') | p
    · -- the entry is skipped
      obtain ⟨hsame, henvs⟩ := ih (incrementRetry e.id (some (.wrap "decode: %w" none err))
        (poll.retryErr e.id) t).2
      refine ⟨(sameEntries_incrementRetry _ _ _ t).trans hsame, fun envs henv env hmem => ?_⟩
      obtain ⟨e', he', hspec⟩ := henvs envs henv env hmem
      exact ⟨e', List.mem_cons_of_mem _ he', hspec⟩
    · obtain ⟨hsame, henvs⟩ := ih t
      rcases hrest : tr.receive poll entries t with ⟨envs | p, t'⟩
      · rw [hrest] at hsame henvs
        refine ⟨hsame, ?_⟩
        rintro _ ⟨⟩ env hmem
        rcases List.mem_cons.1 hmem with rfl | hmem
        · exact ⟨e, List.mem_cons_self, env', hdecode, rfl⟩
        · obtain ⟨e', he', hspec⟩ := henvs envs rfl env hmem
          exact ⟨e', List.mem_cons_of_mem _ he', hspec⟩
      · rw [hrest] at hsame
        exact ⟨hsame, nofun⟩
    · exact ⟨.refl t, nofun⟩

/-- What `Get` returns: the envelopes of rows of the table. -/
theorem get_spec (tr : Transport V T) (poll : Poll) (t : OutboxTable) :
    SameEntries t (tr.get poll t).2 ∧
      ∀ envs, (tr.get poll t).1 = .returned (.ok envs) → ∀ env ∈ envs, ∃ r ∈ t,
        ∃ env', tr.serializer.decode r.entry.payload = .returned (.ok env') ∧
          env = env'.withStamp (.outboxID r.id) := by
  unfold Transport.get
  cases poll.queryErr with
  | some err => exact ⟨.refl t, nofun⟩
  | none =>
    obtain ⟨hrows, hpolled⟩ := getUnpublished_spec tr.store poll.now poll.locked poll.order
      tr.batchSize t
    obtain ⟨hsame, henvs⟩ := receive_spec tr poll
      (tr.store.getUnpublished poll.now poll.locked poll.order tr.batchSize t).1
      (tr.store.getUnpublished poll.now poll.locked poll.order tr.batchSize t).2
    dsimp only
    rcases hr : tr.receive poll
      (tr.store.getUnpublished poll.now poll.locked poll.order tr.batchSize t).1
      (tr.store.getUnpublished poll.now poll.locked poll.order tr.batchSize t).2 with ⟨envs | p, t'⟩
    · rw [hr] at hsame henvs
      refine ⟨hpolled.trans hsame, ?_⟩
      rintro _ ⟨⟩ env hmem
      obtain ⟨e, he, hspec⟩ := henvs envs rfl env hmem
      obtain ⟨r, hrt, rfl⟩ := hrows e he
      exact ⟨r, hrt, hspec⟩
    · rw [hr] at hsame
      exact ⟨hpolled.trans hsame, nofun⟩

/-! ### Runs -/

/-- A call of the transport.  The envelope of a `Send` is one that a dispatch of a message with some
stamps has created. -/
inductive Op (V : Type)
  | send (wireID entryID : String) (msg : V) (stamps : List (Stamp V)) (dispatchedAt : ℤ)
      (dbErr : Option Err)
  | get (poll : Poll)
  | ack (env : Envelope V) (now : ℤ) (dbErr : Option Err)
  | reject (env : Envelope V) (reason dbErr : Option Err)

variable [Typed V]

def Op.apply (tr : Transport V T) : Op V → OutboxTable → OutboxTable
  | .send wireID entryID msg stamps dispatchedAt dbErr, t =>
      (tr.send wireID entryID (.new msg stamps dispatchedAt) dbErr t).2
  | .get poll, t => (tr.get poll t).2
  | .ack env now dbErr, t => (Messenger.ack env now dbErr t).2
  | .reject env reason dbErr, t => (Messenger.reject env reason dbErr t).2

/-- The table after some calls, in the order they were made. -/
def Transport.run (tr : Transport V T) (ops : List (Op V)) : OutboxTable :=
  ops.foldl (fun t op => op.apply tr t) .empty

/-- The entry was sent by one of the calls, with this payload. -/
def SentAs (tr : Transport V T) (ops : List (Op V)) (entryID : String) (payload : Json) : Prop :=
  ∃ wireID msg stamps dispatchedAt dbErr, .send wireID entryID msg stamps dispatchedAt dbErr ∈ ops ∧
    ∃ entry, tr.entryOf wireID entryID (.new msg stamps dispatchedAt) = .returned (.ok entry) ∧
      entry.payload = payload

theorem entryOf_id {tr : Transport V T} {wireID entryID : String} {env : Envelope V} {entry : Entry}
    (h : tr.entryOf wireID entryID env = .returned (.ok entry)) :
    entry.id = entryID ∧ tr.serializer.encode wireID env = .ok entry.payload := by
  unfold Transport.entryOf at h
  cases hdata : tr.serializer.encode wireID env with
  | error err => simp [hdata] at h
  | ok data =>
    simp only [hdata] at h
    rcases hagg : aggregateOf env with agg | p <;> rcases htrace : traceIDOf env with
      traceID | p' <;>
      simp only [hagg, htrace] at h <;> cases h
    exact ⟨rfl, rfl⟩

/-- The rows after a `Send`: those before it, and possibly the one it inserts. -/
theorem mem_send {tr : Transport V T} {wireID entryID : String} {env : Envelope V}
    {dbErr : Option Err} {t : OutboxTable} {r : OutboxRow}
    (hr : r ∈ (tr.send wireID entryID env dbErr t).2) :
    r ∈ t ∨ ∃ entry, tr.entryOf wireID entryID env = .returned (.ok entry) ∧ r.id = entry.id ∧
      r.entry.payload = entry.payload := by
  unfold Transport.send at hr
  rcases hentry : tr.entryOf wireID entryID env with (err | entry) | p
  · rw [hentry] at hr
    exact Or.inl hr
  · rw [hentry] at hr
    unfold insertEntry at hr
    cases dbErr with
    | some err => exact Or.inl hr
    | none =>
      cases hinsert : t.insert ⟨{ entry with retryCount := 0 }, none, none, none⟩ with
      | none =>
        simp only [hinsert] at hr
        exact Or.inl hr
      | some t' =>
        simp only [hinsert] at hr
        rcases (Sql.Table.mem_insert hinsert).1 hr with hr | rfl
        · exact Or.inl hr
        · exact Or.inr ⟨entry, rfl, rfl, rfl⟩
  · rw [hentry] at hr
    exact Or.inl hr

/-- One call: every entry was there before, or is the one it sends. -/
theorem mem_apply {tr : Transport V T} {op : Op V} {t : OutboxTable} {r : OutboxRow}
    (hr : r ∈ op.apply tr t) :
    (∃ r' ∈ t, r'.id = r.id ∧ r'.entry.payload = r.entry.payload) ∨
      SentAs tr [op] r.id r.entry.payload := by
  cases op with
  | send wireID entryID msg stamps dispatchedAt dbErr =>
    rcases mem_send hr with hr | ⟨entry, hentry, hid, hpayload⟩
    · exact Or.inl ⟨r, hr, rfl, rfl⟩
    · obtain ⟨rfl, -⟩ := entryOf_id hentry
      rw [hid, hpayload]
      exact Or.inr ⟨wireID, msg, stamps, dispatchedAt, dbErr, List.mem_singleton_self _, entry,
        hentry, rfl⟩
  | get poll => exact Or.inl ((get_spec tr poll t).1 r hr)
  | ack env now dbErr =>
    exact Or.inl
      (sameEntries_onEntry _ env (fun id t => sameEntries_markPublished now id dbErr t) t r hr)
  | reject env reason dbErr =>
    exact Or.inl (sameEntries_onEntry _ env
      (fun id t => sameEntries_incrementRetry id reason dbErr t) t r hr)

/-- **Whole runs.**  Every row of the table was sent, with the payload it has. -/
theorem sentAs_of_mem_run {tr : Transport V T} {ops : List (Op V)} {r : OutboxRow}
    (hr : r ∈ tr.run ops) :
    SentAs tr ops r.id r.entry.payload := by
  induction ops using List.reverseRecOn generalizing r with
  | nil => exact absurd hr (Sql.Table.not_mem_empty r)
  | append_singleton ops op ih =>
    have hmono : ∀ {ops'}, ops' ⊆ ops ++ [op] → ∀ {id payload}, SentAs tr ops' id payload →
        SentAs tr (ops ++ [op]) id payload := by
      rintro ops' hsub id payload ⟨wireID, msg, stamps, dispatchedAt, dbErr, hmem, hentry⟩
      exact ⟨wireID, msg, stamps, dispatchedAt, dbErr, hsub hmem, hentry⟩
    rw [Transport.run, List.foldl_append] at hr
    rcases mem_apply hr with ⟨r', hr', hid, hpayload⟩ | hsent
    · rw [← hid, ← hpayload]
      exact hmono (List.subset_append_left ops [op]) (ih hr')
    · exact hmono (List.subset_append_right ops [op]) hsent

end

end WolfCore.Messenger
