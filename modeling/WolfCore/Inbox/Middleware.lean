import WolfCore.Lib.Execution
import WolfCore.Lib.Table
import WolfCore.Messaging.Stream

/-!
# The inbox (`infra/events/inbox/middleware.go`, `infra/events/inbox/store.go`)

`wrap` is `InboxMiddleware.Wrap`: a message whose ID has a row in `inbox_events` is skipped, another
one is handled, and its row is written once the handler has succeeded.  The row has no other key
than the ID of the message.

`exec` is the store and the handlers as `wrap` meets them: every database call may fail, the write
of the marker with or without its effect.
-/

namespace WolfCore.Inbox

open Go Interleave Messaging

/-! ### The store -/

/-- A row of `inbox_events`. -/
structure Row where
  id : String
  eventType : String
  processedAt : ℤ

/-- The table `inbox_events`. -/
abbrev InboxTable := Sql.Table Row.id

/-- The query of `IsProcessed`. -/
def isProcessed (t : InboxTable) (messageID : String) : Bool := t.rows.any fun r => r.id = messageID

/-- The statement of `MarkProcessed`. -/
def markProcessed (t : InboxTable) (messageID eventType : String) (now : ℤ) : InboxTable :=
  t.insertIfAbsent ⟨messageID, eventType, now⟩

theorem isProcessed_iff {t : InboxTable} {messageID : String} :
    isProcessed t messageID = true ↔ ∃ r ∈ t, r.id = messageID := by
  simp [isProcessed, Sql.Table.mem_def]

theorem isProcessed_iff_mem (t : InboxTable) (messageID : String) :
    isProcessed t messageID = true ↔ messageID ∈ t.rows.map Row.id := by
  rw [isProcessed_iff, List.mem_map]
  rfl

/-- After `MarkProcessed` the message is processed, and of the others only those that were. -/
theorem isProcessed_markProcessed {t : InboxTable} {messageID eventType id : String} {now : ℤ} :
    isProcessed (markProcessed t messageID eventType now) id = true ↔
      isProcessed t id = true ∨ id = messageID := by
  simp only [isProcessed_iff, markProcessed]
  constructor
  · rintro ⟨r, hr, rfl⟩
    unfold Sql.Table.insertIfAbsent at hr
    cases ht : t.insert ⟨messageID, eventType, now⟩ with
    | none =>
      rw [ht] at hr
      exact Or.inl ⟨r, hr, rfl⟩
    | some t' =>
      rw [ht] at hr
      rcases (Sql.Table.mem_insert ht).1 hr with hr | rfl
      · exact Or.inl ⟨r, hr, rfl⟩
      · exact Or.inr rfl
  · rintro (⟨r, hr, rfl⟩ | rfl)
    · exact ⟨r, Sql.Table.mem_insertIfAbsent_of_mem hr, rfl⟩
    · exact Sql.Table.exists_mem_insertIfAbsent t _

/-! ### The middleware -/

/-- The effects of a delivery; `H` names the handlers. -/
inductive Cmd (H : Type)
  /-- the broker delivers a message -/
  | receive
  | isProcessed (messageID : String)
  | handle (next : H) (msg : Message)
  | markProcessed (messageID eventType : String)
  /-- the delivery ends -/
  | respond (msg : Message) (result : Outcome (Option Err))

/-- The answer of `MarkProcessed`.  After a failure the row may have been stored all the same, which
the caller cannot know. -/
inductive MarkReply
  | ok (inserted : Bool)
  | failed (err : Err) (stored : Bool)

abbrev Answer {H : Type} : Cmd H → Type
  | .receive => Message
  | .isProcessed _ => Except Err Bool
  | .handle _ _ => Outcome (Option Err)
  | .markProcessed _ _ => MarkReply
  | .respond _ _ => Unit

section

variable {H : Type}

/-- The event type of the marker: the header, or else the subject. -/
def eventTypeOf (msg : Message) : String :=
  if msg.headers.get "event_type" = "" then msg.subject else msg.headers.get "event_type"

/-- The end of a delivery that was not skipped: the marker is written if the handler succeeded, and
a failure to write it is only logged. -/
def settle (msg : Message) : Outcome (Option Err) → Prog (Answer (H := H)) (Outcome (Option Err))
  | .returned none => .call (.markProcessed msg.id (eventTypeOf msg)) fun _ =>
    .pure (.returned none)
  | r => .pure r

/-- `InboxMiddleware.Wrap`. -/
def wrap (next : H) : MessageHandler (Answer (H := H)) := fun msg =>
  .call (.isProcessed msg.id) fun
    | .error err => .pure (.returned (some
        (.wrap "inbox middleware: dedup check for %q: %w" (some msg.id) err)))
    | .ok true => .pure (.returned none)
    | .ok false => .call (.handle next msg) (settle msg)

/-! ### The surroundings -/

/-- What the surroundings choose at a command: the message that is delivered, how the handler ends,
whether the database fails, and if so whether the statement took effect, whether it fails to report
the affected rows, and its clock. -/
structure Choice where
  msg : Message
  handler : Outcome (Option Err)
  dbErr : Option Err
  stored : Bool
  rowsErr : Option Err
  now : ℤ

def exec : (e : Cmd H) → Choice → InboxTable → Answer e × InboxTable
  | .receive, o, t => (o.msg, t)
  | .isProcessed messageID, o, t =>
      match o.dbErr with
      | some err => (.error (.wrap "inbox store: is processed %q: %w" (some messageID) err), t)
      | none => (.ok (isProcessed t messageID), t)
  | .handle _ _, o, t => (o.handler, t)
  | .markProcessed messageID eventType, o, t =>
      match o.dbErr with
      | some err =>
          (.failed (.wrap "inbox store: mark processed %q: %w" (some messageID) err) o.stored,
            if o.stored then markProcessed t messageID eventType o.now else t)
      | none =>
          (match o.rowsErr with
            | some err =>
                .failed (.wrap "inbox store: rows affected %q: %w" (some messageID) err) true
            | none => .ok (!isProcessed t messageID),
            markProcessed t messageID eventType o.now)
  | .respond _ _, _, t => ((), t)

end

end WolfCore.Inbox
