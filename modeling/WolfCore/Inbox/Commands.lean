import WolfCore.Inbox.Consumers

/-!
# Commands and replies behind an inbox

`CommandStream.Send` and `ReplyStream.Send` publish without an ID, and the stream in memory does not
assign one: to the inbox all of them are one message.  `runs_each_send_iff` says that the subscriber
handles each of them exactly if there is at most one, and `second_send_skipped` is a run with two.
-/

namespace WolfCore.Inbox

open Go Interleave Messaging

section

variable {H : Type} (now : InboxTable → ℤ)

/-! ### Commands and replies -/

/-- A call of `CommandStream.Send` or `ReplyStream.Send`. -/
inductive Send (V : Type)
  | command (subject : String) (cmd : Command V)
  | reply (subject : String) (reply : Reply)

variable {V : Type} (marshal : Command V → Except Err String)
  (marshalReply : Reply → Except Err String)

def send (s : InprocessStream (Answer (H := H))) :
    Send V → Prog (Answer (H := H)) (Outcome (Option Err))
  | .command subject cmd => sendCommand marshal s subject cmd
  | .reply subject reply => sendReply marshalReply s subject reply

def sendAll (s : InprocessStream (Answer (H := H))) : List (Send V) → Prog (Answer (H := H)) Unit
  | [] => .pure ()
  | x :: xs => (send marshal marshalReply s x).bind fun _ => sendAll s xs

/-- The subject and the message a call publishes, unless the encoding fails. -/
def Send.published : Send V → Option (String × RawMessage)
  | .command subject cmd =>
    (marshal cmd).toOption.map fun data => (subject, commandMessage subject cmd data)
  | .reply subject r =>
      (marshalReply r).toOption.map fun data => (subject, replyMessage subject r data)

/-- The calls as operations on the stream. -/
def publishes (sends : List (Send V)) : List (Op H) :=
  (sends.filterMap (Send.published marshal marshalReply)).map fun p => .publish p.1 p.2

/-- The messages sent on the subject, as its handlers receive them. -/
def sentOn (subject : String) (sends : List (Send V)) : List Message :=
  ((sends.filterMap (Send.published marshal marshalReply)).filter fun p => p.1 = subject).map
    fun p => inprocessMessage p.1 p.2

/-- Commands and replies are published without an ID. -/
theorem published_id {x : Send V} {p : String × RawMessage}
    (h : x.published marshal marshalReply = some p) : p.2.id = "" := by
  cases x <;> simp only [Send.published, Option.map_eq_some_iff] at h <;> obtain ⟨_, -, rfl⟩ :=
    h <;> rfl

theorem runAlone_publishSent (s : InprocessStream (Answer (H := H))) (subject : String)
    (wrapErr : Err → Err) (msg : RawMessage) (t : InboxTable) :
    (runAlone now (publishSent s subject wrapErr msg) t).1 =
      (runAlone now (s.publish subject msg) t).1 ∧
      (runAlone now (publishSent s subject wrapErr msg) t).2.2 =
        (runAlone now (s.publish subject msg) t).2.2 := by
  unfold runAlone publishSent
  rw [Prog.eval_bind]
  cases ((s.publish subject msg).eval (fun e t => exec e (reliable (now t)) t) t).2.1 <;>
    simp [Prog.eval]

/-- A `Send` publishes its message, or fails to encode it. -/
theorem send_cases (s : InprocessStream (Answer (H := H))) (x : Send V) :
    (x.published marshal marshalReply = none ∧
        ∃ err, send marshal marshalReply s x = .pure (.returned (some err))) ∨
      ∃ p wrapErr, x.published marshal marshalReply = some p ∧
        send marshal marshalReply s x = publishSent s p.1 wrapErr p.2 := by
  cases x with
  | command subject cmd =>
    simp only [Send.published, send, sendCommand]
    cases marshal cmd with
    | error err => exact Or.inl ⟨rfl, _, rfl⟩
    | ok data => exact Or.inr ⟨_, _, rfl, rfl⟩
  | reply subject reply =>
    simp only [Send.published, send, sendReply]
    cases marshalReply reply with
    | error err => exact Or.inl ⟨rfl, _, rfl⟩
    | ok data => exact Or.inr ⟨_, _, rfl, rfl⟩

/-- A sequence of `Send`s is a sequence of publications. -/
theorem runAlone_sendAll (s : InprocessStream (Answer (H := H))) (sends : List (Send V))
    (t : InboxTable) : (runAlone now (sendAll marshal marshalReply s sends) t).1 =
      (runAlone now (play s (publishes marshal marshalReply sends)) t).1 := by
  induction sends generalizing t with
  | nil => rfl
  | cons x xs ih =>
    have hcons : (runAlone now (sendAll marshal marshalReply s (x :: xs)) t).1 =
        (runAlone now (send marshal marshalReply s x) t).1 ++ (runAlone now
          (sendAll marshal marshalReply s xs)
          (runAlone now (send marshal marshalReply s x) t).2.2).1 := by
      unfold runAlone
      rw [sendAll, Prog.eval_bind]
    rw [hcons, ih]
    rcases send_cases marshal marshalReply s x with ⟨hp, err, hsend⟩ | ⟨p, wrapErr, hp, hsend⟩
    · rw [hsend]
      simp [runAlone, Prog.eval, publishes, hp]
    · obtain ⟨hevents, hstate⟩ := runAlone_publishSent now s p.1 wrapErr p.2 t
      rw [hsend, hevents, hstate]
      simp [runAlone, publishes, hp, play, Prog.eval_bind]

/-- With one consumer and no IDs, the first message on its subject is handled, if any. -/
theorem firstRuns_publishes (subject : String) (h : H) (seen : List String)
    (sends : List (Send V)) :
    firstRuns (addConsumer (fun _ => []) subject h) seen (publishes marshal marshalReply sends) =
      if "" ∈ seen then [] else ((sentOn marshal marshalReply subject sends).take 1).map
        fun m => (h, m) := by
  induction sends generalizing seen with
  | nil => simp [publishes, sentOn, firstRuns]
  | cons x xs ih =>
    cases hp : x.published marshal marshalReply with
    | none =>
      have hops : publishes (H := H) marshal marshalReply
          (x :: xs) = publishes marshal marshalReply xs := by
        simp [publishes, hp]
      have hsent : sentOn marshal marshalReply subject
          (x :: xs) = sentOn marshal marshalReply subject xs := by
        simp [sentOn, hp]
      rw [hops, hsent, ih]
    | some p =>
      have hops : publishes (H := H) marshal marshalReply (x :: xs) =
          .publish p.1 p.2 :: publishes marshal marshalReply xs := by
        simp [publishes, hp]
      rw [hops, firstRuns, published_id marshal marshalReply hp]
      by_cases hs : p.1 = subject
      · have hsent : sentOn marshal marshalReply subject (x :: xs) =
            inprocessMessage p.1 p.2 :: sentOn marshal marshalReply subject xs := by
          simp [sentOn, hp, hs]
        have hc : addConsumer (fun _ => []) subject h p.1 = [h] := by simp [addConsumer, hs]
        rw [hc, hsent, ih, ih]
        by_cases hseen : "" ∈ seen <;> simp [hseen]
      · have hsent : sentOn marshal marshalReply subject (x :: xs) =
            sentOn marshal marshalReply subject xs := by
          simp [sentOn, hp, hs]
        have hc : addConsumer (fun _ => []) subject h p.1 = [] := by simp [addConsumer, hs]
        rw [hc, hsent, ih]

/-- **When every `Send` is handled**: the wrapped subscriber runs once for each command and reply
sent on its subject exactly if there is none, or one and the store has no row for the empty ID. -/
theorem runs_each_send_iff (subject : String) (h : H) (sends : List (Send V)) (t : InboxTable) :
    handledBy (runAlone now (sendAll marshal marshalReply
        (InprocessStream.new.subscribe subject (wrap h)) sends) t).1 =
        (sentOn marshal marshalReply subject sends).map (fun m => (h, m)) ↔
      sentOn marshal marshalReply subject sends = [] ∨
        (sentOn marshal marshalReply subject sends).length = 1 ∧ isProcessed t "" = false := by
  have hstream : InprocessStream.new.subscribe subject (wrap h) =
      streamOf (addConsumer (fun _ => []) subject h) := streamOf_subscribe (fun _ => []) subject h
  rw [runAlone_sendAll, hstream, handledBy_play now _ _ _ t (isProcessed_iff_mem t),
    firstRuns_publishes]
  by_cases hseen : "" ∈ t.rows.map Row.id
  · have hp := (isProcessed_iff_mem t "").2 hseen
    rw [if_pos hseen, hp]
    cases sentOn marshal marshalReply subject sends <;> simp
  · have hp : isProcessed t "" = false := by
      rw [← Bool.not_eq_true]
      exact fun hp => hseen ((isProcessed_iff_mem t "").1 hp)
    rw [if_neg hseen, hp]
    rcases sentOn marshal marshalReply subject sends with _ | ⟨m, _ | ⟨m', ms⟩⟩ <;> simp

end

/-! ### Two commands -/

/-- A command, sent on the subject of the orders. -/
def orderCommand (commandType : String) : Send String := .command "orders" ⟨commandType, "o1"⟩

def orderMessage (commandType : String) : Message :=
  inprocessMessage "orders" (commandMessage "orders" ⟨commandType, "o1"⟩ "o1")

/-- Of a command to place an order and one to cancel it the second is taken for a redelivery. -/
theorem second_send_skipped :
    handledBy (runAlone (fun _ => 0) (sendAll (fun cmd => .ok cmd.body) (fun r => .ok r.data)
        (InprocessStream.new.subscribe "orders" (wrap ()))
        [orderCommand "order.place.v1", orderCommand "order.cancel.v1"]) Sql.Table.empty).1 =
      [((), orderMessage "order.place.v1")] ∧
    sentOn (fun cmd => .ok cmd.body) (fun r => .ok r.data) "orders"
        [orderCommand "order.place.v1", orderCommand "order.cancel.v1"] =
      [orderMessage "order.place.v1", orderMessage "order.cancel.v1"] :=
  ⟨rfl, rfl⟩

end WolfCore.Inbox
