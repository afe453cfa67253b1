import WolfCore.Lib.Interleave
import WolfCore.Messaging.EventStream

/-!
# Streams in memory (`messaging/stream.go`, `messaging/command_stream.go`,
`infra/events/inprocess/stream.go`)

An `InprocessStream` calls the handlers of a subject one after the other in the goroutine of the
publisher.  A handler is a program over whatever commands it needs.

`CommandStream.Send` and `ReplyStream.Send` publish a message without an ID: the field is meant to
be filled by the broker, and the stream in memory passes it on as it is.
-/

namespace WolfCore.Messaging

open Go Interleave

/-- `messaging.Message`, without the acknowledgements, which the stream in memory ignores. -/
structure Message where
  id : String
  subject : String
  data : String
  headers : StrMap

section

variable {E : Type} {R : E → Type}

/-- `messaging.MessageHandler`. -/
abbrev MessageHandler (R : E → Type) := Message → Prog R (Outcome (Option Err))

/-- `InprocessStream`: the handlers of each subject. -/
abbrev InprocessStream (R : E → Type) := String → List (MessageHandler R)

/-- `NewStream`. -/
def InprocessStream.new : InprocessStream R := fun _ => []

/-- `InprocessStream.Subscribe`. -/
def InprocessStream.subscribe (s : InprocessStream R) (subject : String)
    (handler : MessageHandler R) :
    InprocessStream R :=
  Function.update s subject (s subject ++ [handler])

/-- The `inprocessMessage` of a published message. -/
def inprocessMessage (subject : String) (msg : RawMessage) : Message where
  id := msg.id
  subject := subject
  data := msg.data
  headers := msg.headers

/-- The loop of `Publish`: an error of a handler is logged, and the next handler is called. -/
def deliver (m : Message) : List (MessageHandler R) → Prog R (Outcome (Option Err))
  | [] => .pure (.returned none)
  | h :: hs => (h m).bind fun
      | .returned _ => deliver m hs
      | .panicked p => .pure (.panicked p)

/-- `InprocessStream.Publish`. -/
def InprocessStream.publish (s : InprocessStream R) (subject : String) (msg : RawMessage) :
    Prog R (Outcome (Option Err)) :=
  deliver (inprocessMessage subject msg) (s subject)

/-! ### Commands and replies -/

/-- `messaging.Command`: its type, and what else there is to it. -/
structure Command (V : Type) where
  commandType : String
  body : V

/-- `messaging.Reply`. -/
structure Reply where
  type : String
  success : Bool
  data : String
  error : String

/-- `fmt.Sprintf("%t", b)`. -/
def formatBool (b : Bool) : String := if b then "true" else "false"

/-- The message of `CommandStream.Send`. -/
def commandMessage {V : Type} (subject : String) (cmd : Command V) (data : String) :
    RawMessage where
  id := ""
  name := cmd.commandType
  subject := subject
  data := data
  headers := StrMap.empty.set "command_type" cmd.commandType

/-- The message of `ReplyStream.Send`. -/
def replyMessage (subject : String) (reply : Reply) (data : String) : RawMessage where
  id := ""
  name := reply.type
  subject := subject
  data := data
  headers := (StrMap.empty.set "reply_type" reply.type).set "success" (formatBool reply.success)

/-- What both `Send`s do with the encoded message: an error is wrapped. -/
def publishSent (s : InprocessStream R) (subject : String) (wrapErr : Err → Err)
    (msg : RawMessage) :
    Prog R (Outcome (Option Err)) :=
  (s.publish subject msg).bind fun
    | .returned err => .pure (.returned (err.map wrapErr))
    | .panicked p => .pure (.panicked p)

/-- `CommandStream.Send`. -/
def sendCommand {V : Type} (marshal : Command V → Except Err String) (s : InprocessStream R)
    (subject : String) (cmd : Command V) : Prog R (Outcome (Option Err)) :=
  match marshal cmd with
  | .error err =>
      .pure (.returned (some (.wrap "command_stream: marshal %q: %w" (some cmd.commandType) err)))
  | .ok data => publishSent s subject
      (.wrap "command_stream: publish %q: %w" (some cmd.commandType))
        (commandMessage subject cmd data)

/-- `ReplyStream.Send`. -/
def sendReply (marshal : Reply → Except Err String) (s : InprocessStream R) (subject : String)
    (reply : Reply) : Prog R (Outcome (Option Err)) :=
  match marshal reply with
  | .error err =>
      .pure (.returned (some (.wrap "reply_stream: marshal reply for %q: %w" (some subject) err)))
  | .ok data => publishSent s subject
      (.wrap "reply_stream: publish reply for %q: %w" (some subject))
        (replyMessage subject reply data)

end

end WolfCore.Messaging
