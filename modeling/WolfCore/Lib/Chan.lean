import Mathlib.Tactic

/-!
# Channels

A Go channel of capacity `cap`, as its operations see it: the values in it, whether it is closed,
and how many goroutines wait to receive.  A send goes through if there is room in the buffer or
somebody waits for the value; so a channel without a buffer holds a value only while its receiver is
on the way.  Sends and receives that cannot go through leave the channel as it is, and are tried
again.

* `send`: a send, which panics on a closed channel;
* `await`, then `recv` or `leave`: a receive, which waits and then takes a value, finds the channel
  closed and empty, or gives up (in a `select`, for another case).  It can give up as long as there
  is room: otherwise some value was sent only because of the wait.
-/

namespace Go

/-- A channel of capacity `cap`. -/
structure Chan (α : Type) (cap : ℕ) where
  buf : List α
  closed : Bool
  /-- how many wait to receive -/
  waiting : ℕ

/-- How a send ends. -/
inductive SendResult
  | sent
  | blocked
  /-- send on closed channel -/
  | panicked
  deriving DecidableEq

/-- How a receive ends. -/
inductive RecvResult (α : Type)
  | received (x : α)
  | blocked
  | closed

namespace Chan

variable {α : Type} {cap : ℕ}

/-- `make(chan T, cap)`. -/
def make : Chan α cap := ⟨[], false, 0⟩

variable (c : Chan α cap)

/-- Whether a value can be sent. -/
def hasRoom : Bool := c.buf.length < cap + c.waiting

/-- `ch <- x`. -/
def send (x : α) : SendResult × Chan α cap :=
  if c.closed then (.panicked, c)
  else if c.hasRoom then (.sent, { c with buf := c.buf ++ [x] })
  else (.blocked, c)

/-- A receiver starts to wait. -/
def await : Chan α cap := { c with waiting := c.waiting + 1 }

/-- A receiver no longer waits. -/
def leave : Chan α cap := { c with waiting := c.waiting - 1 }

/-- `<-ch`, for a receiver that waits. -/
def recv : RecvResult α × Chan α cap :=
  match c.buf with
  | x :: rest => (.received x, { c with buf := rest, waiting := c.waiting - 1 })
  | [] => if c.closed then (.closed, c.leave) else (.blocked, c)

/-- `close(ch)`, for a channel that is open. -/
def close : Chan α cap := { c with closed := true }

variable {c}

theorem send_cases (x : α) :
    (c.closed = true ∧ c.send x = (.panicked, c)) ∨
    (c.closed = false ∧ c.hasRoom = true ∧ c.send x = (.sent, { c with buf := c.buf ++ [x] })) ∨
    (c.closed = false ∧ c.hasRoom = false ∧ c.send x = (.blocked, c)) := by
  unfold send
  cases c.closed
  · cases c.hasRoom
    · exact Or.inr (Or.inr ⟨rfl, rfl, rfl⟩)
    · exact Or.inr (Or.inl ⟨rfl, rfl, rfl⟩)
  · exact Or.inl ⟨rfl, rfl⟩

theorem recv_cases :
    (∃ x rest, c.buf = x :: rest ∧
      c.recv = (.received x, { c with buf := rest, waiting := c.waiting - 1 })) ∨
    (c.buf = [] ∧ c.closed = true ∧ c.recv = (.closed, c.leave)) ∨
    (c.buf = [] ∧ c.closed = false ∧ c.recv = (.blocked, c)) := by
  unfold recv
  cases hbuf : c.buf with
  | cons x rest => exact Or.inl ⟨x, rest, rfl, rfl⟩
  | nil =>
    cases hclosed : c.closed
    · exact Or.inr (Or.inr ⟨rfl, rfl, rfl⟩)
    · exact Or.inr (Or.inl ⟨rfl, rfl, rfl⟩)

theorem send_panicked_iff {x : α} : (c.send x).1 = .panicked ↔ c.closed = true := by
  rcases c.send_cases x with ⟨hclosed, heq⟩ | ⟨hclosed, -, heq⟩ | ⟨hclosed, -, heq⟩
  all_goals simp [heq, hclosed]

theorem not_closed_of_sent {x : α} (h : (c.send x).1 = .sent) : c.closed = false := by
  rcases c.send_cases x with ⟨-, heq⟩ | ⟨hclosed, -, -⟩ | ⟨hclosed, -, -⟩
  · simp [heq] at h
  · exact hclosed
  · exact hclosed

theorem closed_recv : c.recv.2.closed = c.closed := by
  rcases c.recv_cases with ⟨x, rest, -, heq⟩ | ⟨-, -, heq⟩ | ⟨-, -, heq⟩
  all_goals simp [heq, leave]

theorem closed_send (x : α) : (c.send x).2.closed = c.closed := by
  rcases c.send_cases x with ⟨-, heq⟩ | ⟨-, -, heq⟩ | ⟨-, -, heq⟩
  all_goals rw [heq]

/-- After a send on an open channel with a buffer, whether it goes through or not, the channel is
not empty. -/
theorem send_ne_nil (hcap : 0 < cap) (hopen : c.closed = false) (x : α) :
    (c.send x).2.buf ≠ [] := by
  rcases c.send_cases x with ⟨hclosed, -⟩ | ⟨-, -, heq⟩ | ⟨-, hroom, heq⟩
  · simp [hopen] at hclosed
  · simp [heq]
  · rw [heq]
    intro (hnil : c.buf = [])
    simp only [hasRoom, hnil, List.length_nil, decide_eq_false_iff_not] at hroom
    omega

end Chan

end Go
