import WolfCore.Lib.Chan

/-!
# Channels and their history

A `Wire` is a channel together with all that has been sent and received on it.  Its operations are
those of the channel; `send_cases` and `recv_cases` say what they can do.  `Reads` is what the
receivers of a channel leave as it is, `Writes` what the senders leave as it is: the two sides of a
channel know of each other only through these.
-/

namespace Go

section

variable {α : Type} {cap : ℕ}

/-- What is taken from a channel. -/
def RecvResult.values : RecvResult α → List α
  | received x => [x]
  | blocked => []
  | closed => []

/-- What is put into a channel by a send of `x`. -/
def SendResult.values (x : α) : SendResult → List α
  | sent => [x]
  | blocked => []
  | panicked => []

theorem Chan.buf_recv (c : Chan α cap) : c.buf = c.recv.1.values ++ c.recv.2.buf := by
  rcases c.recv_cases with ⟨x, rest, hbuf, heq⟩ | ⟨-, -, heq⟩ | ⟨-, -, heq⟩
  · rw [heq, hbuf]
    rfl
  · rw [heq]
    rfl
  · rw [heq]
    rfl

theorem Chan.buf_send (c : Chan α cap) (x : α) :
    (c.send x).2.buf = c.buf ++ (c.send x).1.values x := by
  rcases c.send_cases x with ⟨-, heq⟩ | ⟨-, -, heq⟩ | ⟨-, -, heq⟩
  · rw [heq]
    exact (List.append_nil _).symm
  · rw [heq]
    rfl
  · rw [heq]
    exact (List.append_nil _).symm

end

/-- A channel and its history.  Values are received in the order in which they were sent. -/
structure Wire (T : Type) (cap : ℕ) where
  chan : Chan T cap
  /-- the values sent, oldest first -/
  sent : List T
  /-- the values received, oldest first -/
  taken : List T
  /-- there was a send on the closed channel, or a second close -/
  panicked : Bool
  fifo : sent = taken ++ chan.buf

namespace Wire

variable {T : Type} {cap : ℕ}

def make : Wire T cap := ⟨.make, [], [], false, rfl⟩

variable (w : Wire T cap)

/-- `ch <- x`. -/
def send (x : T) : SendResult × Wire T cap :=
  ((w.chan.send x).1,
    { chan := (w.chan.send x).2
      sent := w.sent ++ (w.chan.send x).1.values x
      taken := w.taken
      panicked := w.panicked || (w.chan.send x).1 = .panicked
      fifo := by rw [Chan.buf_send, ← List.append_assoc, ← w.fifo] })

/-- `close(ch)`. -/
def close : Wire T cap :=
  { w with chan := w.chan.close, panicked := w.panicked || w.chan.closed, fifo := w.fifo }

/-- A receiver starts to wait. -/
def await : Wire T cap := { w with chan := w.chan.await, fifo := w.fifo }

/-- `<-ch`, for a receiver that waits. -/
def recv : RecvResult T × Wire T cap :=
  (w.chan.recv.1,
    { w with
      chan := w.chan.recv.2
      taken := w.taken ++ w.chan.recv.1.values
      fifo := by rw [List.append_assoc, ← Chan.buf_recv, w.fifo] })

/-- The channel is closed and empty. -/
def Drained : Prop := w.chan.closed = true ∧ w.chan.buf = []

variable {w}

theorem Drained.sent_eq (h : w.Drained) : w.sent = w.taken := by
  rw [w.fifo, h.2, List.append_nil]

/-- What the receivers of a channel leave as it is. -/
structure Reads (w w' : Wire T cap) : Prop where
  sent : w'.sent = w.sent
  closed : w'.chan.closed = w.chan.closed
  panicked : w'.panicked = w.panicked

/-- What the senders of a channel leave as it is. -/
structure Writes (w w' : Wire T cap) : Prop where
  taken : w'.taken = w.taken
  waiting : w'.chan.waiting = w.chan.waiting
  closed : w.chan.closed = true → w' = w

/-- If the channel is closed, it remains so, and nothing is sent to it. -/
def StaysClosed (w w' : Wire T cap) : Prop :=
  w.chan.closed = true → w'.chan.closed = true ∧ w'.sent = w.sent

theorem StaysClosed.trans {w' w'' : Wire T cap} (h : w.StaysClosed w') (h' : w'.StaysClosed w'') :
    w.StaysClosed w'' := by
  intro hclosed
  obtain ⟨hclosed', hsent⟩ := h hclosed
  obtain ⟨hclosed'', hsent'⟩ := h' hclosed'
  exact ⟨hclosed'', hsent'.trans hsent⟩

theorem Reads.staysClosed {w' : Wire T cap} (h : Reads w w') : w.StaysClosed w' :=
  fun hclosed => ⟨h.closed.trans hclosed, h.sent⟩

theorem Writes.staysClosed {w' : Wire T cap} (h : Writes w w') : w.StaysClosed w' := by
  intro hclosed
  rw [h.closed hclosed]
  exact ⟨hclosed, Eq.refl _⟩

theorem Reads.rfl : Reads w w := ⟨Eq.refl _, Eq.refl _, Eq.refl _⟩

theorem Writes.rfl : Writes w w := ⟨Eq.refl _, Eq.refl _, fun _ => Eq.refl _⟩

theorem reads_await : Reads w w.await := ⟨Eq.refl _, Eq.refl _, Eq.refl _⟩

theorem reads_recv : Reads w w.recv.2 := ⟨Eq.refl _, w.chan.closed_recv, Eq.refl _⟩

theorem send_cases (hopen : w.chan.closed = false) (x : T) :
    (w.chan.hasRoom = true ∧ (w.send x).1 = .sent ∧ (w.send x).2.sent = w.sent ++ [x] ∧
      (w.send x).2.chan = { w.chan with buf := w.chan.buf ++ [x] } ∧
      (w.send x).2.panicked = w.panicked) ∨
    (w.chan.hasRoom = false ∧ w.send x = (.blocked, w)) := by
  rcases w.chan.send_cases x with ⟨hclosed, -⟩ | ⟨-, hroom, heq⟩ | ⟨-, hroom, heq⟩
  · simp [hopen] at hclosed
  · refine Or.inl ⟨hroom, ?_⟩
    simp [send, heq, SendResult.values]
  · refine Or.inr ⟨hroom, ?_⟩
    cases w
    simp_all [send, SendResult.values]

theorem recv_cases (w : Wire T cap) :
    (∃ x rest, w.chan.buf = x :: rest ∧ w.recv.1 = .received x ∧
      w.recv.2.taken = w.taken ++ [x] ∧
      w.recv.2.chan = { w.chan with buf := rest, waiting := w.chan.waiting - 1 }) ∨
    (w.Drained ∧ w.recv.1 = .closed ∧ w.recv.2.taken = w.taken ∧ w.recv.2.chan = w.chan.leave) ∨
    (w.chan.buf = [] ∧ w.chan.closed = false ∧ w.recv = (.blocked, w)) := by
  rcases w.chan.recv_cases with ⟨x, rest, hbuf, heq⟩ | ⟨hbuf, hclosed, heq⟩ | ⟨hbuf, hclosed, heq⟩
  · exact Or.inl ⟨x, rest, hbuf, by simp [recv, heq, RecvResult.values]⟩
  · exact Or.inr (Or.inl ⟨⟨hclosed, hbuf⟩, by simp [recv, heq, RecvResult.values]⟩)
  · refine Or.inr (Or.inr ⟨hbuf, hclosed, ?_⟩)
    cases w
    simp_all [recv, RecvResult.values]

theorem writes_send (hopen : w.chan.closed = false) (x : T) : Writes w (w.send x).2 where
  taken := Eq.refl _
  waiting := by
    rcases send_cases hopen x with ⟨-, -, -, hchan, -⟩ | ⟨-, heq⟩
    · rw [hchan]
    · rw [heq]
  closed := fun hclosed => by simp [hopen] at hclosed

theorem writes_close (hopen : w.chan.closed = false) : Writes w w.close :=
  ⟨Eq.refl _, Eq.refl _, fun hclosed => by simp [hopen] at hclosed⟩

theorem panicked_close (hopen : w.chan.closed = false) : w.close.panicked = w.panicked := by
  simp [close, hopen]

theorem Drained.mono {w' : Wire T cap} (h : w.Drained) (hclosed : w'.chan.closed = w.chan.closed)
    (hbuf : w.chan.buf = [] → w'.chan.buf = []) : w'.Drained :=
  ⟨hclosed.trans h.1, hbuf h.2⟩

theorem Writes.drained {w' : Wire T cap} (hw : Writes w w') (h : w.Drained) : w'.Drained := by
  rw [hw.closed h.1]
  exact h

end Wire

end Go
