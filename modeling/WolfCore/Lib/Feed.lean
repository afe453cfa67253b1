import WolfCore.Lib.Wire

/-!
# Channels with the goroutines behind them

What a function that returns a receive-only channel returns: the channel, and the goroutines that
send to it.

* `Feed`: a machine that sends on a wire, for someone else to read from;
* `Law`: what the reader of a feed may rely on, as long as the context is not cancelled;
* `source`: a goroutine that sends a list of values and closes the channel (`Law.source`);
* `Reading`: a feed and a consumer that reads until the channel is closed.

`Law.conserves` says what the law of a feed means for the consumer, in every run.
-/

namespace Go

/-! ### Feeds -/

/-- A channel of capacity `cap`, and what sends to it.  `step` is the next step of one of the
goroutines behind the channel, given whether the context is cancelled. -/
structure Feed (T : Type) where
  cap : ℕ
  State : Type
  Move : Type
  init : State
  wire : State → Wire T cap
  setWire : Wire T cap → State → State
  step : Bool → Move → State → State

namespace Feed

variable {T : Type}

/-- What the reader of a feed may rely on, as long as the context is not cancelled. -/
structure Law (F : Feed T) where
  Inv : F.State → Prop
  /-- what holds when the channel is closed -/
  Complete : F.State → Prop
  /-- how much there is to do, if every value to be sent counts `k` -/
  rank : ℕ → F.State → ℕ
  wire_setWire : ∀ w s, F.wire (F.setWire w s) = w
  wire_init : F.wire F.init = .make
  init : Inv F.init
  step : ∀ {s} m, Inv s → Inv (F.step false m s)
  writes : ∀ {s} m, Inv s → (F.wire s).Writes (F.wire (F.step false m s))
  reads : ∀ {s w}, Inv s → (F.wire s).Reads w → Inv (F.setWire w s)
  quiet : ∀ {s}, Inv s → (F.wire s).panicked = false
  complete : ∀ {s}, Inv s → (F.wire s).chan.closed = true → Complete s
  rank_setWire : ∀ k w s, rank k (F.setWire w s) = rank k s
  /-- if somebody waits for a value, then a goroutine can go on -/
  progress : ∀ k {s}, Inv s → (F.wire s).chan.closed = false → (F.wire s).chan.buf = [] →
    0 < (F.wire s).chan.waiting →
    ∃ m, rank k (F.step false m s) + k * (F.wire (F.step false m s)).chan.buf.length < rank k s

/-! ### Sources -/

/-- The goroutine of a source: the values it has still to send, and whether it has closed the
channel. -/
structure SourceState (T : Type) (cap : ℕ) where
  rest : List T
  wire : Wire T cap
  gone : Bool

/-- Sends the next value, or closes the channel. -/
def SourceState.step {cap : ℕ} (s : SourceState T cap) : SourceState T cap :=
  match s.rest with
  | x :: rest =>
      match (s.wire.send x).1 with
      | .sent => { s with rest := rest, wire := (s.wire.send x).2 }
      | _ => { s with wire := (s.wire.send x).2 }
  | [] => if s.gone then s else { s with wire := s.wire.close, gone := true }

/-- A goroutine that sends the values `xs` to a channel of capacity `cap` and closes it. -/
def source (xs : List T) (cap : ℕ) : Feed T where
  cap := cap
  State := SourceState T cap
  Move := Unit
  init := ⟨xs, .make, false⟩
  wire := SourceState.wire
  setWire w s := { s with wire := w }
  step _ _ s := s.step

namespace SourceState

variable {cap : ℕ} {s : SourceState T cap}

/-- The values sent and those to be sent are `xs`; the goroutine closes the channel as the last
thing it does. -/
structure Inv (xs : List T) (s : SourceState T cap) : Prop where
  values : s.wire.sent ++ s.rest = xs
  closed : s.wire.chan.closed = s.gone
  rest : s.gone = true → s.rest = []
  quiet : s.wire.panicked = false

variable {xs : List T}

theorem Inv.step_cases (h : s.Inv xs) :
    (∃ x rest, s.rest = x :: rest ∧ s.wire.chan.closed = false ∧
      (s.wire.send x).2.sent = s.wire.sent ++ [x] ∧
      (s.wire.send x).2.chan = { s.wire.chan with buf := s.wire.chan.buf ++ [x] } ∧
      (s.wire.send x).2.panicked = s.wire.panicked ∧
      s.step = { s with rest := rest, wire := (s.wire.send x).2 }) ∨
    (s.rest = [] ∧ s.wire.chan.closed = false ∧
      s.step = { s with wire := s.wire.close, gone := true }) ∨
    ((s.wire.chan.closed = true ∨ s.wire.chan.hasRoom = false) ∧ s.step = s) := by
  unfold step
  cases hrest : s.rest with
  | nil =>
    cases hgone : s.gone
    · exact Or.inr (Or.inl ⟨rfl, h.closed.trans hgone, rfl⟩)
    · exact Or.inr (Or.inr ⟨Or.inl (h.closed.trans hgone), rfl⟩)
  | cons x rest =>
    have hopen : s.wire.chan.closed = false := by
      by_contra hclosed
      simp [h.rest (h.closed ▸ Bool.eq_true_of_not_eq_false hclosed)] at hrest
    rcases Wire.send_cases hopen x with ⟨-, hfst, hsent, hchan, hquiet⟩ | ⟨hroom, heq⟩
    · refine Or.inl ⟨x, rest, rfl, hopen, hsent, hchan, hquiet, ?_⟩
      simp only [hfst]
    · refine Or.inr (Or.inr ⟨Or.inr hroom, ?_⟩)
      cases s
      simp_all

theorem Inv.step (h : s.Inv xs) : s.step.Inv xs := by
  rcases h.step_cases with ⟨x, rest, hrest, hopen, hsent, hchan, hquiet, heq⟩ |
    ⟨hrest, hopen, heq⟩ | ⟨-, heq⟩
  · rw [heq]
    refine ⟨?_, ?_, fun hgone => ?_, hquiet.trans h.quiet⟩
    · rw [← h.values, hrest, hsent, List.append_assoc]
      rfl
    · rw [hchan]
      exact h.closed
    · simp [h.rest hgone] at hrest
  · rw [heq]
    exact ⟨h.values, rfl, fun _ => hrest, (Wire.panicked_close hopen).trans h.quiet⟩
  · rw [heq]
    exact h

theorem Inv.writes (h : s.Inv xs) : s.wire.Writes s.step.wire := by
  rcases h.step_cases with ⟨x, rest, -, hopen, -, -, -, heq⟩ | ⟨-, hopen, heq⟩ | ⟨-, heq⟩
  · rw [heq]
    exact Wire.writes_send hopen x
  · rw [heq]
    exact Wire.writes_close hopen
  · rw [heq]
    exact .rfl

/-- Every value counts `k + 1`, and the close counts one. -/
def rank (k : ℕ) (s : SourceState T cap) : ℕ :=
  (k + 1) * s.rest.length + if s.gone then 0 else 1

theorem Inv.progress (h : s.Inv xs) (k : ℕ) (hopen : s.wire.chan.closed = false)
    (hbuf : s.wire.chan.buf = []) (hwaiting : 0 < s.wire.chan.waiting) :
    s.step.rank k + k * s.step.wire.chan.buf.length < s.rank k := by
  have hgone : s.gone = false := h.closed.symm.trans hopen
  rcases h.step_cases with ⟨x, rest, hrest, -, -, hchan, -, heq⟩ | ⟨hrest, -, heq⟩ |
    ⟨hclosed | hroom, -⟩
  · simp only [heq, hchan, rank, hbuf, hrest, List.nil_append, List.length_cons, List.length_nil,
      Nat.mul_add]
    omega
  · simp [heq, rank, Wire.close, Chan.close, hbuf, hgone, hrest]
  · simp [hopen] at hclosed
  · simp [Chan.hasRoom, hbuf] at hroom
    omega

end SourceState

/-- A source sends its values, and then closes the channel. -/
def Law.source (xs : List T) (cap : ℕ) : Law (source xs cap) where
  Inv := SourceState.Inv xs
  Complete s := s.wire.sent = xs
  rank := SourceState.rank
  wire_setWire _ _ := rfl
  wire_init := rfl
  init := ⟨rfl, rfl, fun hgone => (Bool.false_ne_true hgone).elim, rfl⟩
  step _ h := h.step
  writes _ h := h.writes
  reads h hw := ⟨hw.sent ▸ h.values, hw.closed.trans h.closed, h.rest, hw.panicked.trans h.quiet⟩
  quiet h := h.quiet
  complete {s} h hclosed := by
    have hrest : s.rest = [] := h.rest (h.closed.symm.trans hclosed)
    rw [← h.values, hrest, List.append_nil]
  rank_setWire _ _ _ := rfl
  progress k _ h hopen hbuf hwaiting := ⟨(), h.progress k hopen hbuf hwaiting⟩

theorem Law.sent_of_source {xs : List T} {cap : ℕ} {s : (Feed.source xs cap).State}
    (h : (Law.source xs cap).Complete s) : ((Feed.source xs cap).wire s).sent = xs :=
  h

/-! ### A consumer -/

/-- A consumer that runs `for x := range ch` and does nothing else. -/
inductive Consumer
  | idle
  | waiting
  | ended
  deriving DecidableEq

structure Reading (F : Feed T) where
  feed : F.State
  consumer : Consumer
  cancelled : Bool

/-- A step of a goroutine behind the channel or of the consumer, or the cancellation of the
context. -/
inductive Reading.Move (F : Feed T)
  | inner (m : F.Move)
  | consumer
  | cancel

namespace Reading

variable {F : Feed T}

def init (F : Feed T) : Reading F := ⟨F.init, .idle, false⟩

def wire (s : Reading F) : Wire T F.cap := F.wire s.feed

/-- The next step of the consumer. -/
def consume (s : Reading F) : Reading F :=
  match s.consumer with
  | .idle => { s with feed := F.setWire s.wire.await s.feed, consumer := .waiting }
  | .waiting =>
      match s.wire.recv.1 with
      | .received _ => { s with feed := F.setWire s.wire.recv.2 s.feed, consumer := .idle }
      | .closed => { s with feed := F.setWire s.wire.recv.2 s.feed, consumer := .ended }
      | .blocked => s
  | .ended => s

def advance (s : Reading F) : Move F → Reading F
  | .inner m => { s with feed := F.step s.cancelled m s.feed }
  | .consumer => s.consume
  | .cancel => { s with cancelled := true }

def run (s : Reading F) (ms : List (Move F)) : Reading F := ms.foldl advance s

def delivered (s : Reading F) : List T := s.wire.taken

/-- The consumer has ended when the channel was closed and empty. -/
structure Inv (L : Law F) (s : Reading F) : Prop where
  feed : L.Inv s.feed
  waits : s.wire.chan.waiting = if s.consumer = .waiting then 1 else 0
  ended : s.consumer = .ended → s.wire.Drained
  cancelled : s.cancelled = false

variable {L : Law F} {s : Reading F}

theorem consume_cases (s : Reading F) :
    (s.consumer = .idle ∧
      s.consume = { s with feed := F.setWire s.wire.await s.feed, consumer := .waiting }) ∨
    (∃ x rest, s.consumer = .waiting ∧ s.wire.chan.buf = x :: rest ∧
      s.wire.recv.2.chan = { s.wire.chan with buf := rest, waiting := s.wire.chan.waiting - 1 } ∧
      s.consume = { s with feed := F.setWire s.wire.recv.2 s.feed, consumer := .idle }) ∨
    (s.consumer = .waiting ∧ s.wire.Drained ∧ s.wire.recv.2.chan = s.wire.chan.leave ∧
      s.consume = { s with feed := F.setWire s.wire.recv.2 s.feed, consumer := .ended }) ∨
    (s.consumer = .waiting ∧ s.wire.chan.buf = [] ∧ s.wire.chan.closed = false ∧ s.consume = s) ∨
    (s.consumer = .ended ∧ s.consume = s) := by
  unfold consume
  cases hc : s.consumer with
  | idle => exact Or.inl ⟨rfl, rfl⟩
  | waiting =>
    rcases s.wire.recv_cases with ⟨x, rest, hbuf, hfst, -, hchan⟩ | ⟨hd, hfst, -, hchan⟩ |
      ⟨hbuf, hclosed, heq⟩
    · exact Or.inr (Or.inl ⟨x, rest, rfl, hbuf, hchan, by simp only [hfst]⟩)
    · exact Or.inr (Or.inr (Or.inl ⟨rfl, hd, hchan, by simp only [hfst]⟩))
    · exact Or.inr (Or.inr (Or.inr (Or.inl ⟨rfl, hbuf, hclosed, by simp only [heq]⟩)))
  | ended => exact Or.inr (Or.inr (Or.inr (Or.inr ⟨rfl, rfl⟩)))

theorem Inv.init (L : Law F) : (init F).Inv L where
  feed := L.init
  waits := by
    show (F.wire F.init).chan.waiting = _
    rw [L.wire_init]
    rfl
  ended hc := by cases hc
  cancelled := rfl

theorem Inv.consume (h : s.Inv L) : s.consume.Inv L := by
  have hwire : ∀ {w c b}, (⟨F.setWire w s.feed, c, b⟩ : Reading F).wire = w := L.wire_setWire _ _
  have hwaits := h.waits
  rcases s.consume_cases with ⟨hc, heq⟩ | ⟨x, rest, hc, -, hchan, heq⟩ | ⟨hc, hd, hchan, heq⟩ |
    ⟨-, -, -, heq⟩ | ⟨-, heq⟩
  · rw [heq]
    refine ⟨L.reads h.feed Wire.reads_await, ?_, (fun hended => by cases hended), h.cancelled⟩
    rw [hwire]
    simp [hc, Wire.await, Chan.await, hwaits]
  · rw [heq]
    refine ⟨L.reads h.feed Wire.reads_recv, ?_, (fun hended => by cases hended), h.cancelled⟩
    rw [hwire]
    simp [hc, hchan, hwaits]
  · rw [heq]
    refine ⟨L.reads h.feed Wire.reads_recv, ?_, fun _ => ?_, h.cancelled⟩
    · rw [hwire]
      simp [hc, hchan, Chan.leave, hwaits]
    · rw [hwire]
      exact hd.mono Wire.reads_recv.closed fun hnil => by rw [hchan]; exact hnil
  · rw [heq]
    exact h
  · rw [heq]
    exact h

theorem Inv.inner (h : s.Inv L) (m : F.Move) : (s.advance (.inner m)).Inv L := by
  have hw : s.wire.Writes (s.advance (.inner m)).wire := by
    show (F.wire s.feed).Writes (F.wire (F.step s.cancelled m s.feed))
    rw [h.cancelled]
    exact L.writes m h.feed
  refine ⟨?_, hw.waiting.trans h.waits, fun hended => hw.drained (h.ended hended), h.cancelled⟩
  show L.Inv (F.step s.cancelled m s.feed)
  rw [h.cancelled]
  exact L.step m h.feed

theorem Inv.advance (h : s.Inv L) {m : Move F} (hm : m ≠ .cancel) : (s.advance m).Inv L := by
  cases m with
  | inner m => exact h.inner m
  | consumer => exact h.consume
  | cancel => exact absurd rfl hm

theorem Inv.run (h : s.Inv L) {ms : List (Move F)} (hms : .cancel ∉ ms) : (s.run ms).Inv L := by
  induction ms generalizing s with
  | nil => exact h
  | cons m ms ih =>
    rw [List.mem_cons, not_or] at hms
    exact ih (h.advance (Ne.symm hms.1)) hms.2

/-! What follows for the consumer. -/

theorem Inv.delivered_eq (h : s.Inv L) (hended : s.consumer = .ended) : s.delivered = s.wire.sent :=
  (h.ended hended).sent_eq.symm

/-- The consumer leaves the feed as it is, up to what it receives. -/
theorem feed_consume (s : Reading F) :
    s.consume.feed = s.feed ∨ ∃ w, s.wire.Reads w ∧ s.consume.feed = F.setWire w s.feed := by
  rcases s.consume_cases with ⟨-, heq⟩ | ⟨x, rest, -, -, -, heq⟩ | ⟨-, -, -, heq⟩ |
    ⟨-, -, -, heq⟩ | ⟨-, heq⟩
  · exact Or.inr ⟨_, Wire.reads_await, by rw [heq]⟩
  · exact Or.inr ⟨_, Wire.reads_recv, by rw [heq]⟩
  · exact Or.inr ⟨_, Wire.reads_recv, by rw [heq]⟩
  · exact Or.inl (by rw [heq])
  · exact Or.inl (by rw [heq])

theorem Inv.staysClosed (h : s.Inv L) {m : Move F} (hm : m ≠ .cancel) :
    s.wire.StaysClosed (s.advance m).wire := by
  cases m with
  | inner m =>
    show (F.wire s.feed).StaysClosed (F.wire (F.step s.cancelled m s.feed))
    rw [h.cancelled]
    exact (L.writes m h.feed).staysClosed
  | consumer =>
    show s.wire.StaysClosed (F.wire s.consume.feed)
    rcases s.feed_consume with heq | ⟨w, hw, heq⟩
    · rw [heq]
      exact Wire.Reads.rfl.staysClosed
    · rw [heq, L.wire_setWire]
      exact hw.staysClosed
  | cancel => exact absurd rfl hm

/-- How much there is to do. -/
def rank (L : Law F) (s : Reading F) : ℕ :=
  L.rank 2 s.feed + 2 * s.wire.chan.buf.length +
    match s.consumer with
    | .ended => 0
    | .waiting => 1
    | .idle => 2

theorem Inv.progress (h : s.Inv L) (hne : s.consumer ≠ .ended) :
    ∃ m, m ≠ .cancel ∧ (s.advance m).rank L < s.rank L := by
  have hwire : ∀ {w c b}, (⟨F.setWire w s.feed, c, b⟩ : Reading F).wire = w := L.wire_setWire _ _
  rcases s.consume_cases with ⟨hc, heq⟩ | ⟨x, rest, hc, hbuf, hchan, heq⟩ | ⟨hc, hd, hchan, heq⟩ |
    ⟨hc, hbuf, hopen, -⟩ | ⟨hc, -⟩
  · refine ⟨.consumer, by simp, ?_⟩
    show s.consume.rank L < s.rank L
    simp only [heq, rank, hwire, L.rank_setWire, Wire.await, Chan.await, hc]
    omega
  · refine ⟨.consumer, by simp, ?_⟩
    show s.consume.rank L < s.rank L
    simp only [heq, rank, hwire, L.rank_setWire, hchan, hbuf, List.length_cons, hc]
    omega
  · refine ⟨.consumer, by simp, ?_⟩
    show s.consume.rank L < s.rank L
    simp only [heq, rank, hwire, L.rank_setWire, hchan, Chan.leave, hc]
    omega
  · -- the consumer waits for the feed, which can go on
    have hwaiting : 0 < s.wire.chan.waiting := by
      rw [h.waits, if_pos hc]
      exact Nat.one_pos
    obtain ⟨m, hm⟩ := L.progress 2 h.feed hopen hbuf hwaiting
    have heq : s.advance (.inner m) = { s with feed := F.step false m s.feed } := by
      rw [← h.cancelled]
      rfl
    refine ⟨.inner m, by simp, ?_⟩
    simp only [heq, rank, wire, hc]
    omega
  · exact absurd hc hne

theorem Inv.exists_ended (h : s.Inv L) : ∃ ms, .cancel ∉ ms ∧ (s.run ms).consumer = .ended := by
  induction hn : s.rank L using Nat.strong_induction_on generalizing s with
  | _ n ih =>
    by_cases hc : s.consumer = .ended
    · exact ⟨[], by simp, hc⟩
    · obtain ⟨m, hm, hlt⟩ := h.progress hc
      obtain ⟨ms, hms, hended⟩ := ih _ (hn ▸ hlt) (h.advance hm) rfl
      refine ⟨m :: ms, ?_, hended⟩
      rw [List.mem_cons, not_or]
      exact ⟨Ne.symm hm, hms⟩

end Reading

/-- No goroutine panics on the channel `w`, and once it is closed nothing more is sent to it,
whatever happens as long as the context is not cancelled. -/
def Sealed (F : Feed T) {U : Type} {n : ℕ} (w : Reading F → Wire U n) : Prop :=
  ∀ ms, .cancel ∉ ms →
    (w ((Reading.init F).run ms)).panicked = false ∧
    ((w ((Reading.init F).run ms)).chan.closed = true → ∀ ms', .cancel ∉ ms' →
      (w ((Reading.init F).run (ms ++ ms'))).sent = (w ((Reading.init F).run ms)).sent)

/-- In every run in which the context is not cancelled, the channel is sealed when it is closed, and
`P` holds when the consumer has ended, of the state of the feed and the values delivered; and every
such run can go on until the consumer has ended. -/
structure Conserves (F : Feed T) (P : F.State → List T → Prop) : Prop where
  isSealed : Sealed F Reading.wire
  delivered : ∀ ms, .cancel ∉ ms → ((Reading.init F).run ms).consumer = .ended →
    P ((Reading.init F).run ms).feed ((Reading.init F).run ms).delivered
  ends : ∀ ms, .cancel ∉ ms →
    ∃ ms', .cancel ∉ ms' ∧ ((Reading.init F).run (ms ++ ms')).consumer = .ended

theorem Conserves.mono {F : Feed T} {P Q : F.State → List T → Prop} (h : Conserves F P)
    (hPQ : ∀ {s delivered}, P s delivered → Q s delivered) : Conserves F Q :=
  { h with delivered := fun ms hms hended => hPQ (h.delivered ms hms hended) }

namespace Law

variable {F : Feed T} (L : Law F)

theorem inv_run {ms : List (Reading.Move F)} (hms : .cancel ∉ ms) :
    ((Reading.init F).run ms).Inv L :=
  (Reading.Inv.init L).run hms

section

variable {U : Type} {n : ℕ} {w : Reading F → Wire U n}
  (hstep : ∀ {s : Reading F} {m}, s.Inv L → m ≠ .cancel → (w s).StaysClosed (w (s.advance m)))

include hstep

/-- What stays closed in every step stays closed in every run. -/
theorem staysClosed_run {s : Reading F} (hs : s.Inv L) {ms : List (Reading.Move F)}
    (hms : .cancel ∉ ms) : (w s).StaysClosed (w (s.run ms)) := by
  induction ms generalizing s with
  | nil => exact Wire.Reads.rfl.staysClosed
  | cons m ms ih =>
    rw [List.mem_cons, not_or] at hms
    have hm : m ≠ .cancel := Ne.symm hms.1
    exact (hstep hs hm).trans (ih (hs.advance hm) hms.2)

/-- A channel is sealed if it stays closed in every step. -/
theorem sealed_of_step (hquiet : ∀ {s : Reading F}, s.Inv L → (w s).panicked = false) :
    Sealed F w := by
  intro ms hms
  refine ⟨hquiet (L.inv_run hms), fun hclosed ms' hms' => ?_⟩
  rw [Reading.run, List.foldl_append]
  exact (L.staysClosed_run hstep (L.inv_run hms) hms' hclosed).2

end

theorem conserves {P : F.State → List T → Prop} (hP : ∀ {s}, L.Complete s → P s (F.wire s).sent) :
    Conserves F P where
  isSealed := L.sealed_of_step (fun h hm => h.staysClosed hm) fun h => L.quiet h.feed
  delivered ms hms hended := by
    have h := L.inv_run hms
    rw [h.delivered_eq hended]
    exact hP (L.complete h.feed (h.ended hended).1)
  ends ms hms := by
    obtain ⟨ms', hms', hended⟩ := (L.inv_run hms).exists_ended
    refine ⟨ms', hms', ?_⟩
    rw [Reading.run, List.foldl_append]
    exact hended

end Law

end Feed

end Go
