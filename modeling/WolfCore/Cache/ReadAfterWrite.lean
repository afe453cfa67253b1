import WolfCore.Cache.Singleflight

/-!
# Reads after writes

A `Get` that joins a flight returns what the leader of the flight was told by the inner client,
which may have been before a write that has returned since.  `read_after_write` says that, as long
as no `Get` joins such a flight, a `Get` that starts after a write has returned gets an answer that
the inner client gave after that write; `stale_read` is a `Get` that misses a `Set`.
-/

namespace WolfCore.Cache

open Go Interleave

/-! ### Events -/

def Request.writes : Request → List String
  | .get _ => []
  | .set key _ _ => [key]
  | .delete keys => keys

/-- The number of the inner operation, if the event is one. -/
def serialOf : Logged Reply → Option ℕ
  | ⟨_, .innerGet _ _, answer⟩ => some answer.2
  | ⟨_, .innerSet _ _ _, answer⟩ => some answer.2
  | ⟨_, .innerDelete _, answer⟩ => some answer.2
  | _ => none

/-- The inner client has executed the write, as operation `n`. -/
def WroteAt (h : History Reply) (err : Option Err) (n : ℕ) : Request → Prop
  | .get _ => False
  | .set key value ttl => ∃ j, ⟨j, .innerSet key value ttl, (err, n)⟩ ∈ h
  | .delete keys => ∃ j, ⟨j, .innerDelete keys, (err, n)⟩ ∈ h

/-- A write of the key, executed as operation `n`, has returned nil. -/
def WriteReturned (h : History Reply) (key : String) (n : ℕ) : Prop :=
  ∃ j request, key ∈ request.writes ∧ ⟨j, .respond request (.wrote none n), ()⟩ ∈ h

/-- The leader of the flight has been answered by the inner client, as operation `n`. -/
def Answered (h : History Reply) (flight n : ℕ) : Prop :=
  ∃ j key r, ⟨j, .innerGet flight key, (r, n)⟩ ∈ h

def Flown (h : History Reply) (flight : ℕ) (key : String) : Prop :=
  ∃ j, ⟨j, .doStart key, .leads flight⟩ ∈ h

/-- Every write of the key that had returned when the call of thread `i` started is older than
operation `n`. -/
def NewerThanWrites (i : ℕ) (h : History Reply) (key : String) (n : ℕ) : Prop :=
  ∀ m, WriteReturned (before Cmd.isAccept i h) key m → m < n

/-- When a `Get` joins a flight, the leader has not been answered yet, or was answered after every
write of the key that had returned when the `Get` started. -/
def Undisturbed (i : ℕ) (e : Cmd) (_ : Choice) (w : World) (h : History Reply) : Prop :=
  ∀ key flight n, e = .doStart key → w.running key = some flight → Answered h flight n →
    NewerThanWrites i h key n

/-- The answer of a `Get` of thread `i` is one the inner client has given, at a moment by which it
had executed every write of the key that returned before the `Get` started. -/
def SeesWrites (i : ℕ) (h : History Reply) (key : String) (answer : Found × ℕ) : Prop :=
  ∃ j flight h', ⟨j, .innerGet flight key, answer⟩ :: h' <:+ h ∧
    ∀ k request n, key ∈ request.writes →
      ⟨k, .respond request (.wrote none n), ()⟩ ∈ before Cmd.isAccept i h →
        WroteAt h' none n request

theorem WroteAt.mono {h h' : History Reply} (hs : h ⊆ h') {err : Option Err} {n : ℕ}
    {request : Request} (hw : WroteAt h err n request) : WroteAt h' err n request := by
  cases request with
  | get key => exact hw
  | set key value ttl => exact hw.imp fun _ hmem => hs hmem
  | delete keys => exact hw.imp fun _ hmem => hs hmem

theorem WriteReturned.mono {h h' : History Reply} (hs : h ⊆ h') {key : String} {n : ℕ}
    (hw : WriteReturned h key n) : WriteReturned h' key n := by
  obtain ⟨j, request, hkey, hmem⟩ := hw
  exact ⟨j, request, hkey, hs hmem⟩

theorem Flown.mono {h h' : History Reply} (hs : h ⊆ h') {flight : ℕ} {key : String}
    (hf : Flown h flight key) : Flown h' flight key := hf.imp fun _ hmem => hs hmem

/-! ### The order of inner operations -/

/-- An inner operation has a greater number than those before it. -/
def Rising (ev : Logged Reply) (h : History Reply) : Prop :=
  ∀ n, serialOf ev = some n → ∀ ev' ∈ h, ∀ n', serialOf ev' = some n' → n' < n

/-- Inner operations are numbered in the order they are executed. -/
structure Serials (w : World) (h : History Reply) : Prop where
  lt : ∀ ev ∈ h, ∀ n, serialOf ev = some n → n < w.serial
  rising : Throughout Rising h

theorem serialOf_exec (i : ℕ) (e : Cmd) (o : Choice) (w : World) :
    (serialOf ⟨i, e, (exec e o w).1⟩ = some w.serial ∧ (exec e o w).2.serial = w.serial + 1) ∨
      (serialOf ⟨i, e, (exec e o w).1⟩ = none ∧ (exec e o w).2.serial = w.serial) := by
  cases e with
  | innerGet flight key => exact Or.inl ⟨rfl, rfl⟩
  | innerSet key value ttl => exact Or.inl ⟨rfl, rfl⟩
  | innerDelete keys => exact Or.inl ⟨rfl, rfl⟩
  | doStart key =>
    refine Or.inr ⟨rfl, ?_⟩
    simp only [exec]
    cases w.running key <;> rfl
  | _ => exact Or.inr ⟨rfl, rfl⟩

theorem Serials.exec {w : World} {h : History Reply} (hs : Serials w h) (i : ℕ) (e : Cmd)
    (o : Choice) :
    Serials (exec e o w).2 (⟨i, e, (Cache.exec e o w).1⟩ :: h) := by
  rcases serialOf_exec i e o w with ⟨hserial, hnext⟩ | ⟨hserial, hnext⟩
  · refine ⟨fun ev hev n hn => ?_, ⟨fun n hn ev' hev' n' hn' => ?_, hs.rising⟩⟩
    · rw [hnext]
      rcases List.mem_cons.1 hev with rfl | hev
      · rw [hserial] at hn
        cases hn
        omega
      · have hlt := hs.lt ev hev n hn
        omega
    · rw [hserial] at hn
      cases hn
      exact hs.lt ev' hev' n' hn'
  · refine ⟨fun ev hev n hn => ?_, ⟨fun n hn => ?_, hs.rising⟩⟩
    · rw [hnext]
      rcases List.mem_cons.1 hev with rfl | hev
      · rw [hserial] at hn
        cases hn
      · exact hs.lt ev hev n hn
    · rw [hserial] at hn
      cases hn

/-- An inner operation with a smaller number was executed earlier. -/
theorem mem_of_serial_lt {a b : History Reply} {ev ev' : Logged Reply}
    (hrising : Throughout Rising (a ++ ev :: b)) (hev' : ev' ∈ a ++ ev :: b) {n n' : ℕ}
    (hn : serialOf ev = some n) (hn' : serialOf ev' = some n') (hlt : n' < n) : ev' ∈ b := by
  rcases List.mem_append.1 hev' with hmem | hmem
  · obtain ⟨a₁, a₂, rfl⟩ := List.append_of_mem hmem
    rw [List.append_assoc, List.cons_append] at hrising
    have hgt := hrising.split n' hn' ev (List.mem_append_right _ List.mem_cons_self) n hn
    omega
  · rcases List.mem_cons.1 hmem with rfl | hmem
    · rw [hn] at hn'
      cases hn'
      exact absurd hlt (lt_irrefl _)
    · exact hmem

/-- A write with a smaller number than an inner operation was executed before it. -/
theorem WroteAt.older {a b : History Reply} {ev : Logged Reply} {n m : ℕ} {err : Option Err}
    {request : Request} (hw : WroteAt (a ++ ev :: b) err m request)
    (hrising : Throughout Rising (a ++ ev :: b)) (hn : serialOf ev = some n) (hlt : m < n) :
    WroteAt b err m request := by
  cases request with
  | get key => exact hw.elim
  | set key value ttl => exact hw.imp fun _ hmem => mem_of_serial_lt hrising hmem hn rfl hlt
  | delete keys => exact hw.imp fun _ hmem => mem_of_serial_lt hrising hmem hn rfl hlt

/-! ### Flights -/

/-- Flights are numbered in the order they start, each is for one key, and its result is the answer
its leader was given. -/
structure Flights (w : World) (h : History Reply) : Prop where
  lt : ∀ {flight key}, Flown h flight key → flight < w.nextFlight
  inj : ∀ {flight key key'}, Flown h flight key → Flown h flight key' → key = key'
  running : ∀ {key flight}, w.running key = some flight → Flown h flight key
  asked : ∀ {j flight key answer}, ⟨j, .innerGet flight key, answer⟩ ∈ h → Flown h flight key
  result : ∀ {flight answer}, w.result flight = some answer →
    ∃ j key, ⟨j, .innerGet flight key, answer⟩ ∈ h

section

variable {w w' : World} {h : History Reply} {i : ℕ}

theorem flown_cons {ev : Logged Reply} {flight : ℕ} {key : String} :
    Flown (ev :: h) flight key ↔ (∃ j, ev = ⟨j, .doStart key, .leads flight⟩) ∨
      Flown h flight key := by
  simp only [Flown, List.mem_cons, exists_or, eq_comm]

/-- A step that starts no flight and leaves the group alone; it may ask the inner client for a
flight. -/
theorem Flights.keep (hf : Flights w h) {ev : Logged Reply}
    (hstart : ∀ j key flight, ev ≠ ⟨j, .doStart key, .leads flight⟩)
    (hasked : ∀ j flight key answer, ev = ⟨j, .innerGet flight key, answer⟩ → Flown h flight key)
    (hnext : w'.nextFlight = w.nextFlight) (hrunning : w'.running = w.running)
    (hresult : w'.result = w.result) : Flights w' (ev :: h) := by
  have hflown : ∀ {flight key}, Flown (ev :: h) flight key ↔ Flown h flight key := by
    intro flight key
    rw [flown_cons]
    exact or_iff_right fun ⟨j, heq⟩ => hstart j key flight heq
  constructor
  · intro flight key hfl
    rw [hnext]
    exact hf.lt (hflown.1 hfl)
  · exact fun hfl hfl' => hf.inj (hflown.1 hfl) (hflown.1 hfl')
  · intro key flight hr
    rw [hrunning] at hr
    exact hflown.2 (hf.running hr)
  · intro j flight key answer hmem
    rcases List.mem_cons.1 hmem with heq | hmem
    · exact hflown.2 (hasked j flight key answer heq.symm)
    · exact hflown.2 (hf.asked hmem)
  · intro flight answer hr
    rw [hresult] at hr
    obtain ⟨j, key, hmem⟩ := hf.result hr
    exact ⟨j, key, List.mem_cons_of_mem _ hmem⟩

theorem Flights.start (hf : Flights w h) (key : String) :
    Flights { w with
        running := Function.update w.running key (some w.nextFlight)
        nextFlight := w.nextFlight + 1 } (⟨i, .doStart key, .leads w.nextFlight⟩ :: h) := by
  have hold : ∀ {flight key'}, Flown (⟨i, .doStart key, .leads w.nextFlight⟩ :: h) flight key' →
      (flight = w.nextFlight ∧ key' = key) ∨ Flown h flight key' := by
    intro flight key' hfl
    rcases flown_cons.1 hfl with ⟨j, heq⟩ | hearlier
    · cases heq
      exact Or.inl ⟨rfl, rfl⟩
    · exact Or.inr hearlier
  constructor
  · intro flight key' hfl
    show flight < w.nextFlight + 1
    rcases hold hfl with ⟨rfl, -⟩ | hearlier
    · omega
    · have hlt := hf.lt hearlier
      omega
  · intro flight key' key'' hfl hfl'
    rcases hold hfl with ⟨hnum, hkey⟩ | hearlier <;> rcases hold hfl' with ⟨hnum', hkey'⟩ |
      hearlier'
    · rw [hkey, hkey']
    · exact absurd hnum (hf.lt hearlier').ne
    · exact absurd hnum' (hf.lt hearlier).ne
    · exact hf.inj hearlier hearlier'
  · intro key' flight hr
    change Function.update w.running key (some w.nextFlight) key' = some flight at hr
    by_cases hkey : key' = key
    · subst hkey
      rw [Function.update_self] at hr
      cases hr
      exact ⟨i, List.mem_cons_self⟩
    · rw [Function.update_of_ne hkey] at hr
      exact flown_cons.2 (Or.inr (hf.running hr))
  · intro j flight key' answer hmem
    rcases List.mem_cons.1 hmem with heq | hmem
    · cases heq
    · exact flown_cons.2 (Or.inr (hf.asked hmem))
  · intro flight answer hr
    obtain ⟨j, key', hmem⟩ := hf.result hr
    exact ⟨j, key', List.mem_cons_of_mem _ hmem⟩

theorem Flights.finish (hf : Flights w h) {flight : ℕ} {key : String} {answer : Found × ℕ}
    (hasked : ∃ j, ⟨j, .innerGet flight key, answer⟩ ∈ h) :
    Flights { w with
        running := if w.running key = some flight then Function.update w.running key none
          else w.running
        result := Function.update w.result flight (some answer) }
      (⟨i, .doFinish flight key answer, ()⟩ :: h) := by
  have hkeep : Flights w (⟨i, .doFinish flight key answer, ()⟩ :: h) :=
    hf.keep nofun nofun rfl rfl rfl
  refine ⟨hkeep.lt, hkeep.inj, fun {key' flight'} hr => hkeep.running ?_, hkeep.asked,
    fun {flight' answer'} hr => ?_⟩
  · dsimp only at hr
    split_ifs at hr
    · by_cases hkey : key' = key
      · subst hkey
        rw [Function.update_self] at hr
        cases hr
      · rwa [Function.update_of_ne hkey] at hr
    · exact hr
  · change Function.update w.result flight (some answer) flight' = some answer' at hr
    by_cases hfl : flight' = flight
    · subst hfl
      rw [Function.update_self] at hr
      cases hr
      exact hasked.imp fun j hmem => ⟨key, List.mem_cons_of_mem _ hmem⟩
    · rw [Function.update_of_ne hfl] at hr
      exact hkeep.result hr

end

/-! ### The protocol -/

/-- The preconditions of commands: a leader asks for its own flight and publishes the answer it was
given, a `Get` returns an answer newer than the writes it must see, and a write returns what the
inner client said. -/
def Pre (i : ℕ) (e : Cmd) (h : History Reply) : Prop :=
  match e with
  | .innerGet flight key => ⟨i, .doStart key, .leads flight⟩ ∈ h
  | .doFinish flight key answer => ∃ j, ⟨j, .innerGet flight key, answer⟩ ∈ h
  | .respond (.get key) (.got r n) =>
      (∃ j flight, ⟨j, .innerGet flight key, (r, n)⟩ ∈ h) ∧ NewerThanWrites i h key n
  | .respond request (.wrote err n) => WroteAt h err n request
  | _ => True

/-- A flight that a `Get` has joined is answered after the writes the `Get` must see. -/
def Joined (h : History Reply) : Prop :=
  ∀ i key flight, ⟨i, .doStart key, .joined flight⟩ ∈ since Cmd.isAccept i h →
    ∀ n, Answered h flight n → NewerThanWrites i h key n

structure Inv (w : World) (h : History Reply) : Prop where
  serials : Serials w h
  flights : Flights w h
  joined : Joined h

section

variable {w : World} {h : History Reply} {i : ℕ}

theorem Flights.exec (hf : Flights w h) {e : Cmd} (hpre : Pre i e h) (o : Choice) :
    Flights (exec e o w).2 (⟨i, e, (Cache.exec e o w).1⟩ :: h) := by
  cases e with
  | doStart key =>
    simp only [Cache.exec]
    cases w.running key with
    | some flight => exact hf.keep nofun nofun rfl rfl rfl
    | none => exact hf.start key
  | innerGet flight key =>
    refine hf.keep nofun (fun j flight' key' answer heq => ?_) rfl rfl rfl
    cases heq
    exact ⟨i, hpre⟩
  | doFinish flight key answer => exact hf.finish hpre
  | _ => exact hf.keep nofun nofun rfl rfl rfl

theorem pre_wrote {request : Request} {err : Option Err} {n : ℕ} :
    Pre i (.respond request (.wrote err n)) h ↔ WroteAt h err n request := by
  cases request <;> rfl

/-- A write that has returned was executed by the inner client. -/
theorem wroteAt_of_returned (hkept : Throughout (fun ev h => Pre ev.tid ev.cmd h) h) {j : ℕ}
    {request : Request} {err : Option Err} {n : ℕ}
    (hmem : ⟨j, .respond request (.wrote err n), ()⟩ ∈ h) : WroteAt h err n request := by
  obtain ⟨h', hsuffix, hpre⟩ := hkept.mem hmem
  exact (pre_wrote.1 hpre).mono hsuffix.subset

/-- A write that has returned is older than the next inner operation. -/
theorem writeReturned_lt (hs : Serials w h) (hkept : Throughout (fun ev h => Pre ev.tid ev.cmd h) h)
    {key : String} {n : ℕ} (hw : WriteReturned h key n) : n < w.serial := by
  obtain ⟨j, request, -, hmem⟩ := hw
  have hwrote := wroteAt_of_returned hkept hmem
  cases request with
  | get key' => exact hwrote.elim
  | set key' value ttl => exact hwrote.elim fun _ hwrote => hs.lt _ hwrote n rfl
  | delete keys => exact hwrote.elim fun _ hwrote => hs.lt _ hwrote n rfl

theorem answered_cons {ev : Logged Reply} {flight n : ℕ} (ha : Answered (ev :: h) flight n) :
    (∃ j key r, ev = ⟨j, .innerGet flight key, (r, n)⟩) ∨ Answered h flight n := by
  obtain ⟨j, key, r, hmem⟩ := ha
  rcases List.mem_cons.1 hmem with heq | hmem
  · exact Or.inl ⟨j, key, r, heq.symm⟩
  · exact Or.inr ⟨j, key, r, hmem⟩

/-- Every write that has returned is older than the next inner operation. -/
theorem newerThanWrites_serial (hs : Serials w h)
    (hkept : Throughout (fun ev h => Pre ev.tid ev.cmd h) h) (key : String) :
    NewerThanWrites i h key w.serial :=
  fun _ hw => writeReturned_lt hs hkept (hw.mono before_suffix.subset)

theorem Joined.exec (hj : Joined h) (hs : Serials w h)
    (hkept : Throughout (fun ev h => Pre ev.tid ev.cmd h) h) {e : Cmd} {o : Choice}
    (hu : Undisturbed i e o w h) : Joined (⟨i, e, (exec e o w).1⟩ :: h) := by
  intro k key flight hmem n hanswered
  rw [since] at hmem
  split_ifs at hmem with hstart
  · cases hmem
  rw [NewerThanWrites, before, if_neg hstart]
  rcases List.mem_cons.1 hmem with heq | hmem
  · -- the `Get` joins the flight now
    obtain rfl : k = i := congrArg Logged.tid heq
    obtain rfl : .doStart key = e := congrArg Logged.cmd heq
    cases hrunning : w.running key with
    | none => simp [Cache.exec, hrunning] at heq
    | some flight' =>
      obtain rfl : flight = flight' := by simpa [Cache.exec, hrunning] using heq
      rcases answered_cons hanswered with ⟨_, _, _, hev⟩ | hanswered
      · cases hev
      · exact hu key flight n rfl hrunning hanswered
  · rcases answered_cons hanswered with ⟨_, key', r, hev⟩ | hanswered
    · -- its leader is answered now
      obtain rfl : e = .innerGet flight key' := congrArg Logged.cmd hev
      obtain rfl : w.serial = n := by
        have hreply := eq_of_heq (Logged.mk.inj hev).2.2
        exact congrArg Prod.snd hreply
      exact newerThanWrites_serial hs hkept key
    · exact hj k key flight hmem n hanswered

def protocol : Protocol machine where
  inv := Inv
  pre := Pre
  idle := fun i l h =>
    match l with
    | .idle => True
    | .waiting key flight =>
        ⟨i, .doStart key, .joined flight⟩ ∈ since Cmd.isAccept i h ∧ Flown h flight key
  allowed := Undisturbed
  step := fun hinv hkept hpre hallowed => ⟨hinv.serials.exec _ _ _, hinv.flights.exec hpre _,
    hinv.joined.exec hinv.serials hkept hallowed⟩
  env := fun hinv => ⟨⟨hinv.serials.lt, hinv.serials.rising⟩, ⟨hinv.flights.lt, hinv.flights.inj,
    hinv.flights.running, hinv.flights.asked, hinv.flights.result⟩, hinv.joined⟩

end

/-! ### Calls -/

section

variable {i : ℕ} {w : World} {h : History Reply}

theorem NewerThanWrites.others {h' : History Reply} (ho : Others i h h') {key : String} {n : ℕ}
    (hn : NewerThanWrites i h key n) : NewerThanWrites i h' key n := by
  rw [NewerThanWrites, before_of_others ho]
  exact hn

theorem NewerThanWrites.own {e : Cmd} {reply : Reply e} (he : e.isAccept = false)
    {key : String} {n : ℕ}
    (hn : NewerThanWrites i h key n) : NewerThanWrites i (⟨i, e, reply⟩ :: h) key n := by
  rw [NewerThanWrites, before_cons he]
  exact hn

theorem safe_returnGet {key : String} {answer : Found × ℕ}
    (hanswer : ∃ j flight, ⟨j, .innerGet flight key, answer⟩ ∈ h)
    (hnewer : NewerThanWrites i h key answer.2) :
    Safe protocol.contract i (fun l _ h => protocol.idle i l h) (returnGet key answer) w h := by
  refine Protocol.safe_call fun w₁ h₁ o₁ ho₁ _ _ _ =>
    ⟨⟨?_, hnewer.others ho₁⟩, Protocol.safe_pure fun _ _ _ => trivial⟩
  obtain ⟨j, flight, hmem⟩ := hanswer
  exact ⟨j, flight, ho₁.mem hmem⟩

theorem safe_await {key : String} {flight : ℕ}
    (hjoined : ⟨i, .doStart key, .joined flight⟩ ∈ since Cmd.isAccept i h)
    (hflown : Flown h flight key) :
    Safe protocol.contract i (fun l _ h => protocol.idle i l h) (await key flight) w h := by
  have hlater : ∀ {h'}, Others i h h' →
      ⟨i, .doStart key, .joined flight⟩ ∈ since Cmd.isAccept i h' ∧ Flown h' flight key :=
    fun ho => ⟨mem_since_mono ho hjoined, hflown.mono fun _ hmem => ho.mem hmem⟩
  refine Protocol.safe_call fun w₁ h₁ o₁ ho₁ hinv₁ _ _ => ⟨trivial, ?_⟩
  obtain ⟨hjoined₁, hflown₁⟩ := hlater ho₁
  simp only [machine, exec]
  cases hresult : w₁.result flight with
  | none =>
    refine Protocol.safe_pure fun w₂ h₂ ho₂ => ⟨?_, ?_⟩
    · exact mem_since_mono ho₂ ((mem_since_cons rfl).2 (Or.inr hjoined₁))
    · exact hflown₁.mono fun _ hmem => ho₂.mem (List.mem_cons_of_mem _ hmem)
  | some answer =>
    obtain ⟨j, key', hmem⟩ := hinv₁.flights.result hresult
    obtain rfl : key' = key := hinv₁.flights.inj (hinv₁.flights.asked hmem) hflown₁
    refine safe_returnGet ⟨j, flight, List.mem_cons_of_mem _ hmem⟩ (NewerThanWrites.own rfl ?_)
    exact hinv₁.joined i key' flight hjoined₁ answer.2 ⟨j, key', answer.1, hmem⟩

theorem safe_get (key : String) :
    Safe protocol.contract i (fun l _ h => protocol.idle i l h) (get key) w h := by
  refine Protocol.safe_call fun w₁ h₁ o₁ _ hinv₁ _ _ => ⟨trivial, ?_⟩
  simp only [machine, exec]
  cases hrunning : w₁.running key with
  | some flight =>
    refine safe_await ((mem_since_cons rfl).2 (Or.inl rfl)) ?_
    exact (hinv₁.flights.running hrunning).mono (List.subset_cons_self _ _)
  | none =>
    refine Protocol.safe_call fun w₂ h₂ o₂ ho₂ hinv₂ hkept₂ _ => ⟨ho₂.mem List.mem_cons_self, ?_⟩
    refine Protocol.safe_call fun w₃ h₃ o₃ ho₃ _ _ _ => ⟨⟨i, ho₃.mem List.mem_cons_self⟩, ?_⟩
    refine safe_returnGet ⟨i, w₁.nextFlight, List.mem_cons_of_mem _ (ho₃.mem List.mem_cons_self)⟩ ?_
    exact (((newerThanWrites_serial hinv₂.serials hkept₂ key).own rfl).others ho₃).own rfl

theorem safe_returnWrite {request : Request} {answer : Option Err × ℕ}
    (hwrote : WroteAt h answer.1 answer.2 request) :
    Safe protocol.contract i (fun l _ h => protocol.idle i l h) (returnWrite request answer) w h :=
  Protocol.safe_call fun _ _ _ ho₁ _ _ _ => ⟨pre_wrote.2 (hwrote.mono fun _ hmem => ho₁.mem hmem),
    Protocol.safe_pure fun _ _ _ => trivial⟩

theorem safe_serve {l : Local} (hidle : protocol.idle i l h) :
    Safe protocol.contract i (fun l _ h => protocol.idle i l h) (serve l) w h := by
  cases l with
  | waiting key flight => exact safe_await hidle.1 hidle.2
  | idle =>
    refine Protocol.safe_call fun w₁ h₁ o₁ _ _ _ _ => ⟨trivial, ?_⟩
    cases (machine.exec .accept o₁ w₁).1 with
    | get key => exact safe_get key
    | set key value ttl => exact Protocol.safe_call fun w₂ h₂ o₂ _ _ _ _ =>
        ⟨trivial, safe_returnWrite ⟨i, List.mem_cons_self⟩⟩
    | delete keys => exact Protocol.safe_call fun w₂ h₂ o₂ _ _ _ _ =>
        ⟨trivial, safe_returnWrite ⟨i, List.mem_cons_self⟩⟩

end

/-! ### Whole runs -/

/-- What holds after every run in which no `Get` joins a flight that is too old for it. -/
theorem inv_run (store : String → Option String) {as : List (Action Choice String)}
    (ha : Along machine (OnStep Undisturbed) (.boot machine (.fresh store)) as) :
    Inv ((Pool.boot machine (.fresh store)).run machine as).shared
        ((Pool.boot machine (.fresh store)).run machine as).hist ∧
      protocol.Kept ((Pool.boot machine (.fresh store)).run machine as).hist := by
  refine protocol.run (fun _ _ => trivial) (fun _ _ _ _ hidle => safe_serve hidle) ?_ ha
  exact ⟨⟨nofun, trivial⟩, ⟨nofun, nofun, nofun, nofun, nofun⟩, nofun⟩

/-- **Reads after writes.**  In every run in which no `Get` joins a flight that is too old for it, a
`Get` sees the writes that returned before it started. -/
theorem read_after_write (store : String → Option String) {as : List (Action Choice String)}
    (ha : Along machine (OnStep Undisturbed) (.boot machine (.fresh store)) as)
    {l h : History Reply} {i : ℕ} {key : String} {r : Found} {n : ℕ}
    (hist : ((Pool.boot machine (.fresh store)).run machine as).hist =
      l ++ ⟨i, .respond (.get key) (.got r n), ()⟩ :: h) : SeesWrites i h key (r, n) := by
  obtain ⟨hinv, hkept⟩ := inv_run store ha
  rw [hist] at hinv hkept
  have hsuffix : h <:+ l ++ ⟨i, .respond (.get key) (.got r n), ()⟩ :: h :=
    (List.suffix_cons _ h).trans (List.suffix_append l _)
  have hrising := hinv.serials.rising.suffix hsuffix
  have hkept' := hkept.suffix hsuffix
  obtain ⟨⟨j, flight, hmem⟩, hnewer⟩ := hkept.split
  obtain ⟨a, h', rfl⟩ := List.append_of_mem hmem
  refine ⟨j, flight, h', List.suffix_append a _, fun k request m hkey hreturned => ?_⟩
  have hwrote := wroteAt_of_returned hkept' (before_suffix.subset hreturned)
  exact hwrote.older hrising rfl (hnewer m ⟨k, request, hkey, hreturned⟩)

/-! ### Two reads and a write -/

/-- This call arrives, and the inner client does not fail. -/
def arrives (request : Request) : Choice := ⟨request, none⟩

/-- The step of a goroutine, when a `Get` of `k` is the next call to arrive. -/
def getStep (i : ℕ) : Action Choice String := .step i (arrives (.get "k"))

/-- Goroutine 1 sets `k`. -/
def setCall : List (Action Choice String) :=
  .resume 1 :: List.replicate 3 (.step 1 (arrives (.set "k" "v" 0)))

/-- Goroutine 0 leads a flight that goroutine 2 joins before the inner client is asked. -/
def joinedEarly : List (Action Choice String) :=
  setCall ++ [.resume 0, getStep 0, getStep 0, .resume 2, getStep 2, getStep 2,
    getStep 0, getStep 0, getStep 2, getStep 2]

/-- Goroutine 0 leads a flight, `k` is set after the inner client has answered, and then goroutine 2
joins the flight. -/
def joinedLate : List (Action Choice String) :=
  [.resume 0, getStep 0, getStep 0, getStep 0] ++ setCall ++
    [.resume 2, getStep 2, getStep 2, getStep 0, getStep 2, getStep 2]

theorem read_after_write_joined : ∃ h,
    ((Pool.boot machine (.fresh fun _ => none)).run machine joinedEarly).hist =
      ⟨2, .respond (.get "k") (.got (.ok (some "v")) 1), ()⟩ :: h ∧
    ⟨1, .respond (.set "k" "v" 0) (.wrote none 0), ()⟩ ∈ before Cmd.isAccept 2 h ∧
    SeesWrites 2 h "k" (.ok (some "v"), 1) := by
  have ha : Along machine (OnStep Undisturbed)
      (.boot machine (.fresh fun _ => none)) joinedEarly := by
    refine ⟨trivial, nofun, nofun, nofun, trivial, nofun, fun key flight n he hr => ?_,
      trivial, nofun, fun key flight n he hr => ?_, nofun, nofun, nofun, nofun, trivial⟩
    · cases he
      cases hr
    · rintro ⟨j, key', r, hmem⟩
      change _ ∈ [_, _, _, _, _, _] at hmem
      simp at hmem
  have hist : ∃ h, ((Pool.boot machine (.fresh fun _ => none)).run machine joinedEarly).hist =
      [] ++ ⟨2, .respond (.get "k") (.got (.ok (some "v")) 1), ()⟩ :: h ∧
      ⟨1, .respond (.set "k" "v" 0) (.wrote none 0), ()⟩ ∈ before Cmd.isAccept 2 h :=
    ⟨_, rfl, .tail _ (.tail _ (.head _))⟩
  obtain ⟨h, hist, hwrote⟩ := hist
  exact ⟨h, hist, hwrote, read_after_write _ ha hist⟩

/-- A `Get` that starts after a `Set` has returned misses the entry. -/
theorem stale_read : ∃ h,
    ((Pool.boot machine (.fresh fun _ => none)).run machine joinedLate).hist =
      ⟨2, .respond (.get "k") (.got (.error errCacheMiss) 0), ()⟩ :: h ∧
    ⟨1, .respond (.set "k" "v" 0) (.wrote none 1), ()⟩ ∈ before Cmd.isAccept 2 h ∧
    ¬ SeesWrites 2 h "k" (.error errCacheMiss, 0) := by
  refine ⟨_, rfl, .head _, ?_⟩
  rintro ⟨j, flight, h', hsuffix, hall⟩
  obtain ⟨k, hwrote⟩ := hall 1 (.set "k" "v" 0) 1 (by decide) (.head _)
  change _ <:+ [_, _, _, _, _, _, _, _, _, _] at hsuffix
  simp only [List.suffix_cons_iff, List.cons.injEq, Logged.mk.injEq, reduceCtorEq, false_and,
    and_false, false_or, List.suffix_nil, or_false] at hsuffix
  rw [hsuffix.2] at hwrote
  simp at hwrote

end WolfCore.Cache
