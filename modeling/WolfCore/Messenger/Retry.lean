import WolfCore.Lib.Execution
import WolfCore.Lib.Slices
import WolfCore.Messenger.Envelope

/-!
# Retried dispatch (`messenger/middleware/retry.go`, `messenger/envelope.go`)

`Retry.Handle` calls `next` until it succeeds, at most `MaxRetries` times more, and adds a
`RedeliveryStamp` before each further call.

An envelope is a value, but its stamps are a slice, so two envelopes may share an array; and the
headers of a `TraceStamp` are a map, which all copies of the stamp share.  Here the arrays and the
maps are in a memory (`Memory`), and `next` is a function that may do to it whatever the methods of
`Envelope` allow (`EnvelopeOp`): it changes the message of its copy, adds and removes stamps, takes
the slices that `Stamps` and `All` return and writes to them, and writes to maps.

* `step_keeps`: none of this changes an envelope whose array is in no slice of the function
  (`Held`), and by `held_of_run` no envelope has its array in one; but for a write to a map of one
  of its stamps;
* `retryHandle`: the middleware, whose calls of `next`, waits and new envelopes are effects;
* `tries`: how many calls there are; `retry_exact`: what they are given, and what comes back, if
  they leave the maps of the envelope alone;
* `header_seen`: a call that does not, and what the next one is given.

How long the waits take is left out, and the context is never cancelled.  Errors are any values with
an `Error` text.  With `MaxRetries` the greatest integer the counter of the loop would wrap around
before the loop ends.
-/

namespace WolfCore.Messenger

open Go Interleave

/-! ### Envelopes in memory -/

/-- `Envelope` as Go has it: the stamps are a slice, which may be nil. -/
structure EnvelopeRef (V : Type) where
  message : V
  stamps : Option ℕ
  createdAt : ℤ

/-- A stamp as Go has it: the headers of a `TraceStamp` are a map, which may be nil; `other` is a
stamp without a map. -/
inductive StampRef (V : Type)
  | trace (traceID spanID : String) (headers : Option ℕ)
  | other (s : Stamp V)

/-- `StampName`. -/
def StampRef.stampName {V : Type} : StampRef V → String
  | .trace _ _ _ => Stamp.nameTrace
  | .other s => s.stampName

def StampRef.map {V : Type} : StampRef V → Option ℕ
  | .trace _ _ headers => headers
  | .other _ => none

/-- The arrays of stamps and the maps, by their addresses, and the envelopes and slices of stamps a
function has in its variables. -/
structure Memory (V : Type) where
  arrays : Arrays (StampRef V)
  maps : ℕ → List (String × String)
  envelopes : List (EnvelopeRef V)
  slices : List ℕ

/-- What a function that is given envelopes can do with them. -/
inductive EnvelopeOp (V : Type)
  /-- an assignment to the field `Message` -/
  | setMessage (i : ℕ) (msg : V)
  | withStamp (i : ℕ) (s : StampRef V)
  | withoutStamp (i : ℕ) (name : String)
  /-- `NewEnvelope`, or `NewEnvelopeWithTime`, with a slice of stamps -/
  | newEnvelope (msg : V) (slice : ℕ) (createdAt : ℤ)
  | stamps (i : ℕ)
  | all (i : ℕ) (name : String)
  /-- a new slice -/
  | make (stamps : List (StampRef V))
  /-- an assignment to an element of a slice -/
  | write (slice i : ℕ) (s : StampRef V)
  /-- assignments to the entries of a map, new or not, and the removal of entries -/
  | writeMap (a : ℕ) (entries : List (String × String))

namespace Memory

variable {V : Type} (m : Memory V)

def stampsOf (e : EnvelopeRef V) : List (StampRef V) := e.stamps.elim [] m.arrays.get

/-- The stamp as a value. -/
def readStamp : StampRef V → Stamp V
  | .trace traceID spanID headers => .trace traceID spanID (headers.elim [] m.maps)
  | .other s => s

/-- The envelope as a value. -/
def read (e : EnvelopeRef V) : Envelope V :=
  ⟨e.message, (m.stampsOf e).map m.readStamp, e.createdAt⟩

/-- A new envelope with a new array of stamps, or none. -/
def newRef (msg : V) (stamps : List (StampRef V)) (createdAt : ℤ) : EnvelopeRef V × Memory V :=
  if stamps = [] then (⟨msg, none, createdAt⟩, m)
  else (⟨msg, some m.arrays.size, createdAt⟩, { m with arrays := m.arrays.alloc stamps })

/-- `Envelope.WithStamp`. -/
def withStamp (e : EnvelopeRef V) (s : StampRef V) : EnvelopeRef V × Memory V :=
  m.newRef e.message (m.stampsOf e ++ [s]) e.createdAt

/-- `Envelope.WithoutStamp`. -/
def withoutStamp (e : EnvelopeRef V) (name : String) : EnvelopeRef V × Memory V :=
  m.newRef e.message ((m.stampsOf e).filter fun s => s.stampName ≠ name) e.createdAt

def addSlice (stamps : List (StampRef V)) : Memory V :=
  { m with arrays := m.arrays.alloc stamps, slices := m.slices ++ [m.arrays.size] }

def addEnvelope (e : EnvelopeRef V) : Memory V := { m with envelopes := m.envelopes ++ [e] }

def addNew (new : EnvelopeRef V × Memory V) : Memory V := new.2.addEnvelope new.1

/-- One operation; with a variable that is not there nothing happens. -/
def step : EnvelopeOp V → Memory V
  | .setMessage i msg =>
      { m with envelopes := m.envelopes.modify i fun e => { e with message := msg } }
  | .withStamp i s => m.envelopes[i]?.elim m fun e => addNew (m.withStamp e s)
  | .withoutStamp i name => m.envelopes[i]?.elim m fun e => addNew (m.withoutStamp e name)
  | .newEnvelope msg slice createdAt =>
      m.slices[slice]?.elim m fun a => addNew (m.newRef msg (m.arrays.get a) createdAt)
  | .stamps i => m.envelopes[i]?.elim m fun e => m.addSlice (m.stampsOf e)
  | .all i name => m.envelopes[i]?.elim m fun e =>
      m.addSlice ((m.stampsOf e).filter fun s => s.stampName = name)
  | .make stamps => m.addSlice stamps
  | .write slice i s =>
      m.slices[slice]?.elim m fun a => { m with arrays := m.arrays.write a i s }
  | .writeMap a entries => { m with maps := Function.update m.maps a entries }

/-- The slices in the variables are in memory. -/
def Valid : Prop := ∀ a ∈ m.slices, a < m.arrays.size

/-- The array of the envelope is in memory, and is no slice in the variables. -/
def Held (e : EnvelopeRef V) : Prop := ∀ a, e.stamps = some a → a < m.arrays.size ∧ a ∉ m.slices

/-- The maps of the envelope's stamps are among those of `S`. -/
def MapsIn (S : Set ℕ) (e : EnvelopeRef V) : Prop := ∀ s ∈ m.stampsOf e, ∀ a, s.map = some a → a ∈ S

/-- No envelope changes from `m` to `m'`, and no map of `S`. -/
structure Keeps (S : Set ℕ) (m m' : Memory V) : Prop where
  valid : m'.Valid
  held : ∀ e, m.Held e → m'.Held e
  stamps : ∀ e, m.Held e → m'.stampsOf e = m.stampsOf e
  maps : ∀ a ∈ S, m'.maps a = m.maps a

variable {m} {S : Set ℕ}

theorem Keeps.refl (hm : m.Valid) : Keeps S m m :=
  ⟨hm, fun _ h => h, fun _ _ => rfl, fun _ _ => rfl⟩

theorem Keeps.trans {m₁ m₂ : Memory V} (h₁ : Keeps S m m₁) (h₂ : Keeps S m₁ m₂) : Keeps S m m₂ :=
  ⟨h₂.valid, fun e he => h₂.held e (h₁.held e he),
    fun e he => (h₂.stamps e (h₁.held e he)).trans (h₁.stamps e he),
    fun a ha => (h₂.maps a ha).trans (h₁.maps a ha)⟩

/-- An envelope with its maps in `S` is read as before. -/
theorem Keeps.read {m' : Memory V} (h : Keeps S m m') {e : EnvelopeRef V} (he : m.Held e)
    (hmaps : m.MapsIn S e) : m'.read e = m.read e := by
  have hstamp : ∀ s ∈ m.stampsOf e, m'.readStamp s = m.readStamp s := by
    intro s hs
    cases s with
    | other s => rfl
    | trace traceID spanID headers =>
      cases headers with
      | none => rfl
      | some a => exact congrArg (Stamp.trace traceID spanID) (h.maps a (hmaps _ hs a rfl))
  unfold Memory.read
  rw [h.stamps e he, List.map_congr_left hstamp]

theorem Keeps.mapsIn {m' : Memory V} (h : Keeps S m m') {e : EnvelopeRef V} (he : m.Held e)
    (hmaps : m.MapsIn S e) : m'.MapsIn S e := by
  unfold MapsIn
  rw [h.stamps e he]
  exact hmaps

theorem Keeps.envelopes {m' : Memory V} (h : Keeps S m m') (es : List (EnvelopeRef V)) :
    Keeps S m { m' with envelopes := es } := ⟨h.valid, h.held, h.stamps, h.maps⟩

/-- A new array changes no envelope, whether the function may write to it or not. -/
theorem Keeps.alloc (hm : m.Valid) (stamps : List (StampRef V)) {slices : List ℕ}
    (hslices : ∀ a ∈ slices, a ∈ m.slices ∨ a = m.arrays.size) :
    Keeps S m { m with arrays := m.arrays.alloc stamps, slices := slices } := by
  refine ⟨fun a ha => ?_, fun e he a ha => ?_, fun e he => ?_, fun _ _ => rfl⟩
  · rw [Arrays.size_alloc]
    rcases hslices a ha with ha | rfl
    · exact Nat.lt_succ_of_lt (hm a ha)
    · exact Nat.lt_succ_self _
  · obtain ⟨hlt, hnot⟩ := he a ha
    refine ⟨by rw [Arrays.size_alloc]; exact Nat.lt_succ_of_lt hlt, fun hmem => ?_⟩
    rcases hslices a hmem with hmem | rfl
    · exact hnot hmem
    · exact absurd hlt (lt_irrefl _)
  · unfold Memory.stampsOf
    cases hs : e.stamps with
    | none => rfl
    | some a => simp only [Option.elim_some, Arrays.get_alloc_of_lt (he a hs).1]

/-- A write to a slice changes no envelope. -/
theorem Keeps.write (hm : m.Valid) {a : ℕ} (ha : a ∈ m.slices) (i : ℕ) (s : StampRef V) :
    Keeps S m { m with arrays := m.arrays.write a i s } := by
  refine ⟨fun b hb => by rw [Arrays.size_write]; exact hm b hb,
    fun e he b hb => by rw [Arrays.size_write]; exact he b hb, fun e he => ?_, fun _ _ => rfl⟩
  unfold Memory.stampsOf
  cases hs : e.stamps with
  | none => rfl
  | some b =>
    have hne : a ≠ b := fun heq => (he b hs).2 (heq ▸ ha)
    simp only [Option.elim_some, Arrays.get_write_of_ne hne]

theorem newRef_keeps (hm : m.Valid) (msg : V) (stamps : List (StampRef V)) (createdAt : ℤ) :
    Keeps S m (m.newRef msg stamps createdAt).2 := by
  unfold newRef
  split_ifs
  · exact .refl hm
  · exact .alloc hm stamps fun a ha => Or.inl ha

theorem addSlice_keeps (hm : m.Valid) (stamps : List (StampRef V)) :
    Keeps S m (m.addSlice stamps) :=
  .alloc hm stamps fun a ha => by simpa using ha

/-- **No operation changes an envelope** that is held, or a map of `S`, if it does not write to
one. -/
theorem step_keeps (hm : m.Valid) {op : EnvelopeOp V}
    (hop : ∀ a entries, op = .writeMap a entries → a ∉ S) : Keeps S m (m.step op) := by
  cases op with
  | setMessage i msg => exact (Keeps.refl hm).envelopes _
  | withStamp i s =>
    simp only [step]
    cases m.envelopes[i]? with
    | none => exact .refl hm
    | some e => exact (newRef_keeps hm _ _ _).envelopes _
  | withoutStamp i name =>
    simp only [step]
    cases m.envelopes[i]? with
    | none => exact .refl hm
    | some e => exact (newRef_keeps hm _ _ _).envelopes _
  | newEnvelope msg slice createdAt =>
    simp only [step]
    cases m.slices[slice]? with
    | none => exact .refl hm
    | some a => exact (newRef_keeps hm _ _ _).envelopes _
  | stamps i =>
    simp only [step]
    cases m.envelopes[i]? with
    | none => exact .refl hm
    | some e => exact addSlice_keeps hm _
  | all i name =>
    simp only [step]
    cases m.envelopes[i]? with
    | none => exact .refl hm
    | some e => exact addSlice_keeps hm _
  | make stamps => exact addSlice_keeps hm stamps
  | write slice i s =>
    simp only [step]
    cases ha : m.slices[slice]? with
    | none => exact .refl hm
    | some a => exact .write hm (List.mem_of_getElem? ha) i s
  | writeMap a entries =>
    have ha := hop a entries rfl
    refine ⟨hm, fun _ h => h, fun _ _ => rfl, fun b hb => ?_⟩
    have hne : b ≠ a := fun heq => ha (heq ▸ hb)
    exact Function.update_of_ne hne entries m.maps

theorem run_keeps (hm : m.Valid) {ops : List (EnvelopeOp V)}
    (hops : ∀ a entries, .writeMap a entries ∈ ops → a ∉ S) : Keeps S m (ops.foldl step m) := by
  induction ops generalizing m with
  | nil => exact .refl hm
  | cons op ops ih =>
    have hop : Keeps S m (m.step op) := step_keeps hm fun a entries heq =>
      hops a entries (heq ▸ List.mem_cons_self)
    exact hop.trans
      (ih hop.valid fun a entries hmem => hops a entries (List.mem_cons_of_mem _ hmem))

/-- A new envelope is held, and has the stamps it was given. -/
theorem newRef_spec (hm : m.Valid) (msg : V) (stamps : List (StampRef V)) (createdAt : ℤ) :
    (m.newRef msg stamps createdAt).2.Held (m.newRef msg stamps createdAt).1 ∧
      (m.newRef msg stamps createdAt).2.stampsOf (m.newRef msg stamps createdAt).1 = stamps ∧
      (m.newRef msg stamps createdAt).2.read (m.newRef msg stamps createdAt).1 =
        ⟨msg, stamps.map m.readStamp, createdAt⟩ := by
  unfold newRef
  split_ifs with hnil
  · exact ⟨nofun, by simp [stampsOf, hnil], by simp [read, stampsOf, hnil]⟩
  · refine ⟨fun a ha => ?_, by simp [stampsOf], ?_⟩
    · obtain rfl : m.arrays.size = a := Option.some.inj ha
      exact ⟨by simp, fun hmem => absurd (hm _ hmem) (lt_irrefl _)⟩
    · simp only [read, stampsOf, Option.elim_some, Arrays.get_alloc_self]
      rfl

/-- `WithStamp` returns a held envelope, with no map that the old one has not. -/
theorem withStamp_spec (hm : m.Valid) {e : EnvelopeRef V} (hmaps : m.MapsIn S e) (s : Stamp V) :
    (m.withStamp e (.other s)).2.Held (m.withStamp e (.other s)).1 ∧
      (m.withStamp e (.other s)).2.MapsIn S (m.withStamp e (.other s)).1 ∧
      (m.withStamp e (.other s)).2.read (m.withStamp e (.other s)).1 = (m.read e).withStamp s := by
  obtain ⟨hheld, hstamps, hread⟩ :=
    newRef_spec hm e.message (m.stampsOf e ++ [.other s]) e.createdAt
  refine ⟨hheld, fun st hst a ha => ?_, ?_⟩
  · rw [withStamp, hstamps, List.mem_append, List.mem_singleton] at hst
    rcases hst with hst | rfl
    · exact hmaps st hst a ha
    · cases ha
  · rw [withStamp, hread, List.map_append]
    rfl

theorem newRef_envelopes (msg : V) (stamps : List (StampRef V)) (createdAt : ℤ) :
    (m.newRef msg stamps createdAt).2.envelopes = m.envelopes := by
  unfold newRef
  split_ifs <;> rfl

/-- With a new envelope in the variables, all are held if the others were. -/
theorem held_addNew (hm : m.Valid) (h : ∀ e ∈ m.envelopes, m.Held e) (msg : V)
    (stamps : List (StampRef V)) (createdAt : ℤ) :
    ∀ e ∈ (addNew (m.newRef msg stamps createdAt)).envelopes,
      (addNew (m.newRef msg stamps createdAt)).Held e := by
  intro e he
  rw [addNew, addEnvelope, newRef_envelopes, List.mem_append, List.mem_singleton] at he
  rcases he with he | rfl
  · exact (newRef_keeps (S := ∅) hm msg stamps createdAt).held e (h e he)
  · exact (newRef_spec hm msg stamps createdAt).1

/-- An operation leaves no array of an envelope in a slice. -/
theorem step_held (hm : m.Valid) (h : ∀ e ∈ m.envelopes, m.Held e) (op : EnvelopeOp V) :
    ∀ e ∈ (m.step op).envelopes, (m.step op).Held e := by
  have hold : ∀ e ∈ m.envelopes, (m.step op).Held e := fun e he =>
    (step_keeps (S := ∅) hm fun _ _ _ => Set.notMem_empty _).held e (h e he)
  cases op with
  | setMessage i msg =>
    -- the array is the same
    intro e he
    obtain ⟨j, hj⟩ := List.mem_iff_getElem?.1 he
    simp only [step, List.getElem?_modify] at hj
    obtain ⟨e₀, he₀, rfl⟩ := Option.map_eq_some_iff.1 hj
    have hheld := hold e₀ (List.mem_of_getElem? he₀)
    split_ifs
    · exact hheld
    · exact hheld
  | withStamp i s =>
    simp only [step]
    cases m.envelopes[i]? with
    | none => exact h
    | some e => exact held_addNew hm h _ _ _
  | withoutStamp i name =>
    simp only [step]
    cases m.envelopes[i]? with
    | none => exact h
    | some e => exact held_addNew hm h _ _ _
  | newEnvelope msg slice createdAt =>
    simp only [step]
    cases m.slices[slice]? with
    | none => exact h
    | some a => exact held_addNew hm h _ _ _
  | stamps i =>
    simp only [step] at hold ⊢
    cases hi : m.envelopes[i]? with
    | none => exact h
    | some e => rw [hi] at hold; exact hold
  | all i name =>
    simp only [step] at hold ⊢
    cases hi : m.envelopes[i]? with
    | none => exact h
    | some e => rw [hi] at hold; exact hold
  | make stamps => exact hold
  | write slice i s =>
    simp only [step] at hold ⊢
    cases hi : m.slices[slice]? with
    | none => exact h
    | some a => rw [hi] at hold; exact hold
  | writeMap a entries => exact h

def init (maps : ℕ → List (String × String)) : Memory V := ⟨⟨[]⟩, maps, [], []⟩

/-- Whatever has been done so far, every envelope is held. -/
theorem held_of_run (maps : ℕ → List (String × String)) (ops : List (EnvelopeOp V)) :
    (ops.foldl step (init maps)).Valid ∧
      ∀ e ∈ (ops.foldl step (init maps)).envelopes, (ops.foldl step (init maps)).Held e := by
  induction ops using List.reverseRecOn with
  | nil => exact ⟨by simp [Valid, init], by simp [init]⟩
  | append_singleton ops op ih =>
    rw [List.foldl_append, List.foldl_cons, List.foldl_nil]
    exact ⟨(step_keeps (S := ∅) ih.1 fun _ _ _ => Set.notMem_empty _).valid, step_held ih.1 ih.2 op⟩

end Memory

/-! ### The middleware -/

/-- The effects of `Retry.Handle`. -/
inductive RetryCmd (V : Type)
  | next (env : EnvelopeRef V)
  /-- `sleepWithContext`, before the attempt -/
  | sleep (attempt : ℤ)
  | withStamp (env : EnvelopeRef V) (s : Stamp V)

/-- The answer to each effect; `ρ` stands for `DispatchResult`. -/
abbrev RetryReply (V ρ : Type) : RetryCmd V → Type
  | .next _ => Outcome (Except Err ρ)
  | .sleep _ => Option Err
  | .withStamp _ _ => EnvelopeRef V

section

variable {V ρ : Type} (errorText : Err → String)

/-- `if err == nil { return result, nil }`, and what is done with the error otherwise. -/
def onError (again : Err → Prog (RetryReply V ρ) (Outcome (Except Err ρ))) :
    Outcome (Except Err ρ) → Prog (RetryReply V ρ) (Outcome (Except Err ρ))
  | .panicked p => .pure (.panicked p)
  | .returned (.ok result) => .pure (.returned (.ok result))
  | .returned (.error err) => again err

/-- The loop of `Retry.Handle`, with `n` attempts left. -/
def retryFrom : ℕ → ℤ → Err → EnvelopeRef V → Prog (RetryReply V ρ) (Outcome (Except Err ρ))
  | 0, _, lastErr, _ => .pure (.returned (.error lastErr))
  | n + 1, attempt, lastErr, env => .call (.sleep attempt) fun
      | some sleepErr => .pure (.returned (.error sleepErr))
      | none => .call (.withStamp env (.redelivery (Int64.ofInt attempt) (errorText lastErr)))
          fun env =>
          .call (.next env) (onError fun lastErr => retryFrom n (attempt + 1) lastErr env)

/-- `Retry.Handle`. -/
def retryHandle (maxRetries : ℤ) (env : EnvelopeRef V) :
    Prog (RetryReply V ρ) (Outcome (Except Err ρ)) :=
  .call (.next env) (onError fun err => retryFrom errorText maxRetries.toNat 1 err env)

/-- What `next` does in each of its calls: any operations on the memory, and a result. -/
structure Callee (V ρ : Type) where
  ops : ℕ → Memory V → EnvelopeRef V → List (EnvelopeOp V)
  outcome : ℕ → Except Err ρ

/-- The memory, and what the calls of `next` so far were given. -/
structure RetryWorld (V : Type) where
  memory : Memory V
  calls : List (Envelope V)

/-- The effects, with a context that is never cancelled.  A call of `next` may use what earlier ones
have kept. -/
def retryExec (c : Callee V ρ) : (e : RetryCmd V) → RetryWorld V → RetryReply V ρ e × RetryWorld V
  | .next env, w =>
      (.returned (c.outcome w.calls.length),
        ⟨(c.ops w.calls.length w.memory env).foldl Memory.step (w.memory.addEnvelope env),
          w.calls ++ [w.memory.read env]⟩)
  | .sleep _, w => (none, w)
  | .withStamp env s, w =>
      ((w.memory.withStamp env (.other s)).1,
        { w with memory := (w.memory.withStamp env (.other s)).2 })

/-! ### The calls -/

/-- How many calls are made from call number `i` on (the first is number 0), if at most `n` are. -/
def tries (outcome : ℕ → Except Err ρ) : ℕ → ℕ → ℕ
  | _, 0 => 0
  | i, n + 1 =>
      match outcome i with
      | .ok _ => 1
      | .error _ => 1 + tries outcome (i + 1) n

/-- The error text of call number `j`, if it failed. -/
def textOf (outcome : ℕ → Except Err ρ) (j : ℕ) : String :=
  match outcome j with
  | .error err => errorText err
  | .ok _ => ""

/-- The envelope with the redelivery stamps of the first `i` calls. -/
def redelivered (outcome : ℕ → Except Err ρ) (env : Envelope V) (i : ℕ) : Envelope V :=
  { env with
    stamps := env.stamps ++ (List.range i).map fun j : ℕ =>
      .redelivery (Int64.ofNat (j + 1)) (textOf errorText outcome j) }

theorem redelivered_zero (outcome : ℕ → Except Err ρ) (env : Envelope V) :
    redelivered errorText outcome env 0 = env := by simp [redelivered]

theorem redelivered_succ (outcome : ℕ → Except Err ρ) (env : Envelope V) (i : ℕ) :
    redelivered errorText outcome env (i + 1) = (redelivered errorText outcome env i).withStamp
      (.redelivery (Int64.ofNat (i + 1)) (textOf errorText outcome i)) := by
  simp [redelivered, List.range_succ, Envelope.withStamp]

theorem tries_of_success {outcome : ℕ → Except Err ρ} {i k : ℕ} {result : ρ}
    (hk : outcome (i + k) = .ok result) (hbefore : ∀ j < k, ∃ err, outcome (i + j) = .error err)
    (n : ℕ) : tries outcome i n = min (k + 1) n := by
  induction n generalizing i k with
  | zero => simp [tries]
  | succ n ih =>
    unfold tries
    cases k with
    | zero =>
      rw [Nat.add_zero] at hk
      simp [hk]
    | succ k =>
      obtain ⟨err, herr⟩ := hbefore 0 (Nat.succ_pos k)
      have hshift : ∀ j, i + 1 + j = i + (j + 1) := fun j => by omega
      have hrest := ih (i := i + 1) (k := k) (by rw [hshift]; exact hk) fun j hj => by
        rw [hshift]
        exact hbefore (j + 1) (by omega)
      rw [Nat.add_zero] at herr
      simp only [herr, hrest]
      omega

theorem tries_of_failures {outcome : ℕ → Except Err ρ} (h : ∀ j, ∃ err, outcome j = .error err)
    (i n : ℕ) :
    tries outcome i n = n := by
  induction n generalizing i with
  | zero => rfl
  | succ n ih =>
    obtain ⟨err, herr⟩ := h i
    simp only [tries, herr, ih]
    omega

/-- No call writes to a map of `S`. -/
def Callee.Spares (c : Callee V ρ) (S : Set ℕ) : Prop :=
  ∀ i m env a entries, .writeMap a entries ∈ c.ops i m env → a ∉ S

theorem tries_le (outcome : ℕ → Except Err ρ) (i n : ℕ) : tries outcome i n ≤ n := by
  induction n generalizing i with
  | zero => exact le_rfl
  | succ n ih =>
    unfold tries
    cases outcome i with
    | ok result => exact Nat.succ_le_succ (Nat.zero_le n)
    | error err =>
      have hrest := ih (i + 1)
      show 1 + tries outcome (i + 1) n ≤ n + 1
      omega

/-- One call of `next` leaves every envelope as it is, and the maps of `S`. -/
theorem next_keeps {c : Callee V ρ} {S : Set ℕ} (hc : c.Spares S) {w : RetryWorld V}
    (hw : w.memory.Valid) (env : EnvelopeRef V) :
    Memory.Keeps S w.memory (retryExec c (.next env) w).2.memory := by
  have hadd : Memory.Keeps S w.memory (w.memory.addEnvelope env) :=
    (Memory.Keeps.refl hw).envelopes _
  exact hadd.trans (Memory.run_keeps hadd.valid fun a entries => hc _ _ _ a entries)

/-- The loop, after the first `i + 1` calls have failed. -/
theorem eval_retryFrom {c : Callee V ρ} {S : Set ℕ} (hc : c.Spares S) (orig : Envelope V) (n i : ℕ)
    {lastErr : Err} (hlast : c.outcome i = .error lastErr) {env : EnvelopeRef V} {w : RetryWorld V}
    (hw : w.memory.Valid) (hheld : w.memory.Held env) (hmaps : w.memory.MapsIn S env)
    (hread : w.memory.read env = redelivered errorText c.outcome orig i)
    (hcalls : w.calls = (List.range (i + 1)).map (redelivered errorText c.outcome orig)) :
    let r := ((retryFrom errorText n (i + 1 : ℕ) lastErr env).eval (retryExec c) w).2
    r.2.calls = (List.range (i + 1 + tries c.outcome (i + 1) n)).map
        (redelivered errorText c.outcome orig) ∧
      r.1 = .returned (c.outcome (i + tries c.outcome (i + 1) n)) ∧
      Memory.Keeps S w.memory r.2.memory := by
  induction n generalizing i lastErr env w with
  | zero => exact ⟨hcalls, congrArg Outcome.returned hlast.symm, .refl hw⟩
  | succ n ih =>
    -- the stamp is added in a new array
    set s : Stamp V := .redelivery (Int64.ofInt (i + 1 : ℕ)) (errorText lastErr) with hs
    have hnewKeeps : Memory.Keeps S w.memory (w.memory.withStamp env (.other s)).2 :=
      Memory.newRef_keeps hw _ _ _
    obtain ⟨hnewHeld, hmaps₁, hnewRead⟩ := Memory.withStamp_spec hw hmaps s
    set env₁ := (w.memory.withStamp env (.other s)).1
    set w₁ : RetryWorld V := { w with memory := (w.memory.withStamp env (.other s)).2 }
    have hread₁ : w₁.memory.read env₁ = redelivered errorText c.outcome orig (i + 1) := by
      have htext : textOf errorText c.outcome i = errorText lastErr := by simp [textOf, hlast]
      rw [redelivered_succ, ← hread, htext]
      exact hnewRead
    -- and `next` is called
    set w₂ := (retryExec c (.next env₁) w₁).2
    have hlen : w₁.calls.length = i + 1 := by
      show w.calls.length = i + 1
      simp [hcalls]
    have hcalls₂ : w₂.calls = (List.range (i + 1 + 1)).map
        (redelivered errorText c.outcome orig) := by
      show w.calls ++ [w₁.memory.read env₁] = _
      rw [hcalls, hread₁, List.range_succ (n := i + 1), List.map_append, List.map_singleton]
    have hnext : Memory.Keeps S w₁.memory w₂.memory := next_keeps hc hnewKeeps.valid env₁
    have hkeeps : Memory.Keeps S w.memory w₂.memory := hnewKeeps.trans hnext
    have hstep : ((retryFrom errorText (n + 1) (i + 1 : ℕ) lastErr env).eval (retryExec c) w).2 =
        ((onError (fun err => retryFrom errorText n ((i + 1 : ℕ) + 1) err env₁)
          (.returned (c.outcome w₁.calls.length))).eval (retryExec c) w₂).2 := rfl
    have hcast : ((i + 1 : ℕ) : ℤ) + 1 = (i + 1 + 1 : ℕ) := by push_cast; ring
    rw [hlen, hcast] at hstep
    rw [hstep]
    cases hout : c.outcome (i + 1) with
    | ok result =>
      refine ⟨?_, ?_, hkeeps⟩
      · simpa [tries, hout, onError, Prog.eval] using hcalls₂
      · simp [tries, hout, onError, Prog.eval]
    | error err =>
      obtain ⟨hc', hr, hk⟩ := ih (i + 1) hout hnext.valid (hnext.held _ hnewHeld)
        (hnext.mapsIn hnewHeld hmaps₁) ((hnext.read hnewHeld hmaps₁).trans hread₁) hcalls₂
      have htries : tries c.outcome (i + 1) (n + 1) = 1 + tries c.outcome (i + 1 + 1) n := by
        simp [tries, hout]
      refine ⟨?_, ?_, hkeeps.trans hk⟩
      · rw [htries, ← Nat.add_assoc]
        exact hc'
      · rw [htries, ← Nat.add_assoc]
        exact hr

/-- The whole call, of which the first round has no stamp to add. -/
theorem eval_retryHandle {c : Callee V ρ} {S : Set ℕ} (hc : c.Spares S) {m : Memory V}
    (hm : m.Valid) {env : EnvelopeRef V} (henv : m.Held env) (hmaps : m.MapsIn S env)
    (maxRetries : ℤ) :
    let r := ((retryHandle errorText maxRetries env).eval (retryExec c) ⟨m, []⟩).2
    let n := tries c.outcome 0 (maxRetries.toNat + 1)
    r.2.calls = (List.range n).map (redelivered errorText c.outcome (m.read env)) ∧
      r.1 = .returned (c.outcome (n - 1)) ∧ Memory.Keeps S m r.2.memory := by
  intro r n
  set w₁ := (retryExec c (.next env) ⟨m, []⟩).2
  have hkeeps : Memory.Keeps S m w₁.memory := next_keeps hc (w := ⟨m, []⟩) hm env
  have hstep : r = ((onError (fun err => retryFrom errorText maxRetries.toNat 1 err env)
      (.returned (c.outcome 0))).eval (retryExec c) w₁).2 := rfl
  have hcalls : w₁.calls = (List.range 1).map (redelivered errorText c.outcome (m.read env)) := by
    show [m.read env] = [redelivered errorText c.outcome (m.read env) 0]
    rw [redelivered_zero]
  have hread : w₁.memory.read env = redelivered errorText c.outcome (m.read env) 0 := by
    rw [redelivered_zero]
    exact hkeeps.read henv hmaps
  rw [hstep]
  cases hout : c.outcome 0 with
  | ok result =>
    have hn : n = 1 := by simp [n, tries, hout]
    rw [hn]
    exact ⟨hcalls, congrArg Outcome.returned hout.symm, hkeeps⟩
  | error err =>
    have hn : n = 1 + tries c.outcome 1 maxRetries.toNat := by simp [n, tries, hout]
    obtain ⟨hc', hr, hk⟩ := eval_retryFrom errorText hc (m.read env) maxRetries.toNat 0 hout
      hkeeps.valid (hkeeps.held env henv) (hkeeps.mapsIn henv hmaps) hread hcalls
    rw [hn, Nat.add_sub_cancel_left]
    simp only [Nat.zero_add] at hc' hr
    exact ⟨hc', hr, hkeeps.trans hk⟩

/-- **Retried dispatch.**  Let the calls of `next` do what they like with the envelopes they are
given, but not write to a map of a stamp of the original envelope.
* `next` is called up to and including its first success, but at most `max(MaxRetries, 0) + 1`
  times;
* call number `i + 1` is given the original envelope with `i` more redelivery stamps, of which the
  `j`-th carries the number `j`, which is an `int`, and the error text of call `j`;
* the result is that of the last call: the first success, or else its error;
* and the original envelope is unchanged. -/
theorem retry_exact {maxRetries : ℤ} (hmax : maxRetries < 2 ^ 63 - 1) {c : Callee V ρ}
    {m : Memory V} (hm : m.Valid) {env : EnvelopeRef V} (henv : m.Held env)
    (hspares : ∀ s ∈ m.stampsOf env, ∀ a, s.map = some a → c.Spares {a}) :
    let r := ((retryHandle errorText maxRetries env).eval (retryExec c) ⟨m, []⟩).2
    ∃ n, r.2.calls = (List.range n).map (redelivered errorText c.outcome (m.read env)) ∧
      (∀ j : ℕ, j < n → (Int64.ofNat j).toInt = j) ∧
      (∀ k result, c.outcome k = .ok result → (∀ j < k, ∃ err, c.outcome j = .error err) →
        (n : ℤ) = min ((k : ℤ) + 1) (max maxRetries 0 + 1)) ∧
      ((∀ j, ∃ err, c.outcome j = .error err) → (n : ℤ) = max maxRetries 0 + 1) ∧
      r.1 = .returned (c.outcome (n - 1)) ∧ r.2.memory.read env = m.read env := by
  intro r
  set S : Set ℕ := {a | ∃ s ∈ m.stampsOf env, s.map = some a}
  have hc : c.Spares S := by
    rintro i m' env' a entries hmem ⟨s, hs, ha⟩
    exact hspares s hs a ha i m' env' a entries hmem rfl
  have hmaps : m.MapsIn S env := fun s hs a ha => ⟨s, hs, ha⟩
  obtain ⟨hcalls, hresult, hkeeps⟩ := eval_retryHandle errorText hc hm henv hmaps maxRetries
  have hcount : ((maxRetries.toNat + 1 : ℕ) : ℤ) = max maxRetries 0 + 1 := by omega
  refine ⟨tries c.outcome 0 (maxRetries.toNat + 1), hcalls, fun j hj => ?_, ?_, ?_, hresult,
    hkeeps.read henv hmaps⟩
  · have hle := tries_le c.outcome 0 (maxRetries.toNat + 1)
    exact Int64.toInt_ofNat_of_lt (by omega)
  · intro k result hk hbefore
    rw [← Nat.zero_add k] at hk
    have htries := tries_of_success hk (by simpa using hbefore) (maxRetries.toNat + 1)
    rw [htries]
    omega
  · intro hfailed
    rw [tries_of_failures hfailed, hcount]

/-! ### Calls that write -/

/-- The maps of a program: one with the headers of a trace. -/
def traceMaps (a : ℕ) : List (String × String) := if a = 0 then [("traceparent", "00-01")] else []

/-- An envelope with a redelivery stamp and a `TraceStamp`. -/
def tracedEnvelope : List (EnvelopeOp String) :=
  [.make [.other (.redelivery 9 "earlier"), .trace "t" "s" (some 0)], .newEnvelope "order" 0 5]

/-- The memory with this envelope. -/
def tracedMemory : Memory String := tracedEnvelope.foldl Memory.step (.init traceMaps)

/-- The envelope in this memory. -/
def tracedRef : EnvelopeRef String := ⟨"order", some 1, 5⟩

/-- A function whose third call succeeds. -/
def thirdSucceeds (ops : List (EnvelopeOp String)) : Callee String ℕ :=
  ⟨fun _ _ _ => ops, fun i => if i = 2 then .ok 7 else .error (.msg "busy")⟩

/-- Two calls that fail and write to every slice they get and to a map of their own; the third one
succeeds. -/
theorem retry_exact_thirdCall :
    let c := thirdSucceeds [.stamps 0, .write 0 0 (.other .forceSync),
      .write 1 0 (.other .forceSync), .setMessage 1 "changed",
      .writeMap 1 [("traceparent", "00-02")]]
    let orig : Envelope String :=
      ⟨"order", [.redelivery 9 "earlier", .trace "t" "s" [("traceparent", "00-01")]], 5⟩
    let r := ((retryHandle (fun _ => "busy") 5 tracedRef).eval (retryExec c) ⟨tracedMemory, []⟩).2
    r.2.calls = (List.range 3).map (redelivered (fun _ => "busy") c.outcome orig) ∧
      r.1 = .returned (.ok 7) ∧ r.2.memory.read tracedRef = orig := by
  intro c orig
  obtain ⟨hvalid, hheld⟩ := Memory.held_of_run traceMaps tracedEnvelope
  have hspares : ∀ s ∈ tracedMemory.stampsOf tracedRef, ∀ a, s.map = some a → c.Spares {a} := by
    intro s hs a ha i m env b entries hmem
    have hb : b = 1 := by
      simp only [c, thirdSucceeds, List.mem_cons, List.not_mem_nil, reduceCtorEq, or_false,
        false_or, EnvelopeOp.writeMap.injEq] at hmem
      exact hmem.1
    have ha0 : a = 0 := by
      rcases List.mem_pair.1 hs with rfl | rfl <;> cases ha
      rfl
    simp [hb, ha0]
  obtain ⟨n, hcalls, -, hn, -, hresult, hread⟩ := retry_exact (fun _ => "busy")
    (show (5 : ℤ) < 2 ^ 63 - 1 by decide) hvalid
      (hheld tracedRef (List.mem_singleton.2 rfl)) hspares
  have hthree : (n : ℤ) = 3 := hn 2 7 rfl fun j hj => ⟨.msg "busy", if_neg (Nat.ne_of_lt hj)⟩
  obtain rfl : n = 3 := by omega
  exact ⟨hcalls, hresult, hread⟩

/-- The first call adds an entry to the headers of the `TraceStamp`, and the second one is given an
envelope with this entry. -/
theorem header_seen :
    let c := thirdSucceeds [.writeMap 0 [("baggage", "k=v"), ("traceparent", "00-01")]]
    let r := ((retryHandle (fun _ => "busy") 5 tracedRef).eval (retryExec c) ⟨tracedMemory, []⟩).2
    tracedMemory.Valid ∧ tracedMemory.Held tracedRef ∧
      r.2.calls[1]? = some ⟨"order", [.redelivery 9 "earlier",
        .trace "t" "s" [("baggage", "k=v"), ("traceparent", "00-01")], .redelivery 1 "busy"], 5⟩ ∧
      r.2.calls[1]? ≠
        some (redelivered (fun _ => "busy") c.outcome (tracedMemory.read tracedRef) 1) := by
  intro c r
  obtain ⟨hvalid, hheld⟩ := Memory.held_of_run traceMaps tracedEnvelope
  have hsecond : r.2.calls[1]? = some ⟨"order", [.redelivery 9 "earlier",
      .trace "t" "s" [("baggage", "k=v"), ("traceparent", "00-01")], .redelivery 1 "busy"],
        5⟩ := rfl
  refine ⟨hvalid, hheld tracedRef (List.mem_singleton.2 rfl), hsecond, ?_⟩
  rw [hsecond]
  intro heq
  have hstamps := congrArg Envelope.stamps (Option.some.inj heq)
  revert hstamps
  decide

end

end WolfCore.Messenger
