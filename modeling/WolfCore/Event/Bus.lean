import WolfCore.Event.Basic
import WolfCore.Lib.Slices
import WolfCore.Lib.Threads

/-!
# Event buses and dispatchers (`event/bus.go`, `event/dispatcher.go`)

`InMemoryBus` has a slice of handlers for each type of event.  `Subscribe` appends to it under a
lock, often in place; `Publish` takes the slice under the lock, but goes through it without.  An
`EventDispatcher` has one slice of handlers, which `Register` replaces by a longer copy, while
`Dispatch` goes through the slice it has loaded.

* `machine`: any number of goroutines that do all of this with a bus and with dispatchers;
* `registered p h`: the handlers registered at a place, in their order;
* `handlers_of_snapshot`: every `Publish` and every `Dispatch` calls the handlers that were
  registered when it took the slice, in their order, up to the first that fails.
-/

namespace WolfCore.EventBus

open Go Interleave

/-- Where handlers are registered: with the bus, for a type of event, or with a dispatcher. -/
inductive Place (κ : Type)
  | bus (eventType : String)
  | dispatcher (d : κ)
  deriving DecidableEq

inductive Request (κ V H : Type)
  | subscribe (eventType : String) (handler : H)
  | publish (evt : Event V)
  | register (d : κ) (handler : H)
  | dispatch (d : κ) (evt : Event V)

/-- The effects; a handler of a dispatcher gets the payload as well. -/
inductive Cmd (κ V P H : Type)
  | accept
  | add (p : Place κ) (handler : H)
  | load (p : Place κ)
  | read (s : Slice) (i : ℕ)
  | call (handler : H) (evt : Event V) (payload : Option P)
  | respond (request : Request κ V H) (result : Outcome (Option Err))

abbrev Reply (κ V P H : Type) : Cmd κ V P H → Type
  | .accept => Request κ V H
  | .load _ => Slice
  | .read _ _ => Option H
  | .call _ _ _ => Outcome (Option Err)
  | .add _ _ | .respond _ _ => Unit

/-- The types of the payloads of dispatchers: the assertions to `T` and to `*T`, with what the
pointer points to unless it is nil, and what `%T` prints. -/
structure Types (κ V P : Type) where
  asValue : κ → Option V → Option P
  asPointer : κ → Option V → Option (Option P)
  expected : κ → String
  dynamic : Option V → String

section

variable {κ V P H : Type}

/-- The panic of a nil pointer or a nil function. -/
def nilDereference : Outcome (Option Err) :=
  .panicked "invalid memory address or nil pointer dereference"

/-- `for _, h := range handlers { if err := h(…); err != nil { return err } }`, from the `i`-th
handler on, of which there are `n`. -/
def runHandlers (s : Slice) (evt : Event V) (payload : Option P) :
    ℕ → ℕ → Prog (Reply κ V P H) (Outcome (Option Err))
  | _, 0 => .pure (.returned none)
  | i, n + 1 => .call (.read s i) fun
      | none => .pure nilDereference
      | some handler => .call (.call handler evt payload) fun
          | .returned none => runHandlers s evt payload (i + 1) n
          | result => .pure result

/-- `InMemoryBus.Publish`. -/
def publish (evt : Event V) : Prog (Reply κ V P H) (Outcome (Option Err)) :=
  .call (.load (.bus evt.eventType)) fun s => runHandlers s evt none 0 s.len

/-- The payload that a dispatcher hands on, if it is of the right type; none behind a nil
pointer. -/
def Types.payload (types : Types κ V P) (d : κ) (evt : Event V) : Option (Option P) :=
  match types.asValue d evt.payload with
  | some payload => some (some payload)
  | none => types.asPointer d evt.payload

/-- The error for a payload of another type. -/
def Types.mismatch (types : Types κ V P) (d : κ) (evt : Event V) : Err :=
  .msg ("event: dispatcher expected payload type " ++ types.expected d ++ ", got " ++
    types.dynamic evt.payload)

/-- `EventDispatcher.Dispatch`. -/
def dispatch (types : Types κ V P) (d : κ) (evt : Event V) :
    Prog (Reply κ V P H) (Outcome (Option Err)) :=
  .call (.load (.dispatcher d)) fun s =>
    match types.payload d evt with
    | none => .pure (.returned (some (types.mismatch d evt)))
    | some none => .pure nilDereference
    | some (some payload) => runHandlers s evt (some payload) 0 s.len

def handle (types : Types κ V P) : Request κ V H → Prog (Reply κ V P H) (Outcome (Option Err))
  | .subscribe eventType handler =>
      .call (.add (.bus eventType) handler) fun _ => .pure (.returned none)
  | .publish evt => publish evt
  | .register d handler => .call (.add (.dispatcher d) handler) fun _ => .pure (.returned none)
  | .dispatch d evt => dispatch types d evt

/-! ### The memory -/

/-- The arrays of handlers, and the slices that the bus and the dispatchers have. -/
structure State (κ H : Type) where
  arrays : Arrays (Option H)
  slices : Place κ → Slice

def State.new : State κ H := ⟨Arrays.init, fun _ => Slice.nil⟩

/-- What is not determined about an effect. -/
structure Choice (κ V H : Type) where
  request : Request κ V H
  /-- the room that `append` leaves in a new array -/
  extra : ℕ
  result : Outcome (Option Err)

/-- The arrays and the slice after a registration: `append`, or a copy that is longer by one. -/
def extend (arrays : Arrays (Option H)) (s : Slice) (handler : H) (extra : ℕ) :
    Place κ → Arrays (Option H) × Slice
  | .bus _ => s.append arrays (some handler) none extra
  | .dispatcher _ => (arrays.alloc (s.elems arrays ++ [some handler]), ⟨arrays.size, s.len + 1⟩)

variable [DecidableEq κ]

def exec : (e : Cmd κ V P H) → Choice κ V H → State κ H → Reply κ V P H e × State κ H
  | .accept, o, st => (o.request, st)
  | .add p handler, o, st => ((), ⟨(extend st.arrays (st.slices p) handler o.extra p).1,
      Function.update st.slices p (extend st.arrays (st.slices p) handler o.extra p).2⟩)
  | .load p, _, st => (st.slices p, st)
  | .read s i, _, st => ((st.arrays.get s.addr)[i]?.join, st)
  | .call _ _ _, o, st => (o.result, st)
  | .respond _ _, _, st => ((), st)

def machine (types : Types κ V P) :
    Machine (Reply κ V P H) (State κ H) (Choice κ V H) Unit Empty where
  exec := exec
  body := fun _ _ => serve .accept .respond (handle types)
  boot := fun _ => ()
  env := fun a => a.elim

/-! ### What is registered -/

/-- The handler that a command registers at a place. -/
def addedTo (p : Place κ) : Cmd κ V P H → Option H
  | .add p' handler => if p' = p then some handler else none
  | _ => none

/-- The handlers registered at a place, in their order. -/
def registered (p : Place κ) : History (Reply κ V P H) → List H
  | [] => []
  | ev :: h => registered p h ++ (addedTo p ev.cmd).toList

theorem registered_prefix (p : Place κ) {h h' : History (Reply κ V P H)} (hs : h <:+ h') :
    registered p h <+: registered p h' := by
  obtain ⟨l, rfl⟩ := hs
  induction l with
  | nil => exact List.prefix_rfl
  | cons ev l ih => exact ih.trans (List.prefix_append _ _)

theorem getElem?_registered (p : Place κ) {h h' : History (Reply κ V P H)} (hs : h <:+ h') {k : ℕ}
    (hk : k < (registered p h).length) : (registered p h')[k]? = (registered p h)[k]? := by
  obtain ⟨l, hl⟩ := registered_prefix p hs
  rw [← hl, List.getElem?_append_left hk]

/-! ### What the memory has -/

section

variable {arrays : Arrays (Option H)} {s t : Slice} {p : Place κ}

omit [DecidableEq κ] in
theorem extend_spec (hs : s.Valid arrays) (handler : H) (extra : ℕ) (p : Place κ) :
    (extend arrays s handler extra p).2.Valid (extend arrays s handler extra p).1 ∧
      (extend arrays s handler extra p).2.elems (extend arrays s handler extra p).1 =
        s.elems arrays ++ [some handler] := by
  cases p with
  | bus eventType => exact hs.append (some handler) none extra
  | dispatcher d =>
    have hlen := hs.length_elems
    refine ⟨⟨by simp [extend], by simp [extend, hlen]⟩, ?_⟩
    rw [Slice.elems, extend, Arrays.get_alloc_self, List.take_of_length_le (by simp [hlen])]

omit [DecidableEq κ] in
theorem keeps_extend (ht : t.Valid arrays) (hst : t.addr = s.addr → t.len ≤ s.len) (handler : H)
    (extra : ℕ) (p : Place κ) : t.Keeps arrays (extend arrays s handler extra p).1 := by
  cases p with
  | bus eventType => exact ht.keeps_append hst ..
  | dispatcher d => exact ht.keeps_alloc _

omit [DecidableEq κ] in
/-- The longer slice is where the slice was, if there is room, or in a new array. -/
theorem addr_extend (arrays : Arrays (Option H)) (s : Slice) (handler : H) (extra : ℕ)
    (p : Place κ) :
    ((extend arrays s handler extra p).2.addr = s.addr ∧ arrays.get s.addr ≠ []) ∨
      (extend arrays s handler extra p).2.addr = arrays.size := by
  cases p with
  | dispatcher d => exact Or.inr rfl
  | bus eventType =>
    rw [extend, Slice.append]
    split_ifs with hroom
    · refine Or.inl ⟨rfl, fun hempty => ?_⟩
      rw [hempty] at hroom
      exact absurd hroom (Nat.not_lt_zero _)
    · exact Or.inr rfl

omit [DecidableEq κ] in
theorem len_extend (handler : H) (extra : ℕ) (p : Place κ) :
    (extend arrays s handler extra p).2.len = s.len + 1 := by
  cases p with
  | dispatcher d => rfl
  | bus eventType =>
    rw [extend, Slice.append]
    split_ifs <;> rfl

omit [DecidableEq κ] in
theorem get_zero_extend (hs : s.Valid arrays) (hempty : arrays.get 0 = []) (handler : H) (extra : ℕ)
    (p : Place κ) : (extend arrays s handler extra p).1.get 0 = [] := by
  have hsize : 0 < arrays.size := Nat.lt_of_le_of_lt (Nat.zero_le _) hs.addr_lt
  cases p with
  | dispatcher d => rw [extend, Arrays.get_alloc_of_lt hsize, hempty]
  | bus eventType =>
    rw [extend, Slice.append]
    split_ifs with hroom
    · have hne : s.addr ≠ 0 := by
        intro h0
        rw [h0, hempty] at hroom
        exact absurd hroom (Nat.not_lt_zero _)
      rw [Arrays.get_write_of_ne hne, hempty]
    · rw [Arrays.get_alloc_of_lt hsize, hempty]

end

variable {st : State κ H} {h : History (Reply κ V P H)}

/-- A slice that the place has, or that a goroutine has loaded from there. -/
def Known (st : State κ H) (h : History (Reply κ V P H)) (p : Place κ) (s : Slice) : Prop :=
  s = st.slices p ∨ ∃ i, ⟨i, .load p, s⟩ ∈ h

/-- Known slices have the first handlers of their place. -/
structure Inv (st : State κ H) (h : History (Reply κ V P H)) : Prop where
  valid : ∀ {p s}, Known st h p s → s.Valid st.arrays
  elems : ∀ {p s}, Known st h p s → s.elems st.arrays = ((registered p h).take s.len).map some
  bounded : ∀ {p s p'}, Known st h p s → s.addr = (st.slices p').addr → s.len ≤ (st.slices p').len
  full : ∀ p, (st.slices p).len = (registered p h).length
  /-- only nil slices share their array -/
  apart : ∀ {p p'}, p ≠ p' → (st.slices p).addr = (st.slices p').addr → (st.slices p).addr = 0
  empty : st.arrays.get 0 = []

theorem inv_new : Inv (State.new : State κ H) ([] : History (Reply κ V P H)) := by
  have hnil : ∀ {p : Place κ} {s : Slice},
      Known (State.new : State κ H) ([] : History (Reply κ V P H)) p s → s = Slice.nil := by
    rintro p s (rfl | ⟨i, hmem⟩)
    · rfl
    · cases hmem
  refine ⟨fun hk => hnil hk ▸ Slice.valid_nil, fun hk => ?_, fun hk _ => ?_, fun _ => rfl,
    fun _ _ => rfl, rfl⟩
  · rw [hnil hk]
    rfl
  · rw [hnil hk]
    exact Nat.zero_le _

/-- An event that registers nothing; what it loads is what the place has. -/
theorem Inv.quiet (hinv : Inv st h) {ev : Logged (Reply κ V P H)}
    (hadd : ∀ p, addedTo p ev.cmd = none)
    (hload : ∀ i p s, ev = ⟨i, .load p, s⟩ → s = st.slices p) : Inv st (ev :: h) := by
  have hknown : ∀ {p s}, Known st (ev :: h) p s → Known st h p s := by
    rintro p s (rfl | ⟨i, hmem⟩)
    · exact Or.inl rfl
    · rcases List.mem_cons.1 hmem with heq | hmem'
      · exact Or.inl (hload i p s heq.symm)
      · exact Or.inr ⟨i, hmem'⟩
  have hreg : ∀ p, registered p (ev :: h) = registered p h := by
    intro p
    rw [registered, hadd]
    exact List.append_nil _
  refine ⟨fun hk => hinv.valid (hknown hk), fun {p s} hk => ?_, fun hk => hinv.bounded (hknown hk),
    fun p => ?_, hinv.apart, hinv.empty⟩
  · rw [hreg]
    exact hinv.elems (hknown hk)
  · rw [hreg]
    exact hinv.full p

theorem Inv.len_le (hinv : Inv st h) {p : Place κ} {s : Slice} (hk : Known st h p s) :
    s.len ≤ (registered p h).length := by
  have hsame := congrArg List.length (hinv.elems hk)
  rw [(hinv.valid hk).length_elems, List.length_map, List.length_take] at hsame
  omega

section

variable {p q : Place κ} {t : Slice} {handler : H} {extra : ℕ}

/-- A known slice that shares the array of the longer slice was there when it was extended in
place. -/
theorem Inv.addr_eq (hinv : Inv st h) (hk : Known st h q t)
    (heq : t.addr = (extend st.arrays (st.slices p) handler extra p).2.addr) :
    t.addr = (st.slices p).addr ∧ st.arrays.get t.addr ≠ [] := by
  rcases addr_extend st.arrays (st.slices p) handler extra p with ⟨hsame, hne⟩ | hnew
  · have haddr : t.addr = (st.slices p).addr := heq.trans hsame
    exact ⟨haddr, haddr ▸ hne⟩
  · have hlt := (hinv.valid hk).addr_lt
    rw [heq, hnew] at hlt
    exact absurd hlt (Nat.lt_irrefl _)

/-- The slice of another place is in another array. -/
theorem Inv.addr_ne (hinv : Inv st h) (hq : q ≠ p) :
    (st.slices q).addr ≠ (extend st.arrays (st.slices p) handler extra p).2.addr := by
  intro heq
  obtain ⟨hsame, hne⟩ := hinv.addr_eq (Or.inl rfl) heq
  have hzero := hinv.apart hq hsame
  exact hne (hzero ▸ hinv.empty)

theorem known_add {i : ℕ} {o : Choice κ V H}
    (hk : Known (exec (.add p handler : Cmd κ V P H) o st).2
      (⟨i, .add p handler, ()⟩ :: h : History (Reply κ V P H)) q t) :
    (q = p ∧ t = (extend st.arrays (st.slices p) handler o.extra p).2) ∨ Known st h q t := by
  rcases hk with rfl | ⟨j, hmem⟩
  · by_cases hq : q = p
    · subst hq
      exact Or.inl ⟨rfl, Function.update_self ..⟩
    · exact Or.inr (Or.inl (Function.update_of_ne hq ..))
  · exact Or.inr (Or.inr ⟨j, (List.mem_cons.1 hmem).resolve_left nofun⟩)

theorem registered_add (i : ℕ) (p q : Place κ) (handler : H) :
    registered q (⟨i, .add p handler, ()⟩ :: h : History (Reply κ V P H)) =
      registered q h ++ if p = q then [handler] else [] := by
  rw [registered, addedTo]
  split_ifs <;> rfl

end

theorem Inv.add (hinv : Inv st h) (i : ℕ) (p : Place κ) (handler : H) (o : Choice κ V H) :
    Inv (exec (.add p handler : Cmd κ V P H) o st).2
      (⟨i, .add p handler, ()⟩ :: h : History (Reply κ V P H)) := by
  have hcur := hinv.valid (Or.inl rfl : Known st h p (st.slices p))
  obtain ⟨hvalid, helems⟩ := extend_spec hcur handler o.extra p
  have hlen : (extend st.arrays (st.slices p) handler o.extra p).2.len = (st.slices p).len + 1 :=
    len_extend ..
  have hkeeps : ∀ {q t}, Known st h q t →
      t.Keeps st.arrays (extend st.arrays (st.slices p) handler o.extra p).1 :=
    fun hk => keeps_extend (hinv.valid hk) (hinv.bounded hk) ..
  have hslices : ∀ q, (exec (.add p handler : Cmd κ V P H) o st).2.slices q =
      if q = p then (extend st.arrays (st.slices p) handler o.extra p).2 else st.slices q :=
    fun q => Function.update_apply ..
  refine ⟨fun {q t} hk => ?_, fun {q t} hk => ?_, fun {q t q'} hk heq => ?_, fun q => ?_,
    fun {q q'} hq heq => ?_, get_zero_extend hcur hinv.empty ..⟩
  · rcases known_add hk with ⟨rfl, rfl⟩ | hk'
    · exact hvalid
    · exact (hkeeps hk').1
  · rcases known_add hk with ⟨rfl, rfl⟩ | hk'
    · refine helems.trans ?_
      rw [hinv.elems (Or.inl rfl), registered_add, if_pos rfl, hlen, hinv.full, List.take_length,
        List.take_of_length_le (by simp), List.map_append]
      rfl
    · refine (hkeeps hk').2.trans ?_
      rw [hinv.elems hk', registered_add, List.take_append_of_le_length (hinv.len_le hk')]
  · rw [hslices] at heq ⊢
    rcases known_add hk with ⟨rfl, rfl⟩ | hk'
    · split_ifs at heq ⊢ with hq
      · exact Nat.le_refl _
      · exact absurd heq.symm (hinv.addr_ne hq)
    · split_ifs at heq ⊢ with hq
      · have hbound := hinv.bounded hk' (hinv.addr_eq hk' heq).1
        omega
      · exact hinv.bounded hk' heq
  · rw [hslices, registered_add]
    by_cases hq : q = p
    · subst hq
      rw [if_pos rfl, if_pos rfl, hlen, hinv.full, List.length_append]
      rfl
    · rw [if_neg hq, if_neg (Ne.symm hq), List.append_nil, hinv.full]
  · -- only slices that were there before can be nil slices of one array
    rw [hslices] at heq ⊢
    rw [hslices] at heq
    by_cases hp : q = p
    · subst hp
      rw [if_pos rfl, if_neg (Ne.symm hq)] at heq
      exact absurd heq.symm (hinv.addr_ne (Ne.symm hq))
    · rw [if_neg hp] at heq ⊢
      by_cases hp' : q' = p
      · rw [if_pos hp'] at heq
        exact absurd heq (hinv.addr_ne hp)
      · rw [if_neg hp'] at heq
        exact hinv.apart hq heq

/-- What a goroutine sees: as many handlers as there are, and those that are registered. -/
def Sees : Logged (Reply κ V P H) → History (Reply κ V P H) → Prop
  | ⟨_, .load p, s⟩, h => s.len = (registered p h).length
  | ⟨_, .read s j, r⟩, h => ∀ i p, ⟨i, .load p, s⟩ ∈ h → j < s.len →
      ∃ handler, r = some handler ∧ (registered p h)[j]? = some handler
  | _, _ => True

theorem Inv.sees (hinv : Inv st h) (i : ℕ) (e : Cmd κ V P H) (o : Choice κ V H) :
    Sees ⟨i, e, (exec e o st).1⟩ h := by
  cases e with
  | load p => exact hinv.full p
  | read s j =>
    intro i' p hmem hj
    have hk : Known st h p s := Or.inr ⟨i', hmem⟩
    have hget : (st.arrays.get s.addr)[j]? = ((registered p h).take s.len)[j]?.map some := by
      rw [← List.getElem?_map, ← hinv.elems hk, Slice.elems, List.getElem?_take_of_lt hj]
    have hlen : j < ((registered p h).take s.len).length := by
      have hle := hinv.len_le hk
      rw [List.length_take]
      omega
    obtain ⟨handler, hhandler⟩ : ∃ handler, ((registered p h).take s.len)[j]? = some handler :=
      ⟨_, List.getElem?_eq_getElem hlen⟩
    refine ⟨handler, ?_, ?_⟩
    · simp only [exec]
      rw [hget, hhandler]
      rfl
    · rwa [List.getElem?_take_of_lt hj] at hhandler
  | _ => trivial

/-- The memory and the history agree in every run. -/
theorem inv_run (types : Types κ V P) (as : List (Action (Choice κ V H) Empty)) :
    let p := (Pool.boot (machine types) State.new).run (machine types) as
    Inv p.shared p.hist ∧ Throughout Sees p.hist := by
  intro p
  refine (Along.state_invariant (machine types) (I := fun st h => Inv st h ∧ Throughout Sees h)
    (Q := fun _ _ _ _ _ => True) ?_ (fun a => a.elim) (p := Pool.boot (machine types) State.new)
    ⟨inv_new, trivial⟩ (.of_mem _ (fun a _ p => .of_forall (fun _ _ _ _ _ => trivial) p a) _)).2
  rintro i e o st h ⟨hinv, hsees⟩ -
  refine ⟨?_, hinv.sees i e o, hsees⟩
  cases e with
  | add p handler => exact hinv.add i p handler o
  | load p =>
    refine hinv.quiet (fun _ => rfl) ?_
    rintro _ _ _ ⟨⟩
    rfl
  | _ => exact hinv.quiet (fun _ => rfl) nofun

end

/-! ### Calls -/

section

variable {κ V P H : Type}

/-- The first command of a call. -/
def opens : Cmd κ V P H → Bool
  | .accept => true
  | _ => false

/-- The last command of a call. -/
def closes : Cmd κ V P H → Bool
  | .respond _ _ => true
  | _ => false

theorem only_runHandlers (s : Slice) (evt : Event V) (payload : Option P) (i n : ℕ) :
    Only (fun e => opens e = false ∧ closes e = false)
      (runHandlers s evt payload i n : Prog (Reply κ V P H) _) := by
  induction n generalizing i with
  | zero => trivial
  | succ n ih =>
    refine ⟨⟨rfl, rfl⟩, fun r => ?_⟩
    cases r with
    | none => trivial
    | some handler =>
      refine ⟨⟨rfl, rfl⟩, fun r => ?_⟩
      rcases r with (_ | err) | msg
      · exact ih (i + 1)
      · trivial
      · trivial

theorem serves (types : Types κ V P) : Serves (R := Reply κ V P H) .accept .respond (handle types)
    opens closes where
  accepts := rfl
  responds := fun _ _ => ⟨rfl, rfl⟩
  injective := by
    rintro _ _ _ _ ⟨⟩
    exact ⟨rfl, rfl⟩
  handles := by
    intro request
    cases request with
    | publish evt => exact ⟨⟨rfl, rfl⟩, fun s => only_runHandlers s evt none 0 s.len⟩
    | dispatch d evt =>
      refine ⟨⟨rfl, rfl⟩, fun s => ?_⟩
      rcases types.payload d evt with _ | _ | payload
      · trivial
      · trivial
      · exact only_runHandlers s evt (some payload) 0 s.len
    | _ => exact ⟨⟨rfl, rfl⟩, fun _ => trivial⟩
  distinct := rfl

/-- A call of a handler, and how it ended. -/
structure Called (V P H : Type) where
  handler : H
  evt : Event V
  payload : Option P
  result : Outcome (Option Err)

/-- The calls of handlers among some exchanges. -/
def calls : List (Exchange (Reply κ V P H)) → List (Called V P H)
  | [] => []
  | ⟨.call handler evt payload, result⟩ :: l => ⟨handler, evt, payload, result⟩ :: calls l
  | _ :: l => calls l

/-- The handlers were called one after the other, up to the first that did not return nil. -/
def Ran (handlers : List H) (evt : Event V) (payload : Option P) (result : Outcome (Option Err))
    (called : List (Called V P H)) : Prop :=
  (result = .returned none ∧
    called = handlers.map fun handler => ⟨handler, evt, payload, .returned none⟩) ∨
  (result ≠ .returned none ∧ ∃ before handler after, handlers = before ++ handler :: after ∧
    called = (before.map fun handler => ⟨handler, evt, payload, .returned none⟩) ++
      [⟨handler, evt, payload, result⟩])

theorem Ran.cons {handlers : List H} {evt : Event V} {payload : Option P}
    {result : Outcome (Option Err)} {called : List (Called V P H)}
    (h : Ran handlers evt payload result called) (handler : H) :
    Ran (handler :: handlers) evt payload result
      (⟨handler, evt, payload, .returned none⟩ :: called) := by
  rcases h with ⟨hnil, rfl⟩ | ⟨hne, before, failed, after, rfl, rfl⟩
  · exact Or.inl ⟨hnil, rfl⟩
  · exact Or.inr ⟨hne, handler :: before, failed, after, rfl, rfl⟩

/-- What the loop does, if it reads these handlers. -/
theorem ran_of_execution {s : Slice} {evt : Event V} {payload : Option P} {i n : ℕ}
    {l : List (Exchange (Reply κ V P H))} {result : Outcome (Option Err)} {handlers : List H}
    (hexec : Execution (runHandlers s evt payload i n) l result) (hlen : handlers.length = n)
    (hread : ∀ k r, k < n → ⟨.read s (i + k), r⟩ ∈ l → r = handlers[k]?) :
    Ran handlers evt payload result (calls l) := by
  induction n generalizing i l handlers with
  | zero =>
    obtain ⟨rfl, rfl⟩ := execution_pure.1 hexec
    rw [List.length_eq_zero_iff.1 hlen]
    exact Or.inl ⟨rfl, rfl⟩
  | succ n ih =>
    obtain ⟨r, l, rfl, hrest⟩ := execution_call.1 hexec
    obtain ⟨handler, handlers, rfl⟩ := List.exists_cons_of_length_eq_add_one hlen
    have hr : r = some handler := hread 0 r (Nat.succ_pos n) List.mem_cons_self
    subst hr
    obtain ⟨o, l, rfl, hnext⟩ := execution_call.1 hrest
    rcases o with (_ | err) | msg
    · refine (ih hnext (Nat.succ.inj hlen) fun k r hk hmem => ?_).cons handler
      refine hread (k + 1) r (Nat.succ_lt_succ hk)
        (List.mem_cons_of_mem _ (List.mem_cons_of_mem _ ?_))
      rwa [show i + (k + 1) = i + 1 + k by omega]
    · obtain ⟨rfl, rfl⟩ := execution_pure.1 hnext
      exact Or.inr ⟨nofun, [], handler, handlers, rfl, rfl⟩
    · obtain ⟨rfl, rfl⟩ := execution_pure.1 hnext
      exact Or.inr ⟨nofun, [], handler, handlers, rfl, rfl⟩

variable [DecidableEq κ]

/-- The call of a goroutine has taken the handlers of a place when `h₀` was the history, and has
gone through those that were registered then. -/
def RanSnapshot (i : ℕ) (h : History (Reply κ V P H)) (request : Request κ V H) (p : Place κ)
    (evt : Event V) (payload : Option P) (result : Outcome (Option Err)) : Prop :=
  ∃ h₀ s, ⟨i, .load p, s⟩ :: h₀ <:+ h ∧ own opens i h₀ = [⟨.accept, request⟩] ∧
    Ran (registered p h₀) evt payload result (calls (own opens i h))

theorem ranSnapshot_of_execution {i : ℕ} {h : History (Reply κ V P H)} {request : Request κ V H}
    {p : Place κ} {evt : Event V} {payload : Option P} {result : Outcome (Option Err)} {s : Slice}
    {l : List (Exchange (Reply κ V P H))} (hsees : Throughout Sees h)
    (hown : own opens i h = ⟨.accept, request⟩ :: ⟨.load p, s⟩ :: l)
    (hexec : Execution (runHandlers s evt payload 0 s.len) l result) :
    RanSnapshot i h request p evt payload result := by
  obtain ⟨h₀, hs₀, hown₀⟩ := own_split (List.cons_ne_nil _ []) hown
  obtain ⟨l₀, heq₀⟩ := hs₀
  have hlen : Sees (⟨i, .load p, s⟩ : Logged (Reply κ V P H)) h₀ := by
    rw [← heq₀] at hsees
    exact hsees.split
  refine ⟨h₀, s, ⟨l₀, heq₀⟩, hown₀, ?_⟩
  rw [hown]
  show Ran (registered p h₀) evt payload result (calls l)
  refine ran_of_execution hexec hlen.symm fun k r hk hmem => ?_
  rw [Nat.zero_add] at hmem
  obtain ⟨l₁, l₂, rfl⟩ := List.append_of_mem hmem
  -- the read came after the load of this call
  have hsplit : own opens i h =
      (⟨.accept, request⟩ :: ⟨.load p, s⟩ :: l₁) ++ ⟨.read s k, r⟩ :: l₂ := hown
  obtain ⟨h₁, hs₁, hown₁⟩ := own_split (List.cons_ne_nil _ _) hsplit
  have hload : ⟨i, .load p, s⟩ ∈ h₁ := by
    have hx : (⟨.load p, s⟩ : Exchange (Reply κ V P H)) ∈ own opens i h₁ := by
      rw [hown₁]
      exact List.mem_cons_of_mem _ List.mem_cons_self
    exact mem_of_mem_own hx
  have hread : Sees (⟨i, .read s k, r⟩ : Logged (Reply κ V P H)) h₁ := by
    obtain ⟨l₃, heq₁⟩ := hs₁
    rw [← heq₁] at hsees
    exact hsees.split
  obtain ⟨handler, rfl, hhandler⟩ := hread i p hload hk
  have hbefore := getElem?_registered p ((List.suffix_cons _ h₁).trans hs₁)
    (List.getElem?_eq_some_iff.1 hhandler).1
  have hmoment := getElem?_registered p ((List.suffix_cons _ h₀).trans ⟨l₀, heq₀⟩) (hlen ▸ hk)
  rw [← hmoment, hbefore, hhandler]

/-- What is answered to a call that goes through handlers. -/
def Answers (types : Types κ V P) : Logged (Reply κ V P H) → History (Reply κ V P H) → Prop
  | ⟨i, .respond (.publish evt) result, _⟩, h =>
      RanSnapshot i h (.publish evt) (.bus evt.eventType) evt none result
  | ⟨i, .respond (.dispatch d evt) result, _⟩, h =>
      match types.payload d evt with
      | none => result = .returned (some (types.mismatch d evt)) ∧ calls (own opens i h) = []
      | some none => result = nilDereference ∧ calls (own opens i h) = []
      | some (some payload) =>
          RanSnapshot i h (.dispatch d evt) (.dispatcher d) evt (some payload) result
  | _, _ => True

/-- **Publishing and dispatching run the handlers of one moment.** However registrations,
publications and dispatches interleave: every `Publish` and every `Dispatch` calls the handlers that
were registered for it at one moment of the call, each once and in the order of their registration,
with its event and payload, up to the first that does not return nil, which is what it returns then;
a payload of another type reaches no handler, and with a nil pointer `Dispatch` panics before
any. -/
theorem handlers_of_snapshot (types : Types κ V P) (as : List (Action (Choice κ V H) Empty)) :
    Throughout (Answers types)
      ((Pool.boot (machine types) State.new).run (machine types) as).hist := by
  have hanswer : ∀ e : Cmd κ V P H, Nonempty (Reply κ V P H e) := by
    intro e
    cases e with
    | accept => exact ⟨.publish (Event.new "" 0 "" none)⟩
    | load p => exact ⟨Slice.nil⟩
    | read s i => exact ⟨none⟩
    | call handler evt payload => exact ⟨.returned none⟩
    | _ => exact ⟨()⟩
  have hserved := served_run (m := machine types) (serves types) (fun _ _ => rfl) State.new as
  refine (hserved.and (inv_run types as).2.with_past).mono fun ev h ⟨hcall, _, hsees⟩ => ?_
  obtain ⟨i, e, r⟩ := ev
  cases e with
  | respond request result =>
    obtain ⟨l, hown, hexec⟩ := hcall _ _ rfl
    cases request with
    | publish evt =>
      obtain ⟨s, l, rfl, hrest⟩ := execution_call.1 hexec
      exact ranSnapshot_of_execution hsees hown hrest
    | dispatch d evt =>
      obtain ⟨s, l, rfl, hrest⟩ := execution_call.1 hexec
      simp only [Answers]
      rcases hpayload : types.payload d evt with _ | _ | payload
      · simp only [hpayload] at hrest
        obtain ⟨rfl, hresult⟩ := execution_pure.1 hrest
        exact ⟨hresult, by rw [hown]; rfl⟩
      · simp only [hpayload] at hrest
        obtain ⟨rfl, hresult⟩ := execution_pure.1 hrest
        exact ⟨hresult, by rw [hown]; rfl⟩
      · simp only [hpayload] at hrest
        exact ranSnapshot_of_execution hsees hown hrest
    | _ => trivial
  | _ => trivial

end

end WolfCore.EventBus
