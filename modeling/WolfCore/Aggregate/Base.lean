import WolfCore.Event.Basic
import WolfCore.Lib.Slices

/-!
# Aggregates (`aggregate/base.go`)

`Base` collects the events of an aggregate in a slice.  `ClearEvents` returns a copy of the slice
and goes on with its array, while the callers do with the copies what they like.

`Log` is what this is for: lists of events, where nothing is shared.  `Refines.run` says that the
slices behave like these lists, and `Log.returned_append_pending` that no event is lost, returned
twice or out of order.
-/

namespace WolfCore.Aggregate

open Go

variable {V : Type}

/-- `Base`, as far as its events go. -/
structure Base where
  id : String
  aggregateType : String
  events : Slice

/-- The event of `AddDomainEvent`: the options come after the information about the aggregate. -/
def domainEvent (id aggregateType uuid : String) (now : ℤ) (eventType : String) (payload : Option V)
    (opts : List (Event V → Event V)) : Event V :=
  opts.foldl (fun e opt => opt e)
    ((Event.new uuid now eventType payload).withAggregateInfo id aggregateType)

/-- The arrays of events, an aggregate, and the slices that it has returned. -/
structure State (V : Type) where
  arrays : Arrays (Option (Event V))
  base : Base
  held : List Slice
  /-- what the slices had when they were returned -/
  returned : List (List (Option (Event V)))

/-- `NewBase`: there is room for four events. -/
def newBase (id aggregateType : String) : State V where
  arrays := Arrays.init.alloc (List.replicate 4 none)
  base := ⟨id, aggregateType, ⟨1, 0⟩⟩
  held := []
  returned := []

/-- What is done with an aggregate and with what it has returned.  `extra` is the room that `append`
leaves in a new array. -/
inductive Op (V : Type)
  | addEvent (e : Option (Event V)) (extra : ℕ)
  | addDomainEvent (uuid : String) (now : ℤ) (eventType : String) (payload : Option V)
      (opts : List (Event V → Event V)) (extra : ℕ)
  | clearEvents
  /-- a caller assigns to an element of the slice it has got -/
  | assign (k i : ℕ) (e : Option (Event V))
  /-- a caller appends to it -/
  | append (k : ℕ) (e : Option (Event V)) (extra : ℕ)

namespace State

variable (s : State V)

/-- `b.events = append(b.events, e)`. -/
def addEvent (e : Option (Event V)) (extra : ℕ) : State V :=
  let appended := s.base.events.append s.arrays e none extra
  { s with arrays := appended.1, base := { s.base with events := appended.2 } }

/-- `ClearEvents`. -/
def clearEvents : State V :=
  let pending := s.base.events.clone s.arrays
  { arrays := pending.1
    base := { s.base with events := ⟨s.base.events.addr, 0⟩ }
    held := s.held ++ [pending.2]
    returned := s.returned ++ [pending.2.elems pending.1] }

/-- What an operation does. -/
def step : Op V → State V
  | .addEvent e extra => s.addEvent e extra
  | .addDomainEvent uuid now eventType payload opts extra =>
      s.addEvent
        (some (domainEvent s.base.id s.base.aggregateType uuid now eventType payload opts)) extra
  | .clearEvents => s.clearEvents
  | .assign k i e => s.held[k]?.elim s fun slice =>
      if i < slice.len then { s with arrays := s.arrays.write slice.addr i e } else s
  | .append k e extra => s.held[k]?.elim s fun slice =>
      let appended := slice.append s.arrays e none extra
      { s with arrays := appended.1, held := s.held.set k appended.2 }

def run (ops : List (Op V)) : State V := ops.foldl step s

end State

/-! ### The events as lists -/

/-- The events that are pending, those that were returned, and what the callers have made of
them. -/
structure Log (V : Type) where
  pending : List (Option (Event V))
  returned : List (List (Option (Event V)))
  held : List (List (Option (Event V)))

def Op.added (id aggregateType : String) : Op V → Option (Option (Event V))
  | .addEvent e _ => some e
  | .addDomainEvent uuid now eventType payload opts _ =>
      some (some (domainEvent id aggregateType uuid now eventType payload opts))
  | _ => none

namespace Log

variable (id aggregateType : String) (l : Log V)

def empty : Log V := ⟨[], [], []⟩

/-- What an operation does to the lists. -/
def step (op : Op V) : Log V :=
  match op.added id aggregateType, op with
  | some e, _ => { l with pending := l.pending ++ [e] }
  | none, .clearEvents => ⟨[], l.returned ++ [l.pending], l.held ++ [l.pending]⟩
  | none, .assign k i e => { l with held := l.held.modify k fun es => es.set i e }
  | none, .append k e _ => { l with held := l.held.modify k fun es => es ++ [e] }
  | none, _ => l

def run (ops : List (Op V)) : Log V := ops.foldl (step id aggregateType) l

/-- Every event is returned once, in the order in which it was added, or pending. -/
theorem returned_append_pending (ops : List (Op V)) :
    ((l.run id aggregateType ops).returned.flatten ++ (l.run id aggregateType ops).pending) =
      l.returned.flatten ++ l.pending ++ ops.filterMap (Op.added id aggregateType) := by
  induction ops generalizing l with
  | nil => simp [run]
  | cons op ops ih =>
    rw [run, List.foldl_cons, ← run, ih, List.filterMap_cons]
    cases op <;> simp [step, Op.added]

end Log

/-! ### Refinement -/

variable {id aggregateType : String}

/-- The slices have what the lists have, and share nothing. -/
structure Refines (id aggregateType : String) (s : State V) (l : Log V) : Prop where
  ident : s.base.id = id ∧ s.base.aggregateType = aggregateType
  separate : Slice.Separate s.arrays (s.base.events :: s.held)
  contents : (s.base.events :: s.held).map (Slice.elems s.arrays) = l.pending :: l.held
  returned : s.returned = l.returned

theorem refines_new : Refines id aggregateType (newBase id aggregateType : State V) Log.empty where
  ident := ⟨rfl, rfl⟩
  separate := .singleton ⟨Nat.one_lt_two, Nat.zero_le _⟩
  contents := rfl
  returned := rfl

namespace Refines

variable {s : State V} {l : Log V}

theorem pending_eq (h : Refines id aggregateType s l) : s.base.events.elems s.arrays = l.pending :=
  (List.cons.inj h.contents).1

theorem held_eq (h : Refines id aggregateType s l) : s.held.map (Slice.elems s.arrays) = l.held :=
  (List.cons.inj h.contents).2

theorem addEvent (h : Refines id aggregateType s l) (e : Option (Event V)) (extra : ℕ) :
    Refines id aggregateType (s.addEvent e extra) { l with pending := l.pending ++ [e] } := by
  obtain ⟨hseparate, hcontents⟩ := h.separate.append (k := 0) rfl e none extra
  refine ⟨h.ident, hseparate, hcontents.trans ?_, h.returned⟩
  rw [h.contents, h.pending_eq]
  rfl

theorem clearEvents (h : Refines id aggregateType s l) : Refines id aggregateType s.clearEvents
    ⟨[], l.returned ++ [l.pending], l.held ++ [l.pending]⟩ := by
  obtain ⟨hcopied, hcopy⟩ := h.separate.clone List.mem_cons_self
  obtain ⟨hcut, hcontents⟩ := hcopied.cut (k := 0) rfl
  refine ⟨h.ident, hcut, hcontents.trans ?_, ?_⟩
  · rw [hcopy, h.contents, h.pending_eq]
    rfl
  · rw [State.clearEvents, (h.separate.valid _ List.mem_cons_self).clone.2, h.pending_eq,
      h.returned]

/-- What the lists have for a slice that a caller has got, after a change to it. -/
theorem modify_held (h : Refines id aggregateType s l) (k : ℕ)
    (f : List (Option (Event V)) → List (Option (Event V))) :
    l.held.modify k f = s.held[k]?.elim l.held fun slice =>
      l.held.set k (f (slice.elems s.arrays)) := by
  rw [List.modify_eq_set_getElem?, ← h.held_eq, List.getElem?_map]
  cases s.held[k]? <;> rfl

/-- Every operation does to the slices what it does to the lists. -/
theorem step (h : Refines id aggregateType s l) (op : Op V) :
    Refines id aggregateType (s.step op) (l.step id aggregateType op) := by
  cases op with
  | addEvent e extra => exact h.addEvent e extra
  | addDomainEvent uuid now eventType payload opts extra =>
    simp only [State.step, Log.step, Op.added, h.ident]
    exact h.addEvent _ extra
  | clearEvents => exact h.clearEvents
  | assign k i e =>
    simp only [State.step, Log.step, Op.added, h.modify_held]
    cases hk : s.held[k]? with
    | none => exact h
    | some slice =>
      obtain ⟨hseparate, hcontents⟩ := h.separate.write (k := k + 1) hk i e
      rw [h.contents] at hcontents
      simp only [Option.elim_some]
      split_ifs with hi
      · exact ⟨h.ident, hseparate, hcontents, h.returned⟩
      · -- the assignment panics, as the index is out of range, and a list has no such element
        have hslice := h.separate.valid slice (List.mem_of_getElem? (l := _ :: _) (i := k + 1) hk)
        have hrange : (slice.elems s.arrays).set i e = slice.elems s.arrays :=
          List.set_eq_of_length_le (by rw [hslice.length_elems]; omega)
        have hset : l.held.set k (slice.elems s.arrays) = l.held := by
          rw [← h.held_eq, ← List.map_set, Slice.set_self hk]
        rw [hrange, hset]
        exact h
  | append k e extra =>
    simp only [State.step, Log.step, Op.added, h.modify_held]
    cases hk : s.held[k]? with
    | none => exact h
    | some slice =>
      obtain ⟨hseparate, hcontents⟩ := h.separate.append (k := k + 1) hk e none extra
      rw [h.contents] at hcontents
      exact ⟨h.ident, hseparate, hcontents, h.returned⟩

theorem run (h : Refines id aggregateType s l) (ops : List (Op V)) :
    Refines id aggregateType (s.run ops) (l.run id aggregateType ops) := by
  induction ops generalizing s l with
  | nil => exact h
  | cons op ops ih => exact ih (h.step op)

end Refines

/-- **Events are returned once and in order, and what callers do with them changes nothing else.**
Whatever is added and whenever `ClearEvents` is called, and whatever the callers assign or append to
the slices they have got: what was returned, one after the other, and what is pending are the events
that were added; and each slice has what its own holder has made of it. -/
theorem events_returned_in_order (id aggregateType : String) (ops : List (Op V)) :
    let s := (newBase id aggregateType).run ops
    s.returned.flatten ++ s.base.events.elems s.arrays = ops.filterMap (Op.added id aggregateType) ∧
      s.held.map (Slice.elems s.arrays) = (Log.empty.run id aggregateType ops).held := by
  have h : Refines id aggregateType _ _ := (refines_new (V := V)).run ops
  refine ⟨?_, h.held_eq⟩
  rw [h.returned, h.pending_eq]
  exact Log.returned_append_pending id aggregateType Log.empty ops

end WolfCore.Aggregate
