import Mathlib.Tactic

/-!
# Items that are moved from place to place

An event of a history (newest first) can move one item from one place to another, or bring a new
one.  `locate` is where the newest move of an item has put it, and a history is `Legal` if every
move takes its item from where it is.

* `locate_append`: events that take nothing from a place, and put nothing there, leave the items in
  it alone;
* `mem_entered_iff`, `nodup_entered`: if nothing leaves a part of the places, the items that have
  entered it are those that are in it, and each has entered it once.
-/

namespace Custody

/-- A move of an item; an item without a source is new. -/
structure Move (K P : Type) where
  item : K
  source : Option P
  target : P

variable {E K P : Type} [DecidableEq K] (move : E → Option (Move K P))

/-- Where the newest move of an item has put it. -/
def locate (k : K) : List E → Option P
  | [] => none
  | ev :: h =>
      match move ev with
      | some m => if m.item = k then some m.target else locate k h
      | none => locate k h

/-- Every move takes its item from where it is. -/
def Legal : List E → Prop
  | [] => True
  | ev :: h => (∀ m, move ev = some m → locate move m.item h = m.source) ∧ Legal h

/-- The items that have come into the part `T` of the places from outside of it. -/
def entered (T : P → Bool) (h : List E) : List K :=
  h.filterMap fun ev => (move ev).bind fun m =>
    if T m.target && !m.source.any T then some m.item else none

variable {move} {ev : E} {h : List E} {k : K} {m : Move K P}

theorem locate_cons_of_none (hev : move ev = none) : locate move k (ev :: h) = locate move k h := by
  simp [locate, hev]

theorem locate_cons_self (hev : move ev = some m) :
    locate move m.item (ev :: h) = some m.target := by
  simp [locate, hev]

theorem locate_cons_of_ne (hev : move ev = some m) (hk : k ≠ m.item) :
    locate move k (ev :: h) = locate move k h := by
  simp [locate, hev, Ne.symm hk]

theorem Legal.of_append {l : List E} (hlegal : Legal move (l ++ h)) : Legal move h := by
  induction l with
  | nil => exact hlegal
  | cons ev l ih => exact ih hlegal.2

/-- A move leaves the items alone that are in another place than its source and its target. -/
theorem locate_cons_iff {p : P} (hev : move ev = some m) (hitem : locate move m.item h = m.source)
    (hsource : m.source ≠ some p) (htarget : m.target ≠ p) :
    locate move k (ev :: h) = some p ↔ locate move k h = some p := by
  by_cases hk : k = m.item
  · rw [hk, locate_cons_self hev, hitem]
    exact iff_of_false (by simpa using htarget) hsource
  · rw [locate_cons_of_ne hev hk]

/-- An item stays in a place, and none comes there, while no event takes one from it or puts one
there. -/
theorem locate_append {l : List E} {p : P} (hlegal : Legal move (l ++ h))
    (hl : ∀ ev ∈ l, ∀ m, move ev = some m → m.source ≠ some p ∧ m.target ≠ p) :
    locate move k (l ++ h) = some p ↔ locate move k h = some p := by
  induction l with
  | nil => rfl
  | cons ev l ih =>
    rw [← ih hlegal.2 fun ev' hev' => hl ev' (List.mem_cons_of_mem _ hev'), List.cons_append]
    cases hev : move ev with
    | none => rw [locate_cons_of_none hev]
    | some m =>
      obtain ⟨hsource, htarget⟩ := hl ev List.mem_cons_self m hev
      exact locate_cons_iff hev (hlegal.1 m hev) hsource htarget

omit [DecidableEq K] in
theorem entered_cons (T : P → Bool) (hev : move ev = some m) :
    entered move T (ev :: h) =
      if T m.target && !m.source.any T then m.item :: entered move T h else entered move T h := by
  unfold entered
  rw [List.filterMap_cons, hev, Option.bind_some]
  split_ifs <;> rfl

omit [DecidableEq K] in
theorem entered_cons_of_none (T : P → Bool) (hev : move ev = none) :
    entered move T (ev :: h) = entered move T h := by
  simp [entered, hev]

section Closed

variable {T : P → Bool}
    (hT : ∀ ev m p, move ev = some m → m.source = some p → T p = true → T m.target = true)
include hT

/-- The items that have entered a part of the places that nothing leaves are in it. -/
theorem mem_entered_iff (hlegal : Legal move h) :
    k ∈ entered move T h ↔ (locate move k h).any T = true := by
  induction h with
  | nil => simp [entered, locate]
  | cons ev h ih =>
    cases hev : move ev with
    | none => rw [entered_cons_of_none T hev, locate_cons_of_none hev, ih hlegal.2]
    | some m =>
      rw [entered_cons T hev]
      by_cases hk : k = m.item
      · -- what comes from inside stays inside
        have hsource : m.source.any T = true → T m.target = true := by
          rw [Option.any_eq_true]
          rintro ⟨p, hp, hTp⟩
          exact hT ev m p hev hp hTp
        have hrest : m.item ∈ entered move T h ↔ m.source.any T = true := by
          rw [← hlegal.1 m hev, ← hk, ih hlegal.2]
        rw [hk, locate_cons_self hev]
        cases htarget : T m.target <;> cases hs : m.source.any T <;> simp_all
      · rw [locate_cons_of_ne hev hk, ← ih hlegal.2]
        split_ifs
        · simp [hk]
        · rfl

theorem nodup_entered (hlegal : Legal move h) : (entered move T h).Nodup := by
  induction h with
  | nil => exact List.nodup_nil
  | cons ev h ih =>
    cases hev : move ev with
    | none => rw [entered_cons_of_none T hev]; exact ih hlegal.2
    | some m =>
      rw [entered_cons T hev]
      split_ifs with henters
      · refine List.nodup_cons.2 ⟨?_, ih hlegal.2⟩
        rw [mem_entered_iff hT hlegal.2, hlegal.1 m hev]
        rw [Bool.and_eq_true, Bool.not_eq_true'] at henters
        simp [henters.2]
      · exact ih hlegal.2

end Closed

end Custody
