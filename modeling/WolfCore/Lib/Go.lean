import WolfCore.Lib.Decimal

/-!
# Go's vocabulary

The few notions of the language the models share: error values as `fmt.Errorf` builds them, calls
that may panic, functions that return an error and change a state, string maps, and `strconv`.
-/

namespace Go

/-- An error value: a message, or a `fmt.Errorf` format with its `%q` argument (if any) around
the error it wraps. -/
inductive Err
  | msg (text : String)
  | wrap (format : String) (arg : Option String) (cause : Err)
  deriving DecidableEq

/-- How a call ends: it returns, or it panics. -/
inductive Outcome (α : Type)
  | returned (a : α)
  | panicked (p : String)

/-- A call, and the rest of the function if it returns. -/
def Outcome.bind {α β : Type} : Outcome α → (α → Outcome β) → Outcome β
  | .returned a, f => f a
  | .panicked p, _ => .panicked p

@[simp] theorem Outcome.returned_bind {α β : Type} (a : α) (f : α → Outcome β) :
    (Outcome.returned a).bind f = f a := rfl

theorem Outcome.bind_assoc {α β γ : Type} (o : Outcome α) (f : α → Outcome β) (g : β → Outcome γ) :
    (o.bind f).bind g = o.bind fun a => (f a).bind g := by
  cases o <;> rfl

/-- A function that returns an error and works on a state: `none` is a nil error, and whatever it
did to the state before it failed or panicked stays done. -/
abbrev Proc (S : Type) := S → Outcome (Option Err) × S

namespace Proc

variable {S α : Type}

/-- `return nil`. -/
def ok : Proc S := fun s => (.returned none, s)

/-- `if err := p(); err != nil { return err }; return q()`. -/
def seq (p q : Proc S) : Proc S := fun s =>
  match p s with
  | (.returned none, s') => q s'
  | (.returned (some err), s') => (.returned (some err), s')
  | (.panicked v, s') => (.panicked v, s')

/-- `for _, a := range as { if err := f(a); err != nil { return err } }; return nil`. -/
def forEach (f : α → Proc S) : List α → Proc S
  | [] => ok
  | a :: as => (f a).seq (forEach f as)

/-- `if err := p(); err != nil { return g(err) }; return nil`. -/
def mapErr (p : Proc S) (g : Err → Err) : Proc S := fun s =>
  match p s with
  | (.returned err, s') => (.returned (err.map g), s')
  | (.panicked v, s') => (.panicked v, s')

theorem seq_of_ok {p q : Proc S} {s : S} (h : (p s).1 = .returned none) :
    p.seq q s = q (p s).2 := by
  unfold seq
  rcases hp : p s with ⟨o, s'⟩
  rw [hp] at h
  cases h
  rfl

theorem seq_of_ne_ok {p q : Proc S} {s : S} (h : (p s).1 ≠ .returned none) : p.seq q s = p s := by
  unfold seq
  rcases hp : p s with ⟨_ | _, s'⟩
  · rename_i err
    cases err with
    | none => rw [hp] at h; exact absurd rfl h
    | some err => rfl
  · rfl

theorem seq_eq_ok {p q : Proc S} {s : S} : (p.seq q s).1 = .returned none ↔
    (p s).1 = .returned none ∧ (q (p s).2).1 = .returned none := by
  by_cases h : (p s).1 = .returned none
  · rw [seq_of_ok h]
    exact ⟨fun hq => ⟨h, hq⟩, fun hq => hq.2⟩
  · rw [seq_of_ne_ok h]
    exact ⟨fun hp => absurd hp h, fun hp => absurd hp.1 h⟩

theorem seq_ok (p : Proc S) : p.seq ok = p := by
  funext s
  by_cases h : (p s).1 = .returned none
  · rw [seq_of_ok h]
    show (Outcome.returned none, (p s).2) = p s
    rw [← h]
  · exact seq_of_ne_ok h

theorem mapErr_state (p : Proc S) (g : Err → Err) (s : S) : (p.mapErr g s).2 = (p s).2 := by
  unfold mapErr
  rcases p s with ⟨_ | _, s'⟩ <;> rfl

theorem mapErr_eq_ok {p : Proc S} {g : Err → Err} {s : S} :
    (p.mapErr g s).1 = .returned none ↔ (p s).1 = .returned none := by
  unfold mapErr
  rcases p s with ⟨_ | _, s'⟩ <;> simp

end Proc

/-- The order in which a `range` loop goes through the keys of a map. -/
structure MapOrder where
  range : List String → List String
  perm : ∀ keys, (range keys).Perm keys

/-- Every order of some keys is that of some loop. -/
theorem MapOrder.exists_range {keys keys' : List String} (h : keys'.Perm keys) :
    ∃ order : MapOrder, order.range keys = keys' := by
  refine ⟨⟨fun l => if l = keys then keys' else l, fun l => ?_⟩, if_pos rfl⟩
  by_cases hl : l = keys
  · rw [if_pos hl, hl]
    exact h
  · rw [if_neg hl]

/-- A `map[string]string`. -/
abbrev StrMap := String → Option String

namespace StrMap

def empty : StrMap := fun _ => none

/-- `m[k]`, which is the empty string when `k` is absent. -/
def get (m : StrMap) (k : String) : String := (m k).getD ""

/-- `m[k] = v`. -/
def set (m : StrMap) (k v : String) : StrMap := Function.update m k (some v)

/-- `for k, v := range src { m[k] = v }`. -/
def assign (m src : StrMap) : StrMap := fun k => (src k).orElse fun _ => m k

theorem set_apply (m : StrMap) (k v k' : String) :
    m.set k v k' = if k' = k then some v else m k' := Function.update_apply m k (some v) k'

theorem assign_of_none {src : StrMap} {k : String} (h : src k = none) (m : StrMap) :
    m.assign src k = m k := by simp [assign, h]

end StrMap

/-- `strconv.Itoa`. -/
def itoa (n : ℤ) : String := String.ofList (Decimal.decimal 1 n)

/-- The last `prec` digits of a number behind a point, without the zeros they end with. -/
def fraction (prec n : ℕ) : String :=
  match (Decimal.pad prec n).rdropWhile (· = '0') with
  | [] => ""
  | digits => String.ofList ('.' :: digits)

/-- `Duration.String`, of a duration in nanoseconds. -/
def durationString (d : ℤ) : String :=
  let u := d.natAbs
  let s := u / 1000000000
  let belowMinute := itoa (s % 60) ++ fraction 9 u ++ "s"
  let text :=
    if u = 0 then "0s"
    else if u < 1000 then itoa u ++ "ns"
    else if u < 1000000 then itoa (u / 1000) ++ fraction 3 u ++ "µs"
    else if u < 1000000000 then itoa (u / 1000000) ++ fraction 6 u ++ "ms"
    else if s < 60 then belowMinute
    else if s < 3600 then itoa (s / 60) ++ "m" ++ belowMinute
    else itoa (s / 3600) ++ "h" ++ itoa (s / 60 % 60) ++ "m" ++ belowMinute
  if d < 0 then "-" ++ text else text

/-- A signed number in the range of an `int`. -/
def parseDigits (sign : ℤ) (ds : List Char) : Option ℤ :=
  if ds ≠ [] ∧ ds.all Char.isDigit ∧ -2 ^ 63 ≤ sign * Decimal.natOf ds ∧
      sign * Decimal.natOf ds < 2 ^ 63 then some (sign * Decimal.natOf ds) else none

/-- `strconv.Atoi`: an optional sign and digits. -/
def atoi (s : String) : Option ℤ :=
  match s.toList with
  | '-' :: ds => parseDigits (-1) ds
  | '+' :: ds => parseDigits 1 ds
  | ds => parseDigits 1 ds

theorem parseDigits_pad {sign : ℤ} {w n : ℕ} (hn : n < 10 ^ (w + 1))
    (hrange : -2 ^ 63 ≤ sign * n ∧ sign * n < 2 ^ 63) :
    parseDigits sign (Decimal.pad (w + 1) n) = some (sign * n) := by
  have hdigits : (Decimal.pad (w + 1) n).all Char.isDigit = true :=
    List.all_eq_true.2 fun _ hc => Decimal.isDigit_of_mem_pad hc
  unfold parseDigits
  rw [Decimal.natOf_pad, Nat.mod_eq_of_lt hn, if_pos]
  exact ⟨nofun, hdigits, hrange⟩

theorem atoi_itoa {n : ℤ} (hn : -2 ^ 63 ≤ n ∧ n < 2 ^ 63) : atoi (itoa n) = some n := by
  have hwidth : max 1 (Nat.log 10 n.natAbs + 1) = Nat.log 10 n.natAbs + 1 :=
    max_eq_right (by omega)
  have hlt := Nat.lt_pow_succ_log_self (by decide : 1 < 10) n.natAbs
  -- the first digit is no sign
  have hhead : ∀ c ds, c.isDigit = false →
      Decimal.pad (Nat.log 10 n.natAbs + 1) n.natAbs ≠ c :: ds := by
    intro c ds hc heq
    have hmem : c ∈ Decimal.pad (Nat.log 10 n.natAbs + 1) n.natAbs := heq ▸ List.mem_cons_self
    rw [Decimal.isDigit_of_mem_pad hmem] at hc
    cases hc
  unfold atoi itoa Decimal.decimal
  rw [String.toList_ofList, hwidth]
  split_ifs with hneg
  · have hsign : -1 * (n.natAbs : ℤ) = n := by omega
    rw [List.singleton_append]
    show parseDigits (-1) (Decimal.pad (Nat.log 10 n.natAbs + 1) n.natAbs) = _
    rw [parseDigits_pad hlt (by omega), hsign]
  · have hsign : 1 * (n.natAbs : ℤ) = n := by omega
    rw [List.nil_append]
    split
    · exact absurd ‹_› (hhead '-' _ (by decide))
    · exact absurd ‹_› (hhead '+' _ (by decide))
    · rw [parseDigits_pad hlt (by omega), hsign]

end Go
