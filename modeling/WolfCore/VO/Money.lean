import Mathlib.Tactic
import WolfCore.Lib.Go

/-!
# Money (`vo/money.go`)

A `Money` value is an `int64` amount in the smallest unit of a currency.  `NewMoney` and `Subtract`
refuse a negative amount; `Add` and `Multiply` check nothing about the result, and `int64`
arithmetic wraps around.

A run of operations starts without values, and every operation works on values obtained before.
Beside each value the model keeps the exact result of the same operations on integers.
`exact_iff_inRange` says when all values obtained are exact, and `add_wraps` is a sum that is not.
-/

namespace WolfCore.VO

open Go

/-- `Money`. -/
structure Money where
  amount : Int64
  currency : String
  deriving DecidableEq

/-- The text of `errors.NewValidation`. -/
def newValidation (field msg : String) : Err := .msg ("[VALIDATION] " ++ field ++ ": " ++ msg)

/-- `NewMoney`. -/
def newMoney (amount : Int64) (currency : String) : Except Err Money :=
  if currency.utf8ByteSize ≠ 3 then
    .error (newValidation "currency" "currency must be a 3-character ISO 4217 code")
  else if amount < 0 then .error (newValidation "amount" "amount must be >= 0")
  else .ok ⟨amount, currency⟩

namespace Money

/-- `Money.Add`. -/
def add (m other : Money) : Except Err Money :=
  if m.currency ≠ other.currency then
    .error (.msg ("currency mismatch: cannot add " ++ other.currency ++ " to " ++ m.currency))
  else .ok ⟨m.amount + other.amount, m.currency⟩

/-- `Money.Subtract`. -/
def subtract (m other : Money) : Except Err Money :=
  if m.currency ≠ other.currency then
    .error (.msg ("currency mismatch: cannot subtract " ++ other.currency ++ " from " ++
      m.currency))
  else if m.amount - other.amount < 0 then
    .error (newValidation "amount" "subtraction result must be >= 0")
  else .ok ⟨m.amount - other.amount, m.currency⟩

/-- `Money.Multiply`; an `int` has 64 bits. -/
def multiply (m : Money) (factor : Int64) : Money := ⟨m.amount * factor, m.currency⟩

theorem add_eq_ok {m other r : Money} : m.add other = .ok r ↔
    m.currency = other.currency ∧ r = ⟨m.amount + other.amount, m.currency⟩ := by
  unfold add
  by_cases hcur : m.currency = other.currency
  · simp [hcur, eq_comm]
  · simp [hcur]

theorem subtract_eq_ok {m other r : Money} : m.subtract other = .ok r ↔
    m.currency = other.currency ∧ 0 ≤ m.amount - other.amount ∧
      r = ⟨m.amount - other.amount, m.currency⟩ := by
  unfold subtract
  by_cases hcur : m.currency = other.currency
  · by_cases hneg : m.amount - other.amount < 0
    · simp [hcur, hneg, Int64.not_le.2 hneg]
    · simp [hcur, hneg, Int64.not_lt.1 hneg, eq_comm]
  · simp [hcur]

end Money

theorem nonneg_of_newMoney {amount : Int64} {currency : String} {m : Money}
    (h : newMoney amount currency = .ok m) : 0 ≤ amount ∧ m = ⟨amount, currency⟩ := by
  unfold newMoney at h
  split_ifs at h with hcur hneg
  cases h
  exact ⟨Int64.not_lt.1 hneg, rfl⟩

/-! ### The machine arithmetic -/

/-- The integers an `int64` can hold. -/
def FitsInt64 (n : ℤ) : Prop := -2 ^ 63 ≤ n ∧ n < 2 ^ 63

theorem bmod_of_fits {n : ℤ} (h : FitsInt64 n) : n.bmod (2 ^ 64) = n := by
  obtain ⟨hle, hlt⟩ := h
  refine Int.bmod_eq_of_le ?_ ?_ <;> norm_num at * <;> omega

theorem fits_toInt (x : Int64) : FitsInt64 x.toInt := ⟨x.le_toInt, x.toInt_lt⟩

theorem nonneg_iff {x : Int64} : 0 ≤ x ↔ 0 ≤ x.toInt := Int64.le_iff_toInt_le

/-- The difference of two amounts that are not negative fits. -/
theorem toInt_sub_of_nonneg {x y : Int64} (hx : 0 ≤ x) (hy : 0 ≤ y) :
    (x - y).toInt = x.toInt - y.toInt := by
  have hx' := nonneg_iff.1 hx
  have hy' := nonneg_iff.1 hy
  have hfits : FitsInt64 (x.toInt - y.toInt) := by
    have := fits_toInt x
    have := fits_toInt y
    unfold FitsInt64 at *
    omega
  rw [Int64.toInt_sub, bmod_of_fits hfits]

/-! ### Runs -/

/-- A value, and the exact result of the operations that led to it. -/
structure Obtained where
  money : Money
  exact : ℤ

/-- An operation; the operands are values obtained before, by their numbers. -/
inductive Op
  | newMoney (amount : Int64) (currency : String)
  | add (i j : ℕ)
  | subtract (i j : ℕ)
  | multiply (i : ℕ) (factor : Int64)

/-- The value an operation yields, if it returns one without error. -/
def Op.eval (os : List Obtained) : Op → Option Obtained
  | .newMoney amount currency =>
    (VO.newMoney amount currency).toOption.map fun m => ⟨m, amount.toInt⟩
  | .add i j => do
      let a ← os[i]?
      let b ← os[j]?
      (a.money.add b.money).toOption.map fun m => ⟨m, a.exact + b.exact⟩
  | .subtract i j => do
      let a ← os[i]?
      let b ← os[j]?
      (a.money.subtract b.money).toOption.map fun m => ⟨m, a.exact - b.exact⟩
  | .multiply i factor => do
      let a ← os[i]?
      return ⟨a.money.multiply factor, a.exact * factor.toInt⟩

def Op.apply (os : List Obtained) (op : Op) : List Obtained := os ++ (op.eval os).toList

def run (os : List Obtained) (ops : List Op) : List Obtained := ops.foldl Op.apply os

/-- The exact result of a sum or a product is an amount. -/
def Op.InRange (os : List Obtained) : Op → Prop
  | .newMoney _ _ | .subtract _ _ => True
  | .add i j => ∀ a b, os[i]? = some a → os[j]? = some b → a.money.currency = b.money.currency →
      a.exact + b.exact < 2 ^ 63
  | .multiply i factor => ∀ a, os[i]? = some a →
      0 ≤ a.exact * factor.toInt ∧ a.exact * factor.toInt < 2 ^ 63

/-- Every operation of the sequence is in range when it is performed. -/
def InRange : List Obtained → List Op → Prop
  | _, [] => True
  | os, op :: ops => op.InRange os ∧ InRange (op.apply os) ops

/-- The value is an amount, and the exact one. -/
def Obtained.IsExact (o : Obtained) : Prop := 0 ≤ o.money.amount ∧ o.money.amount.toInt = o.exact

theorem Obtained.IsExact.bounds {o : Obtained} (h : o.IsExact) :
    0 ≤ o.exact ∧ o.exact < 2 ^ 63 := by
  have hnonneg := nonneg_iff.1 h.1
  have hfits := fits_toInt o.money.amount
  rw [h.2] at hnonneg hfits
  exact ⟨hnonneg, hfits.2⟩

/-- A result that is computed modulo `2 ^ 64` is exact if and only if the integer is an amount. -/
theorem isExact_iff_of_bmod {m : Money} {n : ℤ} (h : m.amount.toInt = n.bmod (2 ^ 64)) :
    (⟨m, n⟩ : Obtained).IsExact ↔ 0 ≤ n ∧ n < 2 ^ 63 := by
  constructor
  · exact Obtained.IsExact.bounds
  · rintro ⟨hle, hlt⟩
    have hamount : m.amount.toInt = n := by
      rw [h, bmod_of_fits]
      constructor <;> omega
    refine ⟨nonneg_iff.2 ?_, hamount⟩
    rw [hamount]
    exact hle

theorem toOption_eq_some {x : Except Err Money} {m : Money} : x.toOption = some m ↔ x = .ok m := by
  cases x <;> simp [Except.toOption]

section

variable {os : List Obtained} (hos : ∀ o ∈ os, o.IsExact)

include hos

theorem eval_add_isExact_iff (i j : ℕ) :
    (∀ o, (Op.add i j).eval os = some o → o.IsExact) ↔ (Op.add i j).InRange os := by
  have heval : ∀ o, (Op.add i j).eval os = some o ↔ ∃ a, os[i]? = some a ∧ ∃ b, os[j]? = some b ∧
      a.money.currency = b.money.currency ∧
      o = ⟨⟨a.money.amount + b.money.amount, a.money.currency⟩, a.exact + b.exact⟩ := by
    intro o
    simp only [Op.eval, Option.bind_eq_bind, Option.bind_eq_some_iff, Option.map_eq_some_iff,
      toOption_eq_some, Money.add_eq_ok]
    grind
  constructor
  · intro hall a b ha hb hcur
    exact (Obtained.IsExact.bounds (hall _ ((heval _).2 ⟨a, ha, b, hb, hcur, rfl⟩))).2
  · intro hrange o ho
    obtain ⟨a, ha, b, hb, hcur, rfl⟩ := (heval o).1 ho
    have hexact := hos a (List.mem_of_getElem? ha)
    have hexact' := hos b (List.mem_of_getElem? hb)
    refine (isExact_iff_of_bmod ?_).2 ⟨?_, hrange a b ha hb hcur⟩
    · rw [Int64.toInt_add, hexact.2, hexact'.2]
    · exact add_nonneg hexact.bounds.1 hexact'.bounds.1

theorem eval_subtract_isExact (i j : ℕ) {o : Obtained} (ho : (Op.subtract i j).eval os = some o) :
    o.IsExact := by
  simp only [Op.eval, Option.bind_eq_bind, Option.bind_eq_some_iff, Option.map_eq_some_iff,
    toOption_eq_some, Money.subtract_eq_ok] at ho
  obtain ⟨a, ha, b, hb, _, ⟨_, hnonneg, rfl⟩, rfl⟩ := ho
  have hexact := hos a (List.mem_of_getElem? ha)
  have hexact' := hos b (List.mem_of_getElem? hb)
  refine ⟨hnonneg, ?_⟩
  show (a.money.amount - b.money.amount).toInt = a.exact - b.exact
  rw [toInt_sub_of_nonneg hexact.1 hexact'.1, hexact.2, hexact'.2]

theorem eval_multiply_isExact_iff (i : ℕ) (factor : Int64) :
    (∀ o, (Op.multiply i factor).eval os = some o → o.IsExact) ↔
      (Op.multiply i factor).InRange os := by
  have hproduct : ∀ a, os[i]? = some a →
      ((⟨a.money.multiply factor, a.exact * factor.toInt⟩ : Obtained).IsExact ↔
        0 ≤ a.exact * factor.toInt ∧ a.exact * factor.toInt < 2 ^ 63) := by
    intro a ha
    refine isExact_iff_of_bmod ?_
    show (a.money.amount * factor).toInt = _
    rw [Int64.toInt_mul, (hos a (List.mem_of_getElem? ha)).2]
  constructor
  · intro hall a ha
    refine (hproduct a ha).1 (hall _ ?_)
    simp [Op.eval, ha]
  · intro hrange o ho
    simp only [Op.eval, Option.bind_eq_bind, Option.bind_eq_some_iff] at ho
    obtain ⟨a, ha, ho⟩ := ho
    cases ho
    exact (hproduct a ha).2 (hrange a ha)

/-- **One operation** on exact values yields an exact one if and only if it is in range. -/
theorem eval_isExact_iff (op : Op) : (∀ o, op.eval os = some o → o.IsExact) ↔ op.InRange os := by
  cases op with
  | newMoney amount currency =>
    refine ⟨fun _ => trivial, fun _ o ho => ?_⟩
    simp only [Op.eval, Option.map_eq_some_iff, toOption_eq_some] at ho
    obtain ⟨m, hm, rfl⟩ := ho
    obtain ⟨hnonneg, rfl⟩ := nonneg_of_newMoney hm
    exact ⟨hnonneg, rfl⟩
  | add i j => exact eval_add_isExact_iff hos i j
  | subtract i j => exact ⟨fun _ => trivial, fun _ o ho => eval_subtract_isExact hos i j ho⟩
  | multiply i factor => exact eval_multiply_isExact_iff hos i factor

end

theorem mem_run_of_mem {os : List Obtained} {o : Obtained} (ho : o ∈ os) (ops : List Op) :
    o ∈ run os ops := by
  induction ops generalizing os with
  | nil => exact ho
  | cons op ops ih => exact ih (List.mem_append_left _ ho)

theorem run_isExact_iff {os : List Obtained} (hos : ∀ o ∈ os, o.IsExact) (ops : List Op) :
    (∀ o ∈ run os ops, o.IsExact) ↔ InRange os ops := by
  induction ops generalizing os with
  | nil => exact ⟨fun _ => trivial, fun _ => hos⟩
  | cons op ops ih =>
    have hstep : (∀ o ∈ op.apply os, o.IsExact) ↔ op.InRange os := by
      rw [← eval_isExact_iff hos op]
      constructor
      · intro hall o ho
        refine hall o (List.mem_append_right _ ?_)
        simp [ho]
      · intro heval o ho
        rcases List.mem_append.1 ho with ho | ho
        · exact hos o ho
        · exact heval o (Option.mem_toList.1 ho)
    constructor
    · intro hall
      have happly : ∀ o ∈ op.apply os, o.IsExact := fun o ho => hall o (mem_run_of_mem ho ops)
      exact ⟨hstep.1 happly, (ih happly).1 hall⟩
    · rintro ⟨hop, hops⟩
      exact (ih (hstep.2 hop)).2 hops

/-- Subtracting what was added gives back an amount, even if the sum has wrapped around. -/
theorem subtract_add {a b : Money} (ha : 0 ≤ a.amount) (hcur : a.currency = b.currency) :
    (a.add b).bind (·.subtract b) = .ok a := by
  have hsum : a.amount + b.amount - b.amount = a.amount := by
    rw [Int64.add_sub_cancel]
  rw [Money.add_eq_ok.2 ⟨hcur, rfl⟩]
  show Money.subtract _ b = _
  rw [Money.subtract_eq_ok, hsum]
  exact ⟨hcur, ha, rfl⟩

/-- What is expected of all values obtained in a run. -/
structure Sound (os : List Obtained) : Prop where
  exact : ∀ o ∈ os, 0 ≤ o.money.amount ∧ o.money.amount.toInt = o.exact
  noOverflow : ∀ o ∈ os, 0 ≤ o.exact ∧ o.exact < 2 ^ 63
  cancel : ∀ a ∈ os, ∀ b ∈ os, a.money.currency = b.money.currency →
    (a.money.add b.money).bind (·.subtract b.money) = .ok a.money

/-- **When money is computed exactly**: if and only if the exact result of every sum and of every
product is an amount. -/
theorem exact_iff_inRange (ops : List Op) : Sound (run [] ops) ↔ InRange [] ops := by
  have hnone : ∀ o ∈ ([] : List Obtained), o.IsExact := by simp
  rw [← run_isExact_iff hnone ops]
  constructor
  · intro hsound
    exact hsound.exact
  · intro hall
    exact ⟨hall, fun o ho => (hall o ho).bounds, fun a ha b _ hcur =>
      subtract_add (hall a ha).1 hcur⟩

def overflow : List Op := [.newMoney Int64.maxValue "USD", .newMoney 1 "USD", .add 0 1]

/-- The sum of the greatest amount and one is returned without error, with a negative amount; and a
product with a negative factor is. -/
theorem add_wraps :
    (run [] overflow)[2]? = some ⟨⟨Int64.minValue, "USD"⟩, 2 ^ 63⟩ ∧
    ¬ Sound (run [] overflow) ∧
    ¬ Sound (run [] [.newMoney 1 "USD", .multiply 0 (-1)]) := by
  have hsum : (run [] overflow)[2]? = some ⟨⟨Int64.minValue, "USD"⟩, 2 ^ 63⟩ := rfl
  have hproduct : (run [] [.newMoney 1 "USD", .multiply 0 (-1)])[1]? = some ⟨⟨-1, "USD"⟩, -1⟩ := rfl
  refine ⟨hsum, fun h => ?_, fun h => ?_⟩
  · have hlt := (h.noOverflow _ (List.mem_of_getElem? hsum)).2
    exact absurd hlt (by decide)
  · have hle := (h.noOverflow _ (List.mem_of_getElem? hproduct)).1
    exact absurd hle (by decide)

end WolfCore.VO
