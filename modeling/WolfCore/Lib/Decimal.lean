import Mathlib.Tactic
import Mathlib.Data.List.DropRight
import Mathlib.Data.Nat.Log

/-!
# Decimal numbers as lists of characters

`pad w n` writes the last `w` digits of a number, `decimal` a whole number with at least `w` of
them, and `natOf` reads digits back (`natOf_pad`, `readDigits_pad`).
-/

namespace Decimal

/-- The last `w` decimal digits of `n`. -/
def pad : ℕ → ℕ → List Char
  | 0, _ => []
  | w + 1, n => Nat.digitChar (n / 10 ^ w % 10) :: pad w n

/-- The number a list of decimal digits denotes. -/
def natOf : List Char → ℕ
  | [] => 0
  | c :: cs => (c.toNat - 48) * 10 ^ cs.length + natOf cs

/-- `appendInt`: a sign, and at least `w` digits. -/
def decimal (w : ℕ) (z : ℤ) : List Char :=
  (if z < 0 then ['-'] else []) ++ pad (max w (Nat.log 10 z.natAbs + 1)) z.natAbs

/-- Exactly `w` digits. -/
def readDigits (w : ℕ) (cs : List Char) : Option (ℕ × List Char) :=
  if w ≤ cs.length ∧ (cs.take w).all Char.isDigit then some (natOf (cs.take w), cs.drop w) else none

theorem digitChar_isDigit {d : ℕ} (hd : d < 10) : (Nat.digitChar d).isDigit = true := by
  interval_cases d <;> decide

theorem digitChar_value {d : ℕ} (hd : d < 10) : (Nat.digitChar d).toNat - 48 = d := by
  interval_cases d <;> decide

@[simp] theorem length_pad (w n : ℕ) : (pad w n).length = w := by
  induction w with
  | zero => rfl
  | succ w ih => rw [pad, List.length_cons, ih]

theorem pad_add (v w n : ℕ) : pad (v + w) n = pad v (n / 10 ^ w) ++ pad w n := by
  induction v with
  | zero => rw [Nat.zero_add, pad, List.nil_append]
  | succ v ih =>
    rw [Nat.succ_add, pad, pad, ih, List.cons_append, Nat.div_div_eq_div_mul, ← pow_add,
      Nat.add_comm w v]

theorem isDigit_of_mem_pad {w n : ℕ} {c : Char} (hc : c ∈ pad w n) : c.isDigit = true := by
  induction w with
  | zero => cases hc
  | succ w ih =>
    rcases List.mem_cons.1 hc with rfl | hc
    · exact digitChar_isDigit (Nat.mod_lt _ (by decide))
    · exact ih hc

theorem natOf_pad (w n : ℕ) : natOf (pad w n) = n % 10 ^ w := by
  induction w with
  | zero => simp [pad, natOf, Nat.mod_one]
  | succ w ih =>
    rw [pad, natOf, ih, length_pad, digitChar_value (Nat.mod_lt _ (by decide)), Nat.mod_pow_succ,
      Nat.mul_comm, Nat.add_comm]

theorem natOf_concat (cs : List Char) (c : Char) :
    natOf (cs ++ [c]) = natOf cs * 10 + (c.toNat - 48) := by
  induction cs with
  | nil => simp [natOf]
  | cons c' cs ih =>
    rw [List.cons_append, natOf, ih, natOf, List.length_append, List.length_singleton, pow_succ]
    ring

theorem readDigits_append {w : ℕ} {ds rest : List Char} (hlen : ds.length = w)
    (hds : ∀ c ∈ ds, c.isDigit = true) : readDigits w (ds ++ rest) = some (natOf ds, rest) := by
  subst hlen
  unfold readDigits
  rw [List.take_left, List.drop_left, if_pos]
  exact ⟨by simp, List.all_eq_true.2 hds⟩

theorem readDigits_pad {w n : ℕ} (hn : n < 10 ^ w) (rest : List Char) :
    readDigits w (pad w n ++ rest) = some (n, rest) := by
  rw [readDigits_append (length_pad w n) fun _ hc => isDigit_of_mem_pad hc, natOf_pad,
    Nat.mod_eq_of_lt hn]

/-- Dropping trailing zeros divides by a power of ten. -/
theorem natOf_rdropWhile (cs : List Char) :
    natOf (cs.rdropWhile (· = '0')) * 10 ^ (cs.length - (cs.rdropWhile (· = '0')).length) =
      natOf cs := by
  induction cs using List.reverseRecOn with
  | nil => rfl
  | append_singleton cs c ih =>
    have hle : (cs.rdropWhile (· = '0')).length ≤ cs.length :=
      (List.rdropWhile_prefix _ cs).length_le
    rw [List.rdropWhile_concat]
    split_ifs with hc
    · rw [decide_eq_true_eq] at hc
      rw [natOf_concat, List.length_append, List.length_singleton, Nat.sub_add_comm hle, pow_succ,
        ← mul_assoc, ih, hc]
      rfl
    · rw [Nat.sub_self, pow_zero, mul_one]

end Decimal
