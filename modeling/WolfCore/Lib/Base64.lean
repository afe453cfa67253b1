import Mathlib.Tactic

/-!
# Base64 without padding, in the alphabet for URLs

`encode` is `base64.RawURLEncoding.EncodeToString` and `decode` is `DecodeString`, which skips line
breaks, accepts any unused bits in the last digit, and reports where an input is corrupt.
`decode_encode`: decoding inverts encoding.
-/

namespace Base64

/-- The digits: `A` to `Z`, `a` to `z`, `0` to `9`, `-` and `_`. -/
def char (d : ℕ) : UInt8 :=
  if d < 26 then UInt8.ofNat (65 + d)
  else if d < 52 then UInt8.ofNat (97 + (d - 26))
  else if d < 62 then UInt8.ofNat (48 + (d - 52))
  else if d = 62 then 45
  else 95

def digit (c : UInt8) : Option ℕ :=
  if 65 ≤ c ∧ c ≤ 90 then some (c.toNat - 65)
  else if 97 ≤ c ∧ c ≤ 122 then some (c.toNat - 97 + 26)
  else if 48 ≤ c ∧ c ≤ 57 then some (c.toNat - 48 + 52)
  else if c = 45 then some 62
  else if c = 95 then some 63
  else none

theorem digit_char {d : ℕ} (hd : d < 64) : digit (char d) = some d := by
  revert d
  decide

/-- Three bytes as one number. -/
def value (a b c : UInt8) : ℕ := a.toNat * 65536 + b.toNat * 256 + c.toNat

/-- Three bytes are four digits; one or two bytes at the end are two or three digits. -/
def encode : List UInt8 → List UInt8
  | a :: b :: c :: rest =>
      char (value a b c / 262144 % 64) :: char (value a b c / 4096 % 64) ::
        char (value a b c / 64 % 64) :: char (value a b c % 64) :: encode rest
  | [a, b] =>
      [char (value a b 0 / 262144 % 64), char (value a b 0 / 4096 % 64),
        char (value a b 0 / 64 % 64)]
  | [a] => [char (value a 0 0 / 262144 % 64), char (value a 0 0 / 4096 % 64)]
  | [] => []

/-- Up to four digits as one number; digits that are missing count as zero. -/
def number : List ℕ → ℕ
  | p :: q :: r :: s :: _ => p * 262144 + q * 4096 + r * 64 + s
  | [p, q, r] => p * 262144 + q * 4096 + r * 64
  | [p, q] => p * 262144 + q * 4096
  | [p] => p * 262144
  | [] => 0

/-- The bytes of some digits: one less than there are digits. -/
def bytes (quad : List ℕ) : List UInt8 :=
  [UInt8.ofNat (number quad / 65536), UInt8.ofNat (number quad / 256),
    UInt8.ofNat (number quad)].take (quad.length - 1)

/-- The decoder at byte `si` of the input, with the digits of the present group of four; an error
is the place of the corrupt byte. -/
def decodeFrom : (si : ℕ) → (quad : List ℕ) → List UInt8 → Except ℕ (List UInt8)
  | si, quad, [] => if quad.length = 1 then .error (si - 1) else .ok (bytes quad)
  | si, quad, c :: cs =>
      match digit c with
      | some d =>
          if quad.length = 3 then do
            let rest ← decodeFrom (si + 1) [] cs
            return bytes (quad ++ [d]) ++ rest
          else decodeFrom (si + 1) (quad ++ [d]) cs
      | none => if c = 10 ∨ c = 13 then decodeFrom (si + 1) quad cs else .error si

/-- `DecodeString`. -/
def decode (s : List UInt8) : Except ℕ (List UInt8) := decodeFrom 0 [] s

theorem decodeFrom_char {d : ℕ} (hd : d < 64) (si : ℕ) {quad : List ℕ} (hquad : quad.length ≠ 3)
    (cs : List UInt8) :
    decodeFrom si quad (char d :: cs) = decodeFrom (si + 1) (quad ++ [d]) cs := by
  rw [decodeFrom, digit_char hd]
  exact if_neg hquad

theorem decodeFrom_last {d : ℕ} (hd : d < 64) (si : ℕ) {quad : List ℕ} (hquad : quad.length = 3)
    {cs rest : List UInt8} (hrest : decodeFrom (si + 1) [] cs = .ok rest) :
    decodeFrom si quad (char d :: cs) = .ok (bytes (quad ++ [d]) ++ rest) := by
  rw [decodeFrom, digit_char hd]
  show (if quad.length = 3 then _ else _) = _
  rw [if_pos hquad, hrest]
  rfl

/-! ### Three bytes -/

section

variable (a b c : UInt8)

theorem ofNat_value_first : UInt8.ofNat (value a b c / 65536) = a := by
  have hb := b.toNat_lt
  have hc := c.toNat_lt
  have hdiv : value a b c / 65536 = a.toNat := by
    unfold value
    omega
  rw [hdiv, UInt8.ofNat_toNat]

theorem ofNat_value_second : UInt8.ofNat (value a b c / 256) = b := by
  have hb := b.toNat_lt
  have hc := c.toNat_lt
  apply UInt8.toNat_inj.1
  rw [UInt8.toNat_ofNat']
  unfold value
  omega

theorem ofNat_value_third : UInt8.ofNat (value a b c) = c := by
  have hc := c.toNat_lt
  apply UInt8.toNat_inj.1
  rw [UInt8.toNat_ofNat']
  unfold value
  omega

theorem value_lt : value a b c < 16777216 := by
  have ha := a.toNat_lt
  have hb := b.toNat_lt
  have hc := c.toNat_lt
  unfold value
  omega

/-- The digits of a number make up its bytes. -/
theorem bytes_of_number {quad : List ℕ} (h : number quad = value a b c) :
    bytes quad = [a, b, c].take (quad.length - 1) := by
  rw [bytes, h, ofNat_value_first, ofNat_value_second, ofNat_value_third]

theorem number_four : number [value a b c / 262144 % 64, value a b c / 4096 % 64,
    value a b c / 64 % 64, value a b c % 64] = value a b c := by
  have h := value_lt a b c
  simp only [number]
  omega

theorem number_three : number [value a b 0 / 262144 % 64, value a b 0 / 4096 % 64,
    value a b 0 / 64 % 64] = value a b 0 := by
  have h := value_lt a b 0
  have hzero : (0 : UInt8).toNat = 0 := rfl
  simp only [number, value, hzero] at h ⊢
  omega

theorem number_two :
    number [value a 0 0 / 262144 % 64, value a 0 0 / 4096 % 64] = value a 0 0 := by
  have h := value_lt a 0 0
  have hzero : (0 : UInt8).toNat = 0 := rfl
  simp only [number, value, hzero] at h ⊢
  omega

end

/-- **Decoding inverts encoding.** -/
theorem decode_encode (bs : List UInt8) : decode (encode bs) = .ok bs := by
  have hfrom : ∀ si, decodeFrom si [] (encode bs) = .ok bs := by
    have hlt : ∀ n, n % 64 < 64 := fun n => Nat.mod_lt n (by decide)
    -- Groups of three bytes, as `encode` cuts them.
    fun_induction encode bs with
    | case1 a b c rest ih =>
      intro si
      rw [decodeFrom_char (hlt _) _ (by simp), decodeFrom_char (hlt _) _ (by simp),
        decodeFrom_char (hlt _) _ (by simp), decodeFrom_last (hlt _) _ rfl (ih _)]
      exact congrArg (fun group => Except.ok (group ++ rest))
        (bytes_of_number a b c (number_four a b c))
    | case2 a b =>
      intro si
      rw [decodeFrom_char (hlt _) _ (by simp), decodeFrom_char (hlt _) _ (by simp),
        decodeFrom_char (hlt _) _ (by simp)]
      exact congrArg Except.ok (bytes_of_number a b 0 (number_three a b))
    | case3 a =>
      intro si
      rw [decodeFrom_char (hlt _) _ (by simp), decodeFrom_char (hlt _) _ (by simp)]
      exact congrArg Except.ok (bytes_of_number a 0 0 (number_two a))
    | case4 => exact fun _ => rfl
  exact hfrom 0

end Base64
