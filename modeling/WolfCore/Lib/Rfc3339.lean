import WolfCore.Lib.Decimal
import WolfCore.Lib.Civil

/-!
# Timestamps in Go's `time` package

An instant is the number of nanoseconds since January 1 of year 1 UTC.  `format` is
`t.UTC().Format("2006-01-02T15:04:05.999999999Z")` and `parse` is `time.Parse(time.RFC3339Nano, _)`.
Parsing inverts formatting for the years 0 to 9999, and rejects every other year (`parse_format`).

Both work on lists of characters: every character they produce or accept is ASCII.
-/

namespace Rfc3339

open Civil Decimal

/-! ### Fractions of a second -/

/-- `.999999999` in a layout: the nanoseconds without trailing zeros, or nothing. -/
def fraction (ns : ℕ) : List Char :=
  match (pad 9 ns).rdropWhile (· = '0') with
  | [] => []
  | c :: cs => '.' :: c :: cs

/-- `parseNanoseconds`, for the digits after the point. -/
def nanoseconds (ds : List Char) : ℕ := natOf (ds.take 9) * 10 ^ (9 - ds.length)

/-- An optional fraction of a second. -/
def readFraction : List Char → ℕ × List Char
  | p :: c :: cs =>
      if (p = '.' ∨ p = ',') ∧ c.isDigit then
        (nanoseconds ((c :: cs).takeWhile Char.isDigit), (c :: cs).dropWhile Char.isDigit)
      else (0, p :: c :: cs)
  | cs => (0, cs)

/-- Reading back a fraction that no digit follows. -/
theorem readFraction_fraction {ns : ℕ} (hns : ns < 10 ^ 9) {z : Char} (hz : z.isDigit = false)
    (hp : z ≠ '.' ∧ z ≠ ',') (rest : List Char) :
    readFraction (fraction ns ++ z :: rest) = (ns, z :: rest) := by
  have hvalue := natOf_rdropWhile (pad 9 ns)
  rw [natOf_pad, Nat.mod_eq_of_lt hns, length_pad] at hvalue
  have hpre : (pad 9 ns).rdropWhile (· = '0') <+: pad 9 ns := List.rdropWhile_prefix _ _
  have hlen := hpre.length_le
  rw [length_pad] at hlen
  unfold fraction
  cases hds : (pad 9 ns).rdropWhile (· = '0') with
  | nil =>
    rw [hds, natOf, zero_mul] at hvalue
    subst hvalue
    simp only [List.nil_append]
    unfold readFraction
    split
    · rename_i p c cs heq
      cases heq
      rw [if_neg (by simp [hp.1, hp.2])]
    · rfl
  | cons c cs =>
    rw [hds] at hvalue hlen hpre
    have hdigits : ∀ x ∈ c :: cs, x.isDigit = true :=
      fun x hx => isDigit_of_mem_pad (hpre.subset hx)
    have hc := hdigits c List.mem_cons_self
    show readFraction ('.' :: c :: (cs ++ z :: rest)) = _
    have htake : (c :: (cs ++ z :: rest)).takeWhile Char.isDigit = c :: cs := by
      rw [← List.cons_append, List.takeWhile_append_of_pos hdigits]
      simp [hz]
    have hdrop : (c :: (cs ++ z :: rest)).dropWhile Char.isDigit = z :: rest := by
      rw [← List.cons_append, List.dropWhile_append_of_pos hdigits]
      simp [hz]
    rw [readFraction, if_pos ⟨Or.inl rfl, hc⟩, htake, hdrop, nanoseconds,
      List.take_of_length_le hlen, hvalue]

/-! ### Timestamps -/

/-- A second, in nanoseconds. -/
def second : ℕ := 1000000000

/-- A day, in nanoseconds. -/
def day : ℕ := 86400 * second

def year (t : ℤ) : ℤ := (Date.ofDay (t / day)).year

/-- The date, and what follows it with the time of day in nanoseconds. -/
def formatDate (d : Date) (rest : List Char) : List Char :=
  decimal 4 d.year ++ '-' :: (pad 2 d.month ++ '-' :: (pad 2 d.day ++ 'T' :: rest))

/-- The time of day, given in nanoseconds, and what follows it. -/
def formatClock (ns : ℕ) (rest : List Char) : List Char :=
  pad 2 (ns / (3600 * second)) ++ ':' :: (pad 2 (ns / (60 * second) % 60) ++
    ':' :: (pad 2 (ns / second % 60) ++ (fraction (ns % second) ++ rest)))

/-- `t.UTC().Format("2006-01-02T15:04:05.999999999Z")`. -/
def format (t : ℤ) : String :=
  String.ofList (formatDate (Date.ofDay (t / day)) (formatClock (t % day).toNat ['Z']))

theorem format_ne_empty (t : ℤ) : format t ≠ "" := by
  intro h
  have hlist := congrArg String.toList h
  rw [format, String.toList_ofList] at hlist
  simp [formatDate] at hlist

def isStamp (c : Char) : Bool := c.isDigit || c ∈ ['-', 'T', ':', '.', 'Z']

theorem isStamp_of_mem_pad {w n : ℕ} : ∀ c ∈ pad w n, isStamp c = true := fun c hc => by
  rw [isStamp, isDigit_of_mem_pad hc, Bool.true_or]

theorem isStamp_of_mem_decimal {w : ℕ} {z : ℤ} : ∀ c ∈ decimal w z, isStamp c = true := by
  refine List.forall_mem_append.2 ⟨fun c hc => ?_, isStamp_of_mem_pad⟩
  split_ifs at hc
  · rw [List.mem_singleton.1 hc]
    decide
  · cases hc

theorem isStamp_of_mem_fraction {ns : ℕ} : ∀ c ∈ fraction ns, isStamp c = true := by
  have hpre : (pad 9 ns).rdropWhile (· = '0') <+: pad 9 ns := List.rdropWhile_prefix _ _
  unfold fraction
  cases hds : (pad 9 ns).rdropWhile (· = '0') with
  | nil => exact nofun
  | cons d ds =>
    rw [hds] at hpre
    exact List.forall_mem_cons.2 ⟨by decide, fun c hc => isStamp_of_mem_pad c (hpre.subset hc)⟩

theorem isStamp_of_mem_format {t : ℤ} : ∀ c ∈ (format t).toList, isStamp c = true := by
  have hmark : ∀ {p : Char} {ds cs : List Char}, isStamp p = true →
      (∀ c ∈ ds, isStamp c = true) → (∀ c ∈ cs, isStamp c = true) →
        ∀ c ∈ ds ++ p :: cs, isStamp c = true := fun hp hds hcs =>
    List.forall_mem_append.2 ⟨hds, List.forall_mem_cons.2 ⟨hp, hcs⟩⟩
  rw [format, String.toList_ofList]
  apply hmark (by decide) isStamp_of_mem_decimal
  apply hmark (by decide) isStamp_of_mem_pad
  apply hmark (by decide) isStamp_of_mem_pad
  apply hmark (by decide) isStamp_of_mem_pad
  apply hmark (by decide) isStamp_of_mem_pad
  refine List.forall_mem_append.2 ⟨isStamp_of_mem_pad, ?_⟩
  exact hmark (by decide) isStamp_of_mem_fraction nofun

theorem toNat_lt_of_isStamp {c : Char} (hc : isStamp c = true) : c.toNat < 128 := by
  rw [isStamp, Bool.or_eq_true, decide_eq_true_eq] at hc
  rcases hc with hc | hc
  · have hdigit : c ≤ '9' := by
      simp only [Char.isDigit, Bool.and_eq_true, decide_eq_true_eq] at hc
      exact hc.2
    exact lt_of_le_of_lt (Char.le_def.1 hdigit) (by decide)
  · fin_cases hc <;> decide

/-- A literal character. -/
def expect (c : Char) : List Char → Option (List Char)
  | c' :: cs => if c' = c then some cs else none
  | [] => none

/-- `getnum` for the hour: one or two digits. -/
def readHour (cs : List Char) : Option (ℕ × List Char) :=
  (readDigits 2 cs).or (readDigits 1 cs)

/-- `Z07:00`: the offset of the zone in seconds. -/
def readZone : List Char → Option (ℤ × List Char)
  | 'Z' :: cs => some (0, cs)
  | sign :: cs => do
      let (hour, cs) ← readDigits 2 cs
      let cs ← expect ':' cs
      let (minute, cs) ← readDigits 2 cs
      if hour ≤ 24 ∧ minute ≤ 60 then
        if sign = '+' then some ((hour * 60 + minute) * 60, cs)
        else if sign = '-' then some (-((hour * 60 + minute) * 60), cs)
        else none
      else none
  | [] => none

def readDate (cs : List Char) : Option (Date × List Char) := do
  let (year, cs) ← readDigits 4 cs
  let cs ← expect '-' cs
  let (month, cs) ← readDigits 2 cs
  let cs ← expect '-' cs
  let (day, cs) ← readDigits 2 cs
  let cs ← expect 'T' cs
  if (Date.mk year month day).Valid then some (⟨year, month, day⟩, cs) else none

/-- The time of day, in nanoseconds. -/
def readClock (cs : List Char) : Option (ℕ × List Char) := do
  let (hour, cs) ← readHour cs
  let cs ← expect ':' cs
  let (minute, cs) ← readDigits 2 cs
  let cs ← expect ':' cs
  let (sec, cs) ← readDigits 2 cs
  let (nsec, cs) := readFraction cs
  if hour < 24 ∧ minute < 60 ∧ sec < 60 then
    some (((hour * 60 + minute) * 60 + sec) * second + nsec, cs)
  else none

/-- `time.Parse(time.RFC3339Nano, s)`, as an instant. -/
def parse (s : String) : Option ℤ := do
  let (date, cs) ← readDate s.toList
  let (clock, cs) ← readClock cs
  let (offset, cs) ← readZone cs
  if cs = [] then some (date.toDay * day + clock - offset * second) else none

@[simp] theorem expect_self (c : Char) (cs : List Char) : expect c (c :: cs) = some cs := if_pos rfl

theorem expect_of_ne {c c' : Char} (h : c' ≠ c) (cs : List Char) : expect c (c' :: cs) = none :=
  if_neg h

theorem decimal_four {y : ℤ} (h₀ : 0 ≤ y) (h₁ : y ≤ 9999) : decimal 4 y = pad 4 y.toNat := by
  have hlog : Nat.log 10 y.natAbs < 4 := Nat.log_lt_of_lt_pow' (by decide) (by omega)
  have habs : y.natAbs = y.toNat := by omega
  rw [decimal, if_neg (by omega), max_eq_left (by omega), habs, List.nil_append]

theorem readDate_formatDate {d : Date} (hd : d.Valid) (h₀ : 0 ≤ d.year) (h₁ : d.year ≤ 9999)
    (rest : List Char) : readDate (formatDate d rest) = some (d, rest) := by
  have hlen := month_le d.year (d.month - 1)
  obtain ⟨hm, hm', hday, hday'⟩ := id hd
  have hyear : ((d.year.toNat : ℕ) : ℤ) = d.year := Int.toNat_of_nonneg h₀
  have hdate : (⟨(d.year.toNat : ℕ), d.month, d.day⟩ : Date) = d := by rw [hyear]
  unfold readDate formatDate
  rw [decimal_four h₀ h₁, readDigits_pad (by omega)]
  simp only [Option.bind_eq_bind, Option.bind_some, expect_self]
  rw [readDigits_pad (by omega)]
  simp only [Option.bind_some, expect_self]
  rw [readDigits_pad (by omega)]
  simp only [Option.bind_some, expect_self, hdate, if_pos hd]

/-- A date whose year has not four digits is rejected. -/
theorem readDate_eq_none {d : Date} (h : d.year < 0 ∨ 9999 < d.year) (rest : List Char) :
    readDate (formatDate d rest) = none := by
  unfold readDate formatDate
  rcases h with h | h
  · -- the sign is no digit
    have hread : ∀ cs : List Char, readDigits 4 ('-' :: cs) = none := by
      intro cs
      rw [readDigits, if_neg]
      simp
    rw [decimal, if_pos h, List.singleton_append, List.cons_append, hread]
    rfl
  · -- after four digits comes another one
    have hwidth : 4 ≤ Nat.log 10 d.year.natAbs :=
      Nat.le_log_of_pow_le (by decide) (by omega)
    obtain ⟨w, hw⟩ : ∃ w, max 4 (Nat.log 10 d.year.natAbs + 1) = 4 + (w + 1) :=
      ⟨Nat.log 10 d.year.natAbs - 4, by omega⟩
    have hdigit := digitChar_isDigit (Nat.mod_lt (d.year.natAbs / 10 ^ w) (by decide : 10 > 0))
    have hne : Nat.digitChar (d.year.natAbs / 10 ^ w % 10) ≠ '-' := by
      intro h
      rw [h] at hdigit
      exact absurd hdigit (by decide)
    rw [decimal, if_neg (by omega), hw, List.nil_append, pad_add, List.append_assoc,
      readDigits_append (length_pad _ _) fun _ hc => isDigit_of_mem_pad hc]
    simp only [Option.bind_eq_bind, Option.bind_some, pad, List.cons_append, expect_of_ne hne,
      Option.bind_none]

/-- Reading back a time of day that `Z` follows. -/
theorem readClock_formatClock {ns : ℕ} (hns : ns < day) (rest : List Char) :
    readClock (formatClock ns ('Z' :: rest)) = some (ns, 'Z' :: rest) := by
  unfold day second at hns
  unfold readClock formatClock readHour second
  rw [readDigits_pad (by omega)]
  simp only [Option.bind_eq_bind, Option.bind_some, Option.some_or, expect_self]
  rw [readDigits_pad (by omega)]
  simp only [Option.bind_some, expect_self]
  rw [readDigits_pad (by omega)]
  simp only [Option.bind_some]
  rw [readFraction_fraction (by omega) (by decide) (by decide)]
  simp only
  rw [if_pos (by omega)]
  congr 2
  omega

/-- **Parsing inverts formatting** for the years 0 to 9999, and rejects every other year. -/
theorem parse_format (t : ℤ) :
    parse (format t) = if 0 ≤ year t ∧ year t ≤ 9999 then some t else none := by
  unfold parse format
  rw [String.toList_ofList]
  split_ifs with hyear
  · have hns : (t % day).toNat < day := by
      unfold day second
      omega
    rw [readDate_formatDate (ofDay_valid _) hyear.1 hyear.2]
    simp only [Option.bind_eq_bind, Option.bind_some]
    rw [readClock_formatClock hns]
    simp only [Option.bind_some, readZone, if_true, toDay_ofDay]
    unfold day second
    congr 1
    omega
  · rw [readDate_eq_none (by unfold year at hyear; omega)]
    rfl

end Rfc3339
