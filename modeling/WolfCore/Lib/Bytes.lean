import Mathlib.Tactic

/-!
# Go strings as bytes

A Go string is a list of bytes.  Where a function only ever looks at ASCII characters, its model
works on characters; `ofAscii` and `toText` go from one to the other.  `splitN` is
`strings.SplitN` for a separator of one byte.
-/

namespace Go.Bytes

/-- The bytes of an ASCII text. -/
def ofAscii (s : String) : List UInt8 := s.toList.map fun c => UInt8.ofNat c.toNat

/-- A text with one character for each byte; bytes beyond ASCII give characters beyond ASCII. -/
def toText (bs : List UInt8) : String := String.ofList (bs.map fun b => Char.ofNat b.toNat)

theorem toText_ofAscii {s : String} (h : ∀ c ∈ s.toList, c.toNat < 256) :
    toText (ofAscii s) = s := by
  have hmap : (ofAscii s).map (fun b => Char.ofNat b.toNat) = s.toList := by
    unfold ofAscii
    rw [List.map_map]
    refine (List.map_congr_left fun c hc => ?_).trans (List.map_id _)
    show Char.ofNat (UInt8.ofNat c.toNat).toNat = c
    rw [UInt8.toNat_ofNat', Nat.mod_eq_of_lt (h c hc), Char.ofNat_toNat]
  rw [toText, hmap, String.ofList_toList]

/-- `strings.SplitN(s, sep, n)`, for `n` that is not negative. -/
def splitN (sep : UInt8) : (n : ℕ) → (s : List UInt8) → List (List UInt8)
  | 0, _ => []
  | 1, s => [s]
  | n + 2, s =>
      if sep ∈ s then
        s.takeWhile (· ≠ sep) :: splitN sep (n + 1) ((s.dropWhile (· ≠ sep)).drop 1)
      else [s]

/-- Only the first separator counts for two parts. -/
theorem splitN_two {sep : UInt8} {s : List UInt8} (hs : sep ∉ s) (rest : List UInt8) :
    splitN sep 2 (s ++ sep :: rest) = [s, rest] := by
  have hne : ∀ b ∈ s, decide (b ≠ sep) = true := fun b hb =>
    decide_eq_true fun heq => hs (heq ▸ hb)
  rw [splitN, if_pos (by simp), List.takeWhile_append_of_pos hne,
    List.dropWhile_append_of_pos hne]
  simp [splitN]

end Go.Bytes
