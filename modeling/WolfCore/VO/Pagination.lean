import WolfCore.Lib.Base64
import WolfCore.Lib.Bytes
import WolfCore.Lib.Go
import WolfCore.Lib.Rfc3339

/-!
# Pagination (`vo/pagination.go`)

A cursor is a timestamp and an id with a `|` between them, in base64.  Strings are lists of bytes
here: an id may be any string.

* `encodeCursor`, `decodeCursor`: the two functions of these names;
* `decodeCursor_encode`: what decoding makes of the bytes in a cursor;
* `cursor_roundTrip`: a cursor gives back the instant and the id it was made of, so different pairs
  have different cursors.
-/

namespace WolfCore.VO

open Go Go.Bytes

/-! ### Pages -/

/-- `defaultPageLimit`. -/
def defaultPageLimit : ℤ := 20

/-- `maxPageLimit`. -/
def maxPageLimit : ℤ := 100

/-- `PageRequest`. -/
structure PageRequest where
  cursor : List UInt8
  limit : ℤ

/-- `PageRequest.Validate`. -/
def PageRequest.validate (p : PageRequest) : Option Err :=
  if p.limit < 0 then some (.msg ("pagination limit must be >= 0, got " ++ toString p.limit))
  else none

/-- `PageRequest.EffectiveLimit`. -/
def PageRequest.effectiveLimit (p : PageRequest) : ℤ :=
  if p.limit ≤ 0 then defaultPageLimit
  else if p.limit > maxPageLimit then maxPageLimit
  else p.limit

/-- A page has at least one item and at most the maximum; a valid request for so many gets them. -/
theorem effectiveLimit_spec (p : PageRequest) :
    (1 ≤ p.effectiveLimit ∧ p.effectiveLimit ≤ maxPageLimit) ∧
      (p.validate = none → p.limit ≠ 0 → p.effectiveLimit = min p.limit maxPageLimit) := by
  unfold PageRequest.effectiveLimit PageRequest.validate defaultPageLimit maxPageLimit
  constructor
  · split_ifs <;> omega
  · intro hvalid hne
    split_ifs at hvalid ⊢ <;> omega

/-- `PageResponse`. -/
structure PageResponse (T : Type) where
  items : List T
  nextCursor : List UInt8
  hasMore : Bool
  totalCount : ℤ

/-- `MapPage`. -/
def mapPage {T U : Type} (page : PageResponse T) (fn : T → U) : PageResponse U where
  items := page.items.map fn
  nextCursor := page.nextCursor
  hasMore := page.hasMore
  totalCount := page.totalCount

theorem mapPage_mapPage {T U V : Type} (page : PageResponse T) (fn : T → U) (fn' : U → V) :
    mapPage (mapPage page fn) fn' = mapPage page (fn' ∘ fn) := by
  simp only [mapPage, List.map_map]

/-! ### Cursors -/

/-- A `time.Time`: an instant, in nanoseconds since January 1 of year 1 UTC, in some location. -/
structure Time where
  instant : ℤ
  location : String
  deriving DecidableEq

/-- `Time.UTC`. -/
def Time.utc (t : Time) : Time := { t with location := "UTC" }

/-- The byte `|`. -/
def separator : UInt8 := 124

/-- `createdAt.UTC().Format(time.RFC3339Nano) + "|" + id`. -/
def rawCursor (createdAt : Time) (id : List UInt8) : List UInt8 :=
  ofAscii (Rfc3339.format createdAt.utc.instant) ++ separator :: id

/-- `EncodeCursor`. -/
def encodeCursor (createdAt : Time) (id : List UInt8) : List UInt8 :=
  Base64.encode (rawCursor createdAt id)

/-- `base64.CorruptInputError`. -/
def corruptInputError (place : ℕ) : Err :=
  .msg ("illegal base64 data at input byte " ++ toString place)

/-- `DecodeCursor`, with the instant of the time; `parseError` is the error of `time.Parse` for a
text that it rejects. -/
def decodeCursor (parseError : List UInt8 → Err) (cursor : List UInt8) :
    Except Err (ℤ × List UInt8) :=
  match Base64.decode cursor with
  | .error place => .error (.wrap "cursor: decode base64: %w" none (corruptInputError place))
  | .ok raw =>
      match splitN separator 2 raw with
      | [createdAt, id] =>
          match Rfc3339.parse (toText createdAt) with
          | none => .error (.wrap "cursor: parse time: %w" none (parseError createdAt))
          | some t => .ok (t, id)
      | _ => .error (.msg "cursor: invalid format")

/-- The separator is in no timestamp. -/
theorem separator_notMem (t : ℤ) : separator ∉ ofAscii (Rfc3339.format t) := by
  intro hmem
  obtain ⟨c, hc, hbyte⟩ := List.mem_map.1 hmem
  have hstamp := Rfc3339.isStamp_of_mem_format c hc
  have hlt := Rfc3339.toNat_lt_of_isStamp hstamp
  have hcode : c.toNat = 124 := by
    have htoNat := congrArg UInt8.toNat hbyte
    rw [UInt8.toNat_ofNat', Nat.mod_eq_of_lt (by omega)] at htoNat
    exact htoNat
  have hbar : c = '|' := by rw [← Char.ofNat_toNat c, hcode]
  rw [hbar] at hstamp
  exact absurd hstamp (by decide)

/-- The text before the separator, and the id behind it. -/
theorem decodeCursor_encode (parseError : List UInt8 → Err) {text : List UInt8}
    (htext : separator ∉ text) (id : List UInt8) :
    decodeCursor parseError (Base64.encode (text ++ separator :: id)) =
      match Rfc3339.parse (toText text) with
      | none => .error (.wrap "cursor: parse time: %w" none (parseError text))
      | some t => .ok (t, id) := by
  simp only [decodeCursor, Base64.decode_encode, splitN_two htext]

theorem toText_format (t : ℤ) : toText (ofAscii (Rfc3339.format t)) = Rfc3339.format t := by
  refine toText_ofAscii fun c hc => ?_
  have := Rfc3339.toNat_lt_of_isStamp (Rfc3339.isStamp_of_mem_format c hc)
  omega

theorem decodeCursor_encodeCursor (parseError : List UInt8 → Err) (createdAt : Time)
    (hyear : 0 ≤ Rfc3339.year createdAt.instant ∧ Rfc3339.year createdAt.instant ≤ 9999)
    (id : List UInt8) :
    decodeCursor parseError (encodeCursor createdAt id) = .ok (createdAt.instant, id) := by
  have hparse : Rfc3339.parse (toText (ofAscii (Rfc3339.format createdAt.utc.instant))) =
      some createdAt.instant := by
    rw [toText_format, Rfc3339.parse_format]
    exact if_pos hyear
  rw [encodeCursor, rawCursor, decodeCursor_encode parseError (separator_notMem _), hparse]

/-- **Cursors round-trip.**  For every time whose year in UTC is 0 to 9999, in any location, and for
every id, decoding a cursor gives back the instant and the id; so two such pairs with the same
cursor are the same. -/
theorem cursor_roundTrip (parseError : List UInt8 → Err) (createdAt : Time)
    (hyear : 0 ≤ Rfc3339.year createdAt.instant ∧ Rfc3339.year createdAt.instant ≤ 9999)
    (id : List UInt8) :
    decodeCursor parseError (encodeCursor createdAt id) = .ok (createdAt.instant, id) ∧
      ∀ (createdAt' : Time) (id' : List UInt8),
        0 ≤ Rfc3339.year createdAt'.instant ∧ Rfc3339.year createdAt'.instant ≤ 9999 →
          encodeCursor createdAt id = encodeCursor createdAt' id' →
            createdAt.instant = createdAt'.instant ∧ id = id' := by
  have hdecode := decodeCursor_encodeCursor parseError createdAt hyear id
  refine ⟨hdecode, fun createdAt' id' hyear' hcursor => ?_⟩
  rw [hcursor, decodeCursor_encodeCursor parseError createdAt' hyear' id'] at hdecode
  obtain ⟨hinstant, hid⟩ := Prod.mk.inj (Except.ok.inj hdecode)
  exact ⟨hinstant.symm, hid.symm⟩

/-- An id that has the separator and a byte beyond ASCII in it. -/
theorem cursor_roundTrip_bar :
    decodeCursor (fun _ => .msg "") (encodeCursor ⟨0, "Local"⟩ [124, 255, 124]) =
      .ok (0, [124, 255, 124]) :=
  (cursor_roundTrip (fun _ => .msg "") ⟨0, "Local"⟩ (by decide) [124, 255, 124]).1

end WolfCore.VO
