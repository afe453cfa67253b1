import WolfCore.Outbox.Statements

/-!
# Releasing claims one by one and in a batch (`infra/events/outbox/store.go`)

`ReleaseClaims` should do what `ReleaseClaim` does for each of its entries.  The repository leaves
the type of the `id` column open: `query/outbox.sql` casts ids to uuid.

PostgreSQL gives an uncast parameter the type of the column it is compared with, so `WHERE id = $1`
works for a text and a uuid column, as long as the text is a uuid (`uuidIn`).  The batch statement
casts its parameters to text, and there is no operator that compares a uuid with a text.

* `execReleaseClaim`, `execReleaseClaims`: the two methods on a column of either type; on ids as the
  database prints them they are the statements of `Store` (`execReleaseClaims_of_printed`);
* `releaseEach`: single releases, one after the other;
* `releaseEach_text`: on a text column they are the batch statement, in any order;
* `releaseClaims_sameAs_iff`: when the batch is the single releases.
-/

namespace WolfCore.Outbox

open Go Sql

/-! ### The id column -/

def isHexDigit (c : Char) : Bool := c.isDigit || ('a' ≤ c && c ≤ 'f') || ('A' ≤ c && c ≤ 'F')

/-- The digits of `n` bytes, in lower case, and the rest of the text.  A hyphen may follow every
second byte but the last. -/
def uuidBytes : ℕ → List Char → Option (List Char × List Char)
  | 0, cs => some ([], cs)
  | n + 1, a :: b :: cs =>
      if isHexDigit a && isHexDigit b then
        let cs := if n % 2 = 0 ∧ 0 < n ∧ cs.head? = some '-' then cs.tail else cs
        (uuidBytes n cs).map fun r => (a.toLower :: b.toLower :: r.1, r.2)
      else none
  | _, _ => none

/-- The text PostgreSQL prints for the uuid that is written with these digits. -/
def uuidOut (digits : List Char) : String :=
  String.ofList (digits.take 8 ++ '-' :: (digits.drop 8).take 4 ++ '-' :: (digits.drop 12).take 4 ++
    '-' :: (digits.drop 16).take 4 ++ '-' :: digits.drop 20)

/-- The uuid a text stands for, as PostgreSQL prints it. -/
def uuidIn (s : String) : Option String :=
  match s.toList with
  | '\x7b' :: cs => (uuidBytes 16 cs).bind fun r => if r.2 = ['\x7d'] then some (uuidOut r.1)
      else none
  | cs => (uuidBytes 16 cs).bind fun r => if r.2 = [] then some (uuidOut r.1) else none

/-- The id an uncast parameter is compared with the column as, if the text is a value of its
type. -/
def idOperand (schema : Schema) (id : String) : Option String :=
  if schema.idIsUuid then uuidIn id else some id

/-- `Store.ReleaseClaim`. -/
def execReleaseClaim (schema : Schema) (id : String) (lastError : Err) (t : OutboxTable) :
    Option Err × OutboxTable :=
  match idOperand schema id with
  | none => (some (.wrap "outbox: release claim %q: %w" (some id)
      (.msg ("invalid input syntax for type uuid: " ++ id.quote))), t)
  | some operand => (none, releaseClaim operand lastError t)

/-- `Store.ReleaseClaims`. -/
def execReleaseClaims (schema : Schema) (entries : List ReleaseEntry) (t : OutboxTable) :
    Option Err × OutboxTable :=
  match entries with
  | [] => (none, t)
  | [e] => execReleaseClaim schema e.id e.lastError t
  | _ => releaseClaims schema entries t

/-- For ids as they are read from the column, the two methods are the statements of `Store`. -/
theorem execReleaseClaims_of_printed {schema : Schema} {entries : List ReleaseEntry}
    (h : ∀ e ∈ entries, idOperand schema e.id = some e.id) (t : OutboxTable) :
    execReleaseClaims schema entries t = releaseClaims schema entries t := by
  match entries with
  | [] => rfl
  | [e] =>
    simp only [execReleaseClaims, execReleaseClaim, h e (List.mem_singleton_self e)]
    rfl
  | _ :: _ :: _ => rfl

/-! ### One release after the other -/

/-- `ReleaseClaim` for each entry: whether all calls return nil, and the table after them. -/
def releaseEach (schema : Schema) : List ReleaseEntry → OutboxTable → Bool × OutboxTable
  | [], t => (true, t)
  | e :: es, t =>
      let r := execReleaseClaim schema e.id e.lastError t
      let rest := releaseEach schema es r.2
      (r.1.isNone && rest.1, rest.2)

/-- The batch does what the single releases do, in this order. -/
def SameAs (schema : Schema) (entries order : List ReleaseEntry) (t : OutboxTable) : Prop :=
  (execReleaseClaims schema entries t).2 = (releaseEach schema order t).2 ∧
    ((execReleaseClaims schema entries t).1 = none ↔ (releaseEach schema order t).1 = true)

section

variable {schema : Schema} {es : List ReleaseEntry} {t : OutboxTable}

theorem eq_of_rows {t t' : OutboxTable} (h : t.rows = t'.rows) : t = t' := by
  cases t
  cases t'
  cases h
  rfl

theorem mem_releaseClaim {id : String} {lastError : Err} {r' : Row} :
    r' ∈ releaseClaim id lastError t ↔
    ∃ r ∈ t, (if r.id = id then r.release lastError else r) = r' := by
  have h : r' ∈ releaseClaim id lastError t ↔ _ := Table.mem_update
  simp only [h, decide_eq_true_eq]

/-- The single releases all succeed if every id is a value of the type of the column. -/
theorem releaseEach_succeeds_iff :
    (releaseEach schema es t).1 = true ↔ ∀ e ∈ es, idOperand schema e.id ≠ none := by
  induction es generalizing t with
  | nil => simp [releaseEach]
  | cons e es ih =>
    simp only [releaseEach, Bool.and_eq_true, ih, List.forall_mem_cons]
    refine and_congr_left fun _ => ?_
    unfold execReleaseClaim
    cases idOperand schema e.id <;> simp

variable (schema es) in
/-- A row keeps its id, and is counted up once for each entry that names it. -/
theorem releaseEach_row {r : Row} (hr : r ∈ t) : ∃ r' ∈ (releaseEach schema es t).2, r'.id = r.id ∧
    r'.retryCount = r.retryCount + (es.countP fun e => idOperand schema e.id = some r.id) := by
  induction es generalizing t r with
  | nil => exact ⟨r, hr, rfl, by simp⟩
  | cons e es ih =>
    have hfirst : ∃ r₁ ∈ (execReleaseClaim schema e.id e.lastError t).2, r₁.id = r.id ∧
        r₁.retryCount = r.retryCount + if idOperand schema e.id = some r.id then 1 else 0 := by
      unfold execReleaseClaim
      cases hop : idOperand schema e.id with
      | none => exact ⟨r, hr, rfl, by simp⟩
      | some operand =>
        by_cases hid : r.id = operand
        · exact ⟨r.release e.lastError, mem_releaseClaim.2 ⟨r, hr, if_pos hid⟩, rfl, by
            simp [Row.release, hid]⟩
        · exact ⟨r, mem_releaseClaim.2 ⟨r, hr, if_neg hid⟩, rfl, by simp [Ne.symm hid]⟩
    obtain ⟨r₁, hr₁, hid₁, hcount₁⟩ := hfirst
    obtain ⟨r', hr', hid', hcount'⟩ := ih hr₁
    refine ⟨r', hr', hid'.trans hid₁, ?_⟩
    rw [hcount', hcount₁, hid₁, List.countP_cons]
    simp only [decide_eq_true_eq]
    push_cast
    omega

/-- The single releases leave a table alone none of whose rows they name. -/
theorem releaseEach_of_unnamed
    (h : ∀ e ∈ es, ∀ u, idOperand schema e.id = some u → ∀ r ∈ t, r.id ≠ u) :
    (releaseEach schema es t).2 = t := by
  induction es generalizing t with
  | nil => rfl
  | cons e es ih =>
    have hfirst : (execReleaseClaim schema e.id e.lastError t).2 = t := by
      unfold execReleaseClaim
      cases hop : idOperand schema e.id with
      | none => rfl
      | some u =>
        refine eq_of_rows ((List.map_congr_left fun r hr => if_neg ?_).trans (List.map_id _))
        simpa using h e List.mem_cons_self u hop r hr
    show (releaseEach schema es (execReleaseClaim schema e.id e.lastError t).2).2 = t
    rw [hfirst]
    exact ih fun e' he' => h e' (List.mem_cons_of_mem _ he')

/-- Of entries with distinct ids, at most one names a row. -/
theorem find?_eq_some_iff (hdistinct : (es.map (·.id)).Nodup) {id : String} {e : ReleaseEntry} :
    es.find? (·.id = id) = some e ↔ e ∈ es ∧ e.id = id := by
  constructor
  · intro h
    exact ⟨List.mem_of_find?_eq_some h, by simpa using List.find?_some h⟩
  · rintro ⟨he, rfl⟩
    cases h : es.find? (·.id = e.id) with
    | none => simpa using List.find?_eq_none.1 h e he
    | some e' =>
      have hid : e'.id = e.id := by simpa using List.find?_some h
      rw [List.inj_on_of_nodup_map hdistinct (List.mem_of_find?_eq_some h) he hid]

/-- The batch statement does not depend on the order of its values. -/
theorem releaseJoin_perm {order : List ReleaseEntry} (hperm : order.Perm es)
    (hdistinct : (es.map (·.id)).Nodup) :
    releaseJoin order t = releaseJoin es t := by
  have hdistinct' := (hperm.map (·.id)).nodup_iff.2 hdistinct
  have hfind : ∀ id, order.find? (·.id = id) = es.find? (·.id = id) :=
    fun id => Option.ext fun e => by
    rw [find?_eq_some_iff hdistinct', find?_eq_some_iff hdistinct, hperm.mem_iff]
  have hany : ∀ id, order.any (·.id = id) = es.any (·.id = id) := fun id => by
    rw [Bool.eq_iff_iff, List.any_eq_true, List.any_eq_true]
    simp only [hperm.mem_iff]
  unfold releaseJoin
  simp only [hfind, hany]

/-- On a text column, single releases of distinct ids are the batch statement. -/
theorem releaseEach_text (htext : schema.idIsUuid = false) (hdistinct : (es.map (·.id)).Nodup) :
    (releaseEach schema es t).2 = releaseJoin es t := by
  induction es generalizing t with
  | nil => exact (Table.update_false t _ _).symm
  | cons e es ih =>
    obtain ⟨hnew, hdistinct⟩ := List.nodup_cons.1 hdistinct
    have hfirst : (execReleaseClaim schema e.id e.lastError t).2 =
        releaseClaim e.id e.lastError t := by
      simp [execReleaseClaim, idOperand, htext]
    show (releaseEach schema es (execReleaseClaim schema e.id e.lastError t).2).2 = _
    rw [hfirst, ih hdistinct]
    refine eq_of_rows ((List.map_map).trans (List.map_congr_left fun r _ => ?_))
    by_cases hid : r.id = e.id
    · -- the entry names the row, and no other does
      have hnone : ∀ e' ∈ es, ¬ e'.id = e.id :=
        fun e' he' heq => hnew (List.mem_map.2 ⟨e', he', heq⟩)
      simpa [hid, Row.release] using hnone
    · simp [hid, Ne.symm hid]

/-! ### The batch -/

/-- What the batch statement does to a row that an entry names. -/
theorem mem_releaseJoin (hdistinct : (es.map (·.id)).Nodup) {e : ReleaseEntry} (he : e ∈ es)
    {r : Row} (hr : r ∈ t) (hid : r.id = e.id) : r.release e.lastError ∈ releaseJoin es t := by
  have h : r.release e.lastError ∈ releaseJoin es t ↔ _ := Table.mem_update
  refine h.2 ⟨r, hr, ?_⟩
  have hfind := (find?_eq_some_iff hdistinct).2 ⟨he, hid.symm⟩
  have hany : es.any (·.id = r.id) = true := List.any_eq_true.2 ⟨e, he, by simp [hid]⟩
  simp only [hany, if_true, hfind, Option.elim_some]

/-- What happens to the rows that the entries name, if `ReleaseClaims` succeeds. -/
theorem released_of_success (hdistinct : (es.map (·.id)).Nodup)
    (hok : (execReleaseClaims schema es t).1 = none) {e : ReleaseEntry} (he : e ∈ es) {r : Row}
    (hr : r ∈ t) (hid : idOperand schema e.id = some r.id) :
    r.release e.lastError ∈ (execReleaseClaims schema es t).2 := by
  match es with
  | [] => cases he
  | [e'] =>
    obtain rfl := List.mem_singleton.1 he
    simp only [execReleaseClaims, execReleaseClaim, hid]
    exact mem_releaseClaim.2 ⟨r, hr, if_pos rfl⟩
  | e₁ :: e₂ :: es =>
    cases hu : schema.idIsUuid with
    | true => simp [execReleaseClaims, releaseClaims, hu] at hok
    | false =>
      have hid' : r.id = e.id := by simpa [idOperand, hu, eq_comm] using hid
      have hjoin := mem_releaseJoin hdistinct he hr hid'
      simpa [execReleaseClaims, releaseClaims, hu] using hjoin

/-- One entry or none: `ReleaseClaims` is `ReleaseClaim`. -/
theorem sameAs_of_short (hshort : es.length ≤ 1) {order : List ReleaseEntry}
    (hperm : order.Perm es) : SameAs schema es order t := by
  rcases es with _ | ⟨e, _ | ⟨e', es⟩⟩
  · rw [List.perm_nil.1 hperm]
    exact ⟨rfl, by simp [execReleaseClaims, releaseEach]⟩
  · rw [List.perm_singleton.1 hperm]
    exact ⟨rfl, by simp [execReleaseClaims, releaseEach]⟩
  · simp at hshort

/-- Two entries or more go to the batch statement, which is a type error on a uuid column. -/
theorem execReleaseClaims_of_long (hlong : 1 < es.length) :
    execReleaseClaims schema es t =
      if schema.idIsUuid then
        (some (.wrap "outbox: batch release claims: %w" none
          (.msg "operator does not exist: uuid = text")), t)
      else (none, releaseJoin es t) := by
  rcases es with _ | ⟨e₁, _ | ⟨e₂, es⟩⟩
  · simp at hlong
  · simp at hlong
  · rfl

/-- On a text column the batch statement is the single releases. -/
theorem sameAs_of_text (htext : schema.idIsUuid = false) (hlong : 1 < es.length)
    (hdistinct : (es.map (·.id)).Nodup) {order : List ReleaseEntry} (hperm : order.Perm es) :
    SameAs schema es order t := by
  have hdistinct' := (hperm.map (·.id)).nodup_iff.2 hdistinct
  have hbatch : execReleaseClaims schema es t = (none, releaseJoin es t) := by
    rw [execReleaseClaims_of_long hlong, htext]
    rfl
  constructor
  · rw [hbatch, releaseEach_text htext hdistinct', releaseJoin_perm hperm hdistinct]
  · rw [hbatch]
    exact iff_of_true rfl
      (releaseEach_succeeds_iff.2 fun e _ => by simp [idOperand, htext])

/-- On a uuid column the batch statement is a type error; the single releases have the same effect
if one of them fails and none finds a row. -/
theorem sameAs_iff_of_uuid (huuid : schema.idIsUuid = true) (hlong : 1 < es.length) :
    (∀ order : List ReleaseEntry, order.Perm es → SameAs schema es order t) ↔
      (∃ e ∈ es, uuidIn e.id = none) ∧
        ∀ e ∈ es, ∀ u, uuidIn e.id = some u → ∀ r ∈ t, r.id ≠ u := by
  have htable : (execReleaseClaims schema es t).2 = t := by
    rw [execReleaseClaims_of_long hlong, huuid]
    rfl
  have hfailed : (execReleaseClaims schema es t).1 ≠ none := by
    rw [execReleaseClaims_of_long hlong, huuid]
    simp
  have hop : ∀ id, idOperand schema id = uuidIn id := fun id => if_pos huuid
  constructor
  · intro hsame
    obtain ⟨heffect, hsuccess⟩ := hsame es (List.Perm.refl _)
    constructor
    · have hnot := mt (hsuccess.2 ∘ releaseEach_succeeds_iff.2) hfailed
      simpa [hop] using hnot
    · intro e he u heu r hr hid
      obtain ⟨r', hr', hid', hcount⟩ := releaseEach_row schema es hr
      rw [← heffect, htable] at hr'
      rw [t.eq_of_key hr' hr hid'] at hcount
      have hpos : 0 < es.countP fun e => idOperand schema e.id = some r.id :=
        List.countP_pos_iff.2 ⟨e, he, by simp [hop, heu, hid]⟩
      omega
  · rintro ⟨⟨e, he, hinvalid⟩, hunnamed⟩ order hperm
    constructor
    · rw [htable, releaseEach_of_unnamed fun e' he' u hu' =>
        hunnamed e' (hperm.subset he') u (hop _ ▸ hu')]
    · refine iff_of_false hfailed fun hsuccess => ?_
      exact releaseEach_succeeds_iff.1 hsuccess e (hperm.mem_iff.2 he) ((hop e.id).trans hinvalid)

/-- **A batch of releases and single releases.**  For entries with distinct ids, `ReleaseClaims` has
the effect and the success of `ReleaseClaim` for each entry, in every order, if and only if the
column has type text, or there is at most one entry, or some id is no uuid and no other one is the
id of a row.  If it succeeds, every row that an entry names is unclaimed, with the error of that
entry and one more retry. -/
theorem releaseClaims_sameAs_iff (schema : Schema) (entries : List ReleaseEntry)
    (hdistinct : (entries.map (·.id)).Nodup) (t : OutboxTable) :
    ((∀ order : List ReleaseEntry, order.Perm entries → SameAs schema entries order t) ↔
      schema.idIsUuid = false ∨ entries.length ≤ 1 ∨
        (∃ e ∈ entries, uuidIn e.id = none) ∧ ∀ e ∈ entries, ∀ u, uuidIn e.id = some u → ∀ r ∈ t,
          r.id ≠ u) ∧
    ((execReleaseClaims schema entries t).1 = none → ∀ e ∈ entries, ∀ r ∈ t, idOperand schema e.id =
      some r.id →
      r.release e.lastError ∈ (execReleaseClaims schema entries t).2) := by
  refine ⟨?_, fun hok e he r hr hid => released_of_success hdistinct hok he hr hid⟩
  by_cases hshort : entries.length ≤ 1
  · exact iff_of_true (fun order hperm => sameAs_of_short hshort hperm) (Or.inr (Or.inl hshort))
  · have hlong : 1 < entries.length := Nat.lt_of_not_le hshort
    cases hu : schema.idIsUuid with
    | false =>
      exact iff_of_true (fun order hperm => sameAs_of_text hu hlong hdistinct hperm) (Or.inl rfl)
    | true =>
      simp only [Bool.true_eq_false, hshort, false_or]
      exact sameAs_iff_of_uuid hu hlong

end

/-- A table definition that leaves everything but the type of the id open. -/
def schemaWith (idIsUuid : Bool) : Schema := ⟨none, some "", idIsUuid, some⟩

def claimedRow (id : String) (seq : ℕ) : Row :=
  ⟨id, "order", "o1", "order.placed", "\x7b\x7d", "", .zero, 0, some 1, some "t1", none, 0,
    .msg "", seq⟩

def claimedTable : OutboxTable :=
  ⟨[claimedRow "6f1c2d3e-0000-4000-8000-000000000001" 0,
    claimedRow "6f1c2d3e-0000-4000-8000-000000000002" 1], by decide⟩

/-- Both rows could not be published. -/
def bothFailed : List ReleaseEntry :=
  [⟨"6f1c2d3e-0000-4000-8000-000000000001", .msg "timeout"⟩,
    ⟨"6f1c2d3e-0000-4000-8000-000000000002", .msg "refused"⟩]

/-- On a text column the batch releases both rows, each with its error. -/
theorem releaseClaims_sameAs_text : SameAs (schemaWith false) bothFailed bothFailed claimedTable ∧
    (execReleaseClaims (schemaWith false) bothFailed claimedTable).2.rows.map
      (fun r => (r.claimedAt, r.retryCount, r.lastError)) =
      [(none, 1, .msg "timeout"), (none, 1, .msg "refused")] :=
  ⟨(releaseClaims_sameAs_iff (schemaWith false) bothFailed (by decide) claimedTable).1.2
    (Or.inl rfl) _ (.refl _), by decide⟩

/-- On a uuid column the single releases succeed and the batch fails, and leaves both rows
claimed. -/
theorem batch_fails_on_uuid :
    (releaseEach (schemaWith true) bothFailed claimedTable).1 = true ∧
    (releaseEach (schemaWith true) bothFailed claimedTable).2.rows.map
      (fun r => (r.claimedAt, r.retryCount)) =
      [(none, 1), (none, 1)] ∧
    (execReleaseClaims (schemaWith true) bothFailed claimedTable).1 =
      some (.wrap "outbox: batch release claims: %w" none
        (.msg "operator does not exist: uuid = text")) ∧
    (execReleaseClaims (schemaWith true) bothFailed claimedTable).2.rows.map
      (fun r => (r.claimedAt, r.retryCount)) =
      [(some 1, 0), (some 1, 0)] := by
  decide

end WolfCore.Outbox
