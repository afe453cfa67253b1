import WolfCore.Lib.Statement
import WolfCore.Outbox.Statements

/-!
# Statements with a list of ids (`infra/events/outbox/store.go`)

`MarkPublished` and `claimEntriesTx` build the text of their statements: `buildINClause` makes a
placeholder for each id, behind one for a leading argument.  Here the two functions execute that
text.  They do what the statements of `Store` say (`execMarkPublished_table`,
`execClaimEntriesTx_table`), and every placeholder stands for an argument (`statements_exact`).

Ids are compared as values of the column.
-/

namespace WolfCore.Outbox

open Go Sql

/-- `buildINClause`. -/
def buildINClause (leadArg : Value) (ids : List String) : String × List Value :=
  (",".intercalate (ids.mapIdx fun i _ => placeholder (i + 2)), leadArg :: ids.map .text)

/-- The statement of `MarkPublished`. -/
def markPublishedQuery (inClause : String) : String :=
  "UPDATE outbox_events SET published_at = NOW() WHERE lease_token = $1 AND id IN (" ++ inClause ++
    ")"

/-- The statement of `claimEntriesTx`. -/
def claimEntriesQuery (inClause : String) : String :=
  "UPDATE outbox_events SET claimed_at = NOW(), lease_token = $1 WHERE id IN (" ++ inClause ++ ")"

/-- A column that may be NULL. -/
def ofOption {α : Type} (f : α → Value) : Option α → Value
  | some a => f a
  | none => .null

/-- The columns of `outbox_events` that the two statements name. -/
def outboxColumns : Columns Row where
  table := "outbox_events"
  get
    | "id", r => some (.text r.id)
    | "lease_token", r => some (ofOption .text r.leaseToken)
    | "claimed_at", r => some (ofOption .time r.claimedAt)
    | "published_at", r => some (ofOption .time r.publishedAt)
    | _, _ => none
  set
    | "id", .text s, r => some { r with id := s }
    | "lease_token", .text s, r => some { r with leaseToken := some s }
    | "lease_token", .null, r => some { r with leaseToken := none }
    | "claimed_at", .time t, r => some { r with claimedAt := some t }
    | "claimed_at", .null, r => some { r with claimedAt := none }
    | "published_at", .time t, r => some { r with publishedAt := some t }
    | "published_at", .null, r => some { r with publishedAt := none }
    | _, _, _ => none

/-- `ExecContext`, with the text around its error; `dbError` is the error of a statement that the
database rejects. -/
def execContext (wrapping : String) (dbError : Err) (now : ℤ) (query : String) (args : List Value)
    (rows : List Row) : Option Err × List Row :=
  match execText outboxColumns query args now rows with
  | some rows' => (none, rows')
  | none => (some (.wrap wrapping none dbError), rows)

/-- `Store.MarkPublished`. -/
def execMarkPublished (dbError : Err) (now : ℤ) (ids : List String) (leaseToken : String)
    (rows : List Row) : Option Err × List Row :=
  if ids.length = 0 then (none, rows)
  else
    execContext "outbox: mark published: %w" dbError now
      (markPublishedQuery (buildINClause (.text leaseToken) ids).1)
      (buildINClause (.text leaseToken) ids).2 rows

/-- `claimEntriesTx`. -/
def execClaimEntriesTx (dbError : Err) (now : ℤ) (ids : List String) (token : String)
    (rows : List Row) : Option Err × List Row :=
  execContext "outbox: claim entries: %w" dbError now
    (claimEntriesQuery (buildINClause (.text token) ids).1) (buildINClause (.text token) ids).2 rows

theorem execContext_of_some {query : String} {args : List Value} {now : ℤ} {rows rows' : List Row}
    (h : execText outboxColumns query args now rows = some rows') (wrapping : String)
    (dbError : Err) : execContext wrapping dbError now query args rows = (none, rows') := by
  rw [execContext, h]

/-! ### The clause -/

section

variable {ids : List String}

theorem buildINClause_fst (leadArg : Value) (ids : List String) :
    (buildINClause leadArg ids).1 =
      ",".intercalate ((List.range' 2 ids.length).map placeholder) := by
  have hmap : ids.mapIdx (fun i _ => placeholder (i + 2)) =
      (List.range' 2 ids.length).map placeholder := by
    apply List.ext_getElem
    · simp
    · intro i h h'
      simp [add_comm]
  rw [buildINClause, hmap]

theorem length_args (leadArg : Value) (ids : List String) :
    (buildINClause leadArg ids).2.length = ids.length + 1 := by
  simp [buildINClause]

/-- The placeholders of the clause stand for the ids. -/
theorem mapM_arg_ids (leadArg : Value) (ids : List String) :
    (List.range' 2 ids.length).mapM (arg (buildINClause leadArg ids).2) =
      some (ids.map .text) := by
  have h := mapM_arg_range [leadArg] (ids.map .text)
  rw [List.length_map] at h
  exact h

theorem range_ne_nil (hids : ids ≠ []) : List.range' 2 ids.length ≠ [] := by
  rw [Ne, List.range'_eq_nil_iff, List.length_eq_zero_iff]
  exact hids

/-- A text that ends with the clause in parentheses. -/
theorem tokens_of_clause (hids : ids ≠ []) {text : String} {ts : List Token}
    (htext : text.toList.foldlM scan ([], .blank) = some (ts.reverse, .blank)) (leadArg : Value) :
    tokens (text ++ (buildINClause leadArg ids).1 ++ ")") =
      some (ts ++ items (List.range' 2 ids.length)) := by
  have hscan := foldlM_scan_params (range_ne_nil hids) ts.reverse
  rw [← buildINClause_fst leadArg ids] at hscan
  have hlist : (text ++ (buildINClause leadArg ids).1 ++ ")").toList =
      text.toList ++ ((buildINClause leadArg ids).1.toList ++ [')']) := by
    rw [String.toList_append, String.toList_append, List.append_assoc]
    rfl
  unfold tokens
  rw [hlist, List.foldlM_append, htext, Option.bind_eq_bind, Option.bind_some, hscan]
  simp [Scan.finish]

/-- If the text before the clause has the one parameter `$1`, the parameters are those of the
arguments. -/
theorem bound_of_clause {ts : List Token} (hts : params ts = [1]) (leadArg : Value) :
    Bound (ts ++ items (List.range' 2 ids.length)) (buildINClause leadArg ids).2 := by
  have hparams : ∀ n, n ∈ params (ts ++ items (List.range' 2 ids.length)) ↔
      1 ≤ n ∧ n ≤ ids.length + 1 := by
    intro n
    rw [params, List.filterMap_append, ← params, ← params, hts, params_items, List.mem_append,
      List.mem_singleton, List.mem_range'_1]
    omega
  unfold Bound
  rw [length_args]
  exact ⟨fun n hn => (hparams n).1 hn, fun n hpos hle => (hparams n).2 ⟨hpos, hle⟩⟩

/-- A statement with the clause, once it is known what its conditions and its assignments do. -/
theorem execText_clause (hids : ids ≠ []) {text : String} {ts : List Token} {u : Update}
    {leadArg : Value} {now : ℤ} {p : Row → Bool} {f : Row → Row}
    (htext : text.toList.foldlM scan ([], .blank) = some (ts.reverse, .blank))
    (hts : params ts = [1])
    (hparse : parse (ts ++ items (List.range' 2 ids.length)) = some u)
    (htable : u.table = "outbox_events")
    (hp : ∀ r, u.holds outboxColumns (buildINClause leadArg ids).2 r = some (p r))
    (hf : ∀ r, u.assign outboxColumns (buildINClause leadArg ids).2 now r = some (f r))
    (rows : List Row) :
    execText outboxColumns (text ++ (buildINClause leadArg ids).1 ++ ")")
      (buildINClause leadArg ids).2 now rows = some (rows.map fun r => if p r then f r else r) := by
  unfold execText
  rw [tokens_of_clause hids htext leadArg]
  simp only [hparse]
  rw [if_pos ⟨htable, bound_of_clause hts leadArg⟩]
  exact Update.exec_eq hp hf rows

end

/-! ### Conditions -/

theorem holds_isIn (leadArg : Value) (ids : List String) (r : Row) :
    (Cond.isIn "id" (List.range' 2 ids.length)).holds outboxColumns (buildINClause leadArg ids).2
      r = some (decide (r.id ∈ ids)) := by
  show ((List.range' 2 ids.length).mapM (arg (buildINClause leadArg ids).2)).bind _ = _
  rw [mapM_arg_ids]
  show some (decide (Value.text r.id ≠ .null) && decide (Value.text r.id ∈ ids.map .text)) = _
  simp

/-- `lease_token = $1`; no token equals NULL. -/
theorem holds_leaseToken (token : String) (ids : List String) (r : Row) :
    (Cond.eq "lease_token" 1).holds outboxColumns (buildINClause (.text token) ids).2 r =
      some (decide (r.leaseToken = some token)) := by
  show some (decide (ofOption .text r.leaseToken ≠ .null) &&
    decide (ofOption .text r.leaseToken = .text token)) = _
  cases r.leaseToken <;> simp [ofOption]

/-! ### The texts -/

/-- The tokens of the statement of `MarkPublished` before the clause. -/
def markPublishedTokens : List Token :=
  [.keyword .UPDATE, .name "outbox_events", .keyword .SET, .name "published_at", .eq,
    .keyword .NOW, .lpar, .rpar, .keyword .WHERE, .name "lease_token", .eq, .param 1,
    .keyword .AND, .name "id", .keyword .IN, .lpar]

/-- The tokens of the statement of `claimEntriesTx` before the clause. -/
def claimEntriesTokens : List Token :=
  [.keyword .UPDATE, .name "outbox_events", .keyword .SET, .name "claimed_at", .eq,
    .keyword .NOW, .lpar, .rpar, .comma, .name "lease_token", .eq, .param 1, .keyword .WHERE,
    .name "id", .keyword .IN, .lpar]

theorem scan_markPublished :
    "UPDATE outbox_events SET published_at = NOW() WHERE lease_token = $1 AND id IN (".toList.foldlM
      scan ([], .blank) = some (markPublishedTokens.reverse, .blank) := by decide +kernel

theorem scan_claimEntries :
    "UPDATE outbox_events SET claimed_at = NOW(), lease_token = $1 WHERE id IN (".toList.foldlM
      scan ([], .blank) = some (claimEntriesTokens.reverse, .blank) := by decide +kernel

theorem parse_markPublished {ns : List ℕ} (hns : ns ≠ []) :
    parse (markPublishedTokens ++ items ns) = some ⟨"outbox_events", [("published_at", .now)],
      [.eq "lease_token" 1, .isIn "id" ns]⟩ := by
  show Option.map _ (Option.map _ (Option.map _ (parseItems (items ns)))) = _
  rw [parseItems_items hns]
  rfl

theorem parse_claimEntries {ns : List ℕ} (hns : ns ≠ []) :
    parse (claimEntriesTokens ++ items ns) = some ⟨"outbox_events",
      [("claimed_at", .now), ("lease_token", .param 1)], [.isIn "id" ns]⟩ := by
  show Option.map _ (Option.map _ (parseItems (items ns))) = _
  rw [parseItems_items hns]
  rfl

/-! ### The statements -/

section

variable {ids : List String} (hids : ids ≠ []) (dbError : Err) (now : ℤ) (token : String)
include hids

theorem execMarkPublished_eq (rows : List Row) : execMarkPublished dbError now ids token rows =
    (none, rows.map fun r =>
      if r.leaseToken = some token && r.id ∈ ids then { r with publishedAt := some now }
      else r) := by
  have hp : ∀ r, Update.holds ⟨"outbox_events", [("published_at", .now)],
      [.eq "lease_token" 1, .isIn "id" (List.range' 2 ids.length)]⟩ outboxColumns
        (buildINClause (.text token) ids).2 r =
      some (decide (r.leaseToken = some token) && decide (r.id ∈ ids)) := by
    intro r
    show Option.bind (List.mapM (Cond.holds outboxColumns _ r) _) _ = _
    simp [List.mapM_cons, holds_leaseToken, holds_isIn]
  have hexec : execText outboxColumns (markPublishedQuery (buildINClause (.text token) ids).1)
      (buildINClause (.text token) ids).2 now rows = some (rows.map fun r =>
        if r.leaseToken = some token && r.id ∈ ids then { r with publishedAt := some now }
        else r) :=
    execText_clause hids scan_markPublished rfl (parse_markPublished (range_ne_nil hids)) rfl hp
      (fun _ => rfl) rows
  rw [execMarkPublished, if_neg (by simpa using hids)]
  exact execContext_of_some hexec _ dbError

theorem execClaimEntriesTx_eq (rows : List Row) : execClaimEntriesTx dbError now ids token rows =
    (none, rows.map fun r =>
      if r.id ∈ ids then { r with claimedAt := some now, leaseToken := some token }
      else r) := by
  have hp : ∀ r, Update.holds ⟨"outbox_events", [("claimed_at", .now), ("lease_token", .param 1)],
      [.isIn "id" (List.range' 2 ids.length)]⟩ outboxColumns
        (buildINClause (.text token) ids).2 r = some (decide (r.id ∈ ids)) := by
    intro r
    show Option.bind (List.mapM (Cond.holds outboxColumns _ r) _) _ = _
    simp [List.mapM_cons, holds_isIn]
  have hexec : execText outboxColumns (claimEntriesQuery (buildINClause (.text token) ids).1)
      (buildINClause (.text token) ids).2 now rows = some (rows.map fun r =>
        if r.id ∈ ids then { r with claimedAt := some now, leaseToken := some token }
        else r) :=
    (execText_clause hids scan_claimEntries rfl (parse_claimEntries (range_ne_nil hids)) rfl hp
      (fun _ => rfl) rows).trans (by simp only [decide_eq_true_eq])
  exact execContext_of_some hexec _ dbError

/-- The texts do what the statements of `Store` say. -/
theorem execMarkPublished_table (t : OutboxTable) :
    execMarkPublished dbError now ids token t.rows =
      (none, (markPublished now ids token t).rows) := by
  rw [execMarkPublished_eq hids]
  rfl

theorem execClaimEntriesTx_table (t : OutboxTable) :
    execClaimEntriesTx dbError now ids token t.rows =
      (none, (claimEntriesTx now ids token t).rows) := by
  rw [execClaimEntriesTx_eq hids]
  simp only [claimEntriesTx, Table.update, decide_eq_true_eq]

end

/-- **The statements touch exactly their rows.**  For every list of ids that is not empty and every
token, `MarkPublished` sets `published_at` on exactly the rows with the token whose id is in the
list, and `claimEntriesTx` claims exactly the rows whose id is in the list.  In both texts the
parameters are `$1` for the token and one for each id: every parameter stands for an argument, and
every argument is referred to. -/
theorem statements_exact {ids : List String} (hids : ids ≠ []) (dbError : Err) (now : ℤ)
    (token : String) (rows : List Row) :
    execMarkPublished dbError now ids token rows =
      (none, rows.map fun r =>
        if r.leaseToken = some token && r.id ∈ ids then { r with publishedAt := some now }
        else r) ∧
    execClaimEntriesTx dbError now ids token rows =
      (none, rows.map fun r =>
        if r.id ∈ ids then { r with claimedAt := some now, leaseToken := some token } else r) ∧
    ∀ query ∈ [markPublishedQuery, claimEntriesQuery], ∃ ts,
      tokens (query (buildINClause (.text token) ids).1) = some ts ∧
      (∀ n ∈ params ts, 1 ≤ n ∧ n ≤ (buildINClause (.text token) ids).2.length) ∧
      ∀ n, 1 ≤ n → n ≤ (buildINClause (.text token) ids).2.length → n ∈ params ts := by
  refine ⟨execMarkPublished_eq hids dbError now token rows,
    execClaimEntriesTx_eq hids dbError now token rows, fun query hquery => ?_⟩
  rcases List.mem_pair.1 hquery with rfl | rfl
  · exact ⟨_, tokens_of_clause hids scan_markPublished _, bound_of_clause rfl _⟩
  · exact ⟨_, tokens_of_clause hids scan_claimEntries _, bound_of_clause rfl _⟩

/-- A row that has been claimed with a token. -/
def leasedRow (id token : String) : Row :=
  ⟨id, "", "", "", "", "", Metadata.zero, 0, some 0, some token, none, 0, .msg "", 0⟩

/-- An id that is in the list twice, and a row with another token. -/
theorem statements_exact_repeated :
    (execMarkPublished (.msg "") 5 ["a", "b", "a"] "t"
      [leasedRow "a" "t", leasedRow "b" "u", leasedRow "c" "t"]).2.map (·.publishedAt) =
        [some 5, none, none] :=
  congrArg (fun res => res.2.map (·.publishedAt)) (statements_exact (by decide) (.msg "") 5 "t"
    [leasedRow "a" "t", leasedRow "b" "u", leasedRow "c" "t"]).1

end WolfCore.Outbox
