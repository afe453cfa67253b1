import Mathlib.Tactic
import WolfCore.Lib.Decimal

/-!
# UPDATE statements with positional parameters

From the text of a statement to what it does: `tokens` is the scanner, `parse` the parser,
`Update.exec` the meaning for a list of arguments, and `execText` all of them.  The grammar is

    UPDATE table SET column = value, …, column = value WHERE condition AND … AND condition

where a value is a parameter `$n` or `NOW()`, and a condition is `column = $n`, or at the end
`column IN ($n, …, $n)`.  A comparison with NULL is not true.

The database rejects a statement whose parameters are not `$1` to `$n` for `n` arguments: it has no
value for a parameter beyond them, and no type for an argument that is not used.

* `foldlM_scan_params`: the tokens of a list of parameters; `mapM_arg_range`: the values of
  consecutive ones;
* `Update.exec_eq`: an update changes the rows for which its conditions are true.
-/

namespace Sql

/-- A value in a column, or of an argument. -/
inductive Value
  | null
  | text (s : String)
  | time (t : ℤ)
  deriving DecidableEq

/-! ### Tokens -/

inductive Keyword
  | UPDATE
  | SET
  | WHERE
  | AND
  | IN
  | NOW
  deriving DecidableEq

inductive Token
  | keyword (k : Keyword)
  | name (s : String)
  | param (n : ℕ)
  | eq
  | comma
  | lpar
  | rpar
  deriving DecidableEq

/-- A word is a keyword or a name. -/
def wordToken : String → Token
  | "UPDATE" => .keyword .UPDATE
  | "SET" => .keyword .SET
  | "WHERE" => .keyword .WHERE
  | "AND" => .keyword .AND
  | "IN" => .keyword .IN
  | "NOW" => .keyword .NOW
  | s => .name s

/-- What the scanner has read of the token at hand. -/
inductive Scan
  /-- nothing -/
  | blank
  /-- the letters of a word, last first -/
  | word (letters : List Char)
  /-- a dollar sign -/
  | dollar
  /-- a dollar sign and some digits -/
  | param (n : ℕ)
  deriving DecidableEq

def isWordChar (c : Char) : Bool := c.isAlphanum || c = '_'

/-- One more character of the same token. -/
def Scan.extend : Scan → Char → Option Scan
  | blank, _ => none
  | word letters, c => if isWordChar c then some (word (c :: letters)) else none
  | dollar, c => if c.isDigit then some (param (c.toNat - 48)) else none
  | param n, c => if c.isDigit then some (param (n * 10 + (c.toNat - 48))) else none

/-- The token that ends here, if there is one. -/
def Scan.finish : Scan → Option (List Token)
  | blank => some []
  | word letters => some [wordToken (String.ofList letters.reverse)]
  | dollar => none
  | param n => some [.param n]

/-- A character that is not part of the token before it. -/
def Scan.start (c : Char) : Option (List Token × Scan) :=
  if c = '$' then some ([], dollar)
  else if isWordChar c then some ([], word [c])
  else if c = '=' then some ([.eq], blank)
  else if c = ',' then some ([.comma], blank)
  else if c = '(' then some ([.lpar], blank)
  else if c = ')' then some ([.rpar], blank)
  else if c.isWhitespace then some ([], blank)
  else none

/-- One character; the tokens so far, last first. -/
def scan (st : List Token × Scan) (c : Char) : Option (List Token × Scan) :=
  match st.2.extend c with
  | some s => some (st.1, s)
  | none =>
      match st.2.finish, Scan.start c with
      | some done, some (symbol, s) => some (symbol ++ done ++ st.1, s)
      | _, _ => none

def tokens (text : String) : Option (List Token) :=
  match text.toList.foldlM scan ([], .blank) with
  | some (acc, s) => s.finish.map fun done => (done ++ acc).reverse
  | none => none

/-- The numbers of the parameters among some tokens. -/
def params (ts : List Token) : List ℕ :=
  ts.filterMap fun
    | .param n => some n
    | _ => none

/-! ### Statements -/

/-- A value that a statement names. -/
inductive Expr
  | param (n : ℕ)
  | now
  deriving DecidableEq

inductive Cond
  | eq (column : String) (n : ℕ)
  | isIn (column : String) (ns : List ℕ)
  deriving DecidableEq

/-- `UPDATE table SET … WHERE …`. -/
structure Update where
  table : String
  set : List (String × Expr)
  cond : List Cond
  deriving DecidableEq

/-- The assignments, up to WHERE, and what comes behind it. -/
def parseSet : List Token → Option (List (String × Expr) × List Token)
  | .name c :: .eq :: .param n :: .keyword .WHERE :: ts => some ([(c, .param n)], ts)
  | .name c :: .eq :: .keyword .NOW :: .lpar :: .rpar :: .keyword .WHERE :: ts =>
      some ([(c, .now)], ts)
  | .name c :: .eq :: .param n :: .comma :: ts =>
      (parseSet ts).map fun r => ((c, .param n) :: r.1, r.2)
  | .name c :: .eq :: .keyword .NOW :: .lpar :: .rpar :: .comma :: ts =>
      (parseSet ts).map fun r => ((c, .now) :: r.1, r.2)
  | _ => none

/-- The parameters in a list that ends the statement. -/
def parseItems : List Token → Option (List ℕ)
  | [.param n, .rpar] => some [n]
  | .param n :: .comma :: ts => (parseItems ts).map fun ns => n :: ns
  | _ => none

def parseWhere : List Token → Option (List Cond)
  | [.name c, .eq, .param n] => some [.eq c n]
  | .name c :: .eq :: .param n :: .keyword .AND :: ts =>
      (parseWhere ts).map fun conds => .eq c n :: conds
  | .name c :: .keyword .IN :: .lpar :: ts => (parseItems ts).map fun ns => [.isIn c ns]
  | _ => none

/-- The statement some tokens form. -/
def parse : List Token → Option Update
  | .keyword .UPDATE :: .name table :: .keyword .SET :: ts =>
      match parseSet ts with
      | some (set, ts) => (parseWhere ts).map fun cond => ⟨table, set, cond⟩
      | none => none
  | _ => none

/-! ### Meaning -/

/-- The columns of a table: their values, and assignments to them; there is no column of another
name, and no assignment of a value of another type. -/
structure Columns (ρ : Type) where
  table : String
  get : String → ρ → Option Value
  set : String → Value → ρ → Option ρ

/-- The value of `$n`. -/
def arg (args : List Value) : ℕ → Option Value
  | 0 => none
  | n + 1 => args[n]?

def Expr.eval (args : List Value) (clock : ℤ) : Expr → Option Value
  | param n => arg args n
  | now => some (.time clock)

variable {ρ : Type}

/-- Whether a condition is true of a row. -/
def Cond.holds (cols : Columns ρ) (args : List Value) (r : ρ) : Cond → Option Bool
  | eq c n => do
      let v ← cols.get c r
      let w ← arg args n
      return v ≠ .null && v = w
  | isIn c ns => do
      let v ← cols.get c r
      let ws ← ns.mapM (arg args)
      return v ≠ .null && v ∈ ws

namespace Update

/-- Whether all conditions are true of a row. -/
def holds (u : Update) (cols : Columns ρ) (args : List Value) (r : ρ) : Option Bool := do
  let bs ← u.cond.mapM (Cond.holds cols args r)
  return bs.all id

/-- The row with the assignments made. -/
def assign (u : Update) (cols : Columns ρ) (args : List Value) (now : ℤ) (r : ρ) : Option ρ :=
  u.set.foldlM (fun r a => do
    let v ← a.2.eval args now
    cols.set a.1 v r) r

def execRow (u : Update) (cols : Columns ρ) (args : List Value) (now : ℤ) (r : ρ) : Option ρ := do
  let b ← u.holds cols args r
  if b then u.assign cols args now r else return r

/-- The statement on the rows of a table; `none` is an error. -/
def exec (u : Update) (cols : Columns ρ) (args : List Value) (now : ℤ) (rows : List ρ) :
    Option (List ρ) := rows.mapM (u.execRow cols args now)

/-- An update changes the rows for which its conditions are true, and no others. -/
theorem exec_eq {u : Update} {cols : Columns ρ} {args : List Value} {now : ℤ} {p : ρ → Bool}
    {f : ρ → ρ} (hp : ∀ r, u.holds cols args r = some (p r))
    (hf : ∀ r, u.assign cols args now r = some (f r)) (rows : List ρ) :
    u.exec cols args now rows = some (rows.map fun r => if p r then f r else r) := by
  have hrow : u.execRow cols args now = fun r => pure (if p r then f r else r) := by
    funext r
    show (u.holds cols args r).bind _ = _
    rw [hp, Option.bind_some, hf]
    cases p r <;> rfl
  rw [exec, hrow]
  exact List.mapM_pure

end Update

/-- The parameters are those of the arguments. -/
def Bound (ts : List Token) (args : List Value) : Prop :=
  (∀ n ∈ params ts, 1 ≤ n ∧ n ≤ args.length) ∧ ∀ n, 1 ≤ n → n ≤ args.length → n ∈ params ts

instance (ts : List Token) (args : List Value) : Decidable (Bound ts args) :=
  decidable_of_iff ((∀ n ∈ params ts, 1 ≤ n ∧ n ≤ args.length) ∧
      ∀ n < args.length, n + 1 ∈ params ts)
    (and_congr_right fun _ => ⟨fun h n hpos hle => by
      obtain ⟨m, rfl⟩ := Nat.exists_eq_add_of_le' hpos
      exact h m hle, fun h n hn => h (n + 1) (by omega) hn⟩)

/-- The execution of a text with arguments; `none` is an error. -/
def execText (cols : Columns ρ) (text : String) (args : List Value) (now : ℤ) (rows : List ρ) :
    Option (List ρ) :=
  match tokens text with
  | none => none
  | some ts =>
      match parse ts with
      | none => none
      | some u =>
          if u.table = cols.table ∧ Bound ts args then u.exec cols args now rows else none

/-! ### Lists of parameters -/

/-- `$n`. -/
def placeholder (n : ℕ) : String := "$" ++ String.ofList (Decimal.decimal 1 n)

theorem toList_placeholder (n : ℕ) :
    (placeholder n).toList = '$' :: Decimal.pad (max 1 (Nat.log 10 n + 1)) n := by
  have hsign : ¬(n : ℤ) < 0 := by omega
  rw [placeholder, String.toList_append, String.toList_ofList (l := Decimal.decimal 1 n),
    Decimal.decimal, if_neg hsign, Int.natAbs_natCast]
  rfl

/-- Digits are added to the number of a parameter. -/
theorem foldlM_scan_digits {ds : List Char} (hds : ∀ c ∈ ds, c.isDigit = true)
    (acc : List Token) (k : ℕ) :
    ds.foldlM scan (acc, .param k) =
      some (acc, .param (k * 10 ^ ds.length + Decimal.natOf ds)) := by
  induction ds generalizing k with
  | nil => simp [Decimal.natOf]
  | cons c ds ih =>
    rw [List.forall_mem_cons] at hds
    have hscan : scan (acc, .param k) c = some (acc, .param (k * 10 + (c.toNat - 48))) := by
      simp only [scan, Scan.extend, hds.1, if_true]
    have hvalue : (k * 10 + (c.toNat - 48)) * 10 ^ ds.length + Decimal.natOf ds =
        k * 10 ^ (ds.length + 1) + ((c.toNat - 48) * 10 ^ ds.length + Decimal.natOf ds) := by
      ring
    rw [List.foldlM_cons, hscan]
    exact (ih hds.2 _).trans (by rw [hvalue, List.length_cons, Decimal.natOf])

theorem foldlM_scan_placeholder (acc : List Token) (n : ℕ) :
    (placeholder n).toList.foldlM scan (acc, .blank) = some (acc, .param n) := by
  have hlt : n < 10 ^ max 1 (Nat.log 10 n + 1) :=
    (Nat.lt_pow_succ_log_self (by decide) n).trans_le
      (Nat.pow_le_pow_right (by decide) (le_max_right _ _))
  obtain ⟨w, hw⟩ : ∃ w, max 1 (Nat.log 10 n + 1) = w + 1 := ⟨Nat.log 10 n, by omega⟩
  have hdigits : ∀ c ∈ Decimal.pad (w + 1) n, c.isDigit = true := fun c hc =>
    Decimal.isDigit_of_mem_pad hc
  have hvalue := Decimal.natOf_pad (w + 1) n
  rw [hw] at hlt
  rw [Nat.mod_eq_of_lt hlt] at hvalue
  rw [toList_placeholder, hw]
  -- The first digit begins the number.
  cases hpad : Decimal.pad (w + 1) n with
  | nil => exact absurd (hpad ▸ Decimal.length_pad (w + 1) n) (by simp)
  | cons c ds =>
    rw [hpad] at hdigits hvalue
    rw [List.forall_mem_cons] at hdigits
    have hscan : scan (acc, .dollar) c = some (acc, .param (c.toNat - 48)) := by
      simp only [scan, Scan.extend, hdigits.1, if_true]
    have hdollar : scan (acc, .blank) '$' = some (acc, .dollar) := rfl
    rw [List.foldlM_cons, hdollar]
    show (c :: ds).foldlM scan (acc, .dollar) = _
    rw [List.foldlM_cons, hscan]
    exact (foldlM_scan_digits hdigits.2 acc _).trans (by rw [← hvalue, Decimal.natOf])

/-- The tokens of a list of parameters up to the closing parenthesis. -/
def items : List ℕ → List Token
  | [] => [.rpar]
  | [n] => [.param n, .rpar]
  | n :: ns => .param n :: .comma :: items ns

theorem items_cons_cons (n m : ℕ) (ns : List ℕ) :
    items (n :: m :: ns) = .param n :: .comma :: items (m :: ns) := rfl

theorem foldlM_scan_params {ns : List ℕ} (hns : ns ≠ []) (acc : List Token) :
    ((",".intercalate (ns.map placeholder)).toList ++ [')']).foldlM scan (acc, .blank) =
      some ((items ns).reverse ++ acc, .blank) := by
  rw [String.toList_intercalate, List.map_map]
  induction ns generalizing acc with
  | nil => exact absurd rfl hns
  | cons n ns ih =>
    cases ns with
    | nil =>
      rw [List.map_singleton, List.intercalate_singleton, List.foldlM_append]
      rw [Function.comp_apply, foldlM_scan_placeholder]
      rfl
    | cons m ns =>
      have hcomma : scan (acc, .param n) ',' = some (.comma :: .param n :: acc, .blank) := rfl
      rw [List.map_cons, List.map_cons, List.intercalate_cons_cons, List.append_assoc,
        List.append_assoc, List.foldlM_append, Function.comp_apply, foldlM_scan_placeholder]
      show ([','] ++ _).foldlM scan (acc, .param n) = _
      rw [List.singleton_append, List.foldlM_cons, hcomma]
      refine (ih (by simp) (.comma :: .param n :: acc)).trans ?_
      simp [items_cons_cons]

theorem parseItems_items {ns : List ℕ} (hns : ns ≠ []) : parseItems (items ns) = some ns := by
  induction ns with
  | nil => exact absurd rfl hns
  | cons n ns ih =>
    cases ns with
    | nil => rfl
    | cons m ns =>
      rw [items_cons_cons, parseItems, ih (by simp)]
      rfl

theorem params_items (ns : List ℕ) : params (items ns) = ns := by
  induction ns with
  | nil => rfl
  | cons n ns ih =>
    cases ns with
    | nil => rfl
    | cons m ns =>
      rw [items_cons_cons]
      show n :: params (items (m :: ns)) = _
      rw [ih]

theorem mapM_arg_range (before vs : List Value) :
    (List.range' (before.length + 1) vs.length).mapM (arg (before ++ vs)) = some vs := by
  induction vs generalizing before with
  | nil => rfl
  | cons v vs ih =>
    have hfirst : arg (before ++ v :: vs) (before.length + 1) = some v := by
      simp [arg]
    have hrest := ih (before ++ [v])
    rw [List.append_assoc, List.singleton_append, List.length_append,
      List.length_singleton] at hrest
    rw [List.length_cons, List.range'_succ, List.mapM_cons, hfirst]
    show ((List.range' (before.length + 1 + 1) vs.length).mapM (arg (before ++ v :: vs))).bind _ = _
    rw [hrest]
    rfl

end Sql
