import Zepto.Sql.Parser

/-!
# INSERT statements for Telegraf rows

`buildTelegrafInsertSql` writes an `INSERT` with the rows as literals; quotes in a symbol are
doubled. What it writes is read back: the tokens of the text are those of the rows
(`lexes_insertSql`), and the parser makes the rows of them (`telegraf_insert_read_back`), whatever
the bytes of the symbols are.
-/

namespace Zepto.Feeds

open List Zepto.Lib Zepto.Sql Zepto.Sql.Parse

structure TelegrafSqlRow where
  symbol : List Char
  price : BitVec 64
  volume : BitVec 64
  timestampNs : BitVec 64

structure TelegrafOutputConfig where
  tableName : List Char

structure TelegrafBuildResult where
  sql : List Char := []
  rows : Nat := 0
  errors : List String := []

def isValidTelegrafTableName : List Char → Bool
  | [] => false
  | c :: cs => isWordStart c && cs.all isWordRest

def escapeTelegrafSqlString (value : List Char) : List Char :=
  value.flatMap fun c => if c = '\'' then ['\'', '\''] else [c]

def rowSql (row : TelegrafSqlRow) : List Char :=
  "('".toList ++ escapeTelegrafSqlString row.symbol ++ "', ".toList ++
    decimalInt row.price.toInt ++ ", ".toList ++ decimalInt row.volume.toInt ++ ", ".toList ++
    decimalInt row.timestampNs.toInt ++ ")".toList

def rowsSql : List TelegrafSqlRow → List Char
  | [] => []
  | [row] => rowSql row
  | row :: rows => rowSql row ++ ", ".toList ++ rowsSql rows

def insertSql (tableName : List Char) (rows : List TelegrafSqlRow) : List Char :=
  "INSERT INTO ".toList ++ tableName ++ " (symbol, price, volume, timestamp) VALUES ".toList ++
    rowsSql rows

def buildTelegrafInsertSql (rows : List TelegrafSqlRow) (config : TelegrafOutputConfig) :
    TelegrafBuildResult :=
  if rows.isEmpty then {}
  else if !isValidTelegrafTableName config.tableName then
    { errors := ["invalid table name '" ++ .ofList config.tableName ++ "'"] }
  else { sql := insertSql config.tableName rows, rows := rows.length }

/-! ## The tokens -/

def comma : Token := ⟨.COMMA, [',']⟩

def rowTokens (row : TelegrafSqlRow) : List Token :=
  [⟨.LPAREN, ['(']⟩, ⟨.STRING, row.symbol⟩, comma, ⟨.NUMBER, decimalInt row.price.toInt⟩, comma,
    ⟨.NUMBER, decimalInt row.volume.toInt⟩, comma, ⟨.NUMBER, decimalInt row.timestampNs.toInt⟩,
    ⟨.RPAREN, [')']⟩]

def rowsTokens : List TelegrafSqlRow → List Token
  | [] => [⟨.END, []⟩]
  | [row] => rowTokens row ++ [⟨.END, []⟩]
  | row :: rows => rowTokens row ++ comma :: rowsTokens rows

def insertTokens (tableName : List Char) (rows : List TelegrafSqlRow) : List Token :=
  [⟨.INSERT, "INSERT".toList⟩, ⟨.INTO, "INTO".toList⟩, ⟨.IDENT, tableName⟩, ⟨.LPAREN, ['(']⟩,
    ⟨.IDENT, "symbol".toList⟩, comma, ⟨.IDENT, "price".toList⟩, comma, ⟨.IDENT, "volume".toList⟩,
    comma, ⟨.IDENT, "timestamp".toList⟩, ⟨.RPAREN, [')']⟩, ⟨.VALUES, "VALUES".toList⟩] ++
    rowsTokens rows

/-- A doubled quote is read as one, so the literal ends at the quote behind it. -/
theorem readString_escape (s : List Char) {t : List Char} (ht : t.head? ≠ some '\'') :
    readString (escapeTelegrafSqlString s ++ '\'' :: t) = some (s, t) := by
  induction s with
  | nil =>
    cases t with
    | nil => rfl
    | cons c t =>
      have hc : c ≠ '\'' := fun h => ht (by rw [h]; rfl)
      rw [escapeTelegrafSqlString, flatMap_nil, nil_append, readString.eq_3]
      exact fun t' h => hc (cons.inj h).1
  | cons c s ih =>
    rw [escapeTelegrafSqlString, flatMap_cons]
    by_cases hc : c = '\''
    · rw [hc]
      show readString ('\'' :: '\'' :: (escapeTelegrafSqlString s ++ '\'' :: t)) = _
      rw [readString, ih]
      rfl
    rw [if_neg hc]
    show readString (c :: (escapeTelegrafSqlString s ++ '\'' :: t)) = _
    rw [readString.eq_4, ih]
    · rfl
    · exact fun t' h _ => hc h
    · exact hc

section

variable {len : Nat} {last : Option TokenType} {t : List Char} {tokens : List Token}

theorem lexes_word {w : List Char} {type : TokenType} (ht : Ends isWordRest t)
    (h : Lexes len (some type) t tokens) (hw : isValidTelegrafTableName w := by decide +kernel)
    (htype : keywordType (toUpperStr w) = type := by decide +kernel) :
    Lexes len last (w ++ t) (⟨type, w⟩ :: tokens) := by
  cases w with
  | nil => cases hw
  | cons c cs =>
    rw [isValidTelegrafTableName, Bool.and_eq_true, all_eq_true] at hw
    subst htype
    exact .word hw.1 hw.2 ht h

theorem lexes_row (row : TelegrafSqlRow) (h : Lexes len (some .RPAREN) t tokens) :
    Lexes len last (rowSql row ++ t) (rowTokens row ++ tokens) := by
  have htext : rowSql row ++ t =
      '(' :: '\'' :: (escapeTelegrafSqlString row.symbol ++ '\'' :: ',' :: ' ' ::
        (decimalInt row.price.toInt ++ ',' :: ' ' :: (decimalInt row.volume.toInt ++ ',' :: ' ' ::
          (decimalInt row.timestampNs.toInt ++ ')' :: t)))) := by
    show '(' :: '\'' :: (escapeTelegrafSqlString row.symbol) ++ ['\'', ',', ' '] ++
      decimalInt row.price.toInt ++ [',', ' '] ++ decimalInt row.volume.toInt ++ [',', ' '] ++
      decimalInt row.timestampNs.toInt ++ [')'] ++ t = _
    simp
  rw [htext]
  apply Lexes.lparen
  apply Lexes.string (readString_escape row.symbol (by simp))
  apply Lexes.comma
  refine .blank ?_
  apply Lexes.number (by decide) ends_cons
  apply Lexes.comma
  refine .blank ?_
  apply Lexes.number (by decide) ends_cons
  apply Lexes.comma
  refine .blank ?_
  apply Lexes.number (by decide) ends_cons
  exact .rparen h

theorem lexes_rows (rows : List TelegrafSqlRow) :
    Lexes len last (rowsSql rows) (rowsTokens rows) := by
  induction rows generalizing last with
  | nil => exact lexes_nil
  | cons row rows ih =>
    cases rows with
    | nil =>
      have hrow : Lexes len last (rowSql row ++ []) (rowTokens row ++ [⟨.END, []⟩]) :=
        lexes_row row lexes_nil
      rwa [append_nil] at hrow
    | cons row' rows =>
      show Lexes len last (rowSql row ++ ", ".toList ++ rowsSql (row' :: rows))
        (rowTokens row ++ comma :: rowsTokens (row' :: rows))
      rw [append_assoc]
      apply lexes_row
      apply Lexes.comma
      refine .blank ?_
      exact ih

theorem insertSql_eq (table : List Char) (rows : List TelegrafSqlRow) : insertSql table rows =
      "INSERT".toList ++ ' ' :: ("INTO".toList ++ ' ' :: (table ++ ' ' :: '(' ::
        ("symbol".toList ++ ',' :: ' ' :: ("price".toList ++ ',' :: ' ' :: ("volume".toList ++
          ',' :: ' ' :: ("timestamp".toList ++ ')' :: ' ' :: ("VALUES".toList ++ ' ' ::
            rowsSql rows))))))) := by
  show "INSERT INTO ".toList ++ table ++ " (symbol, price, volume, timestamp) VALUES ".toList ++
    rowsSql rows = _
  simp

/-- The tokens of the statement are the words, the table and the rows. -/
theorem lexes_insertSql {table : List Char} (hvalid : isValidTelegrafTableName table)
    (hkeyword : keywordType (toUpperStr table) = .IDENT) (rows : List TelegrafSqlRow) :
    Lexes len last (insertSql table rows) (insertTokens table rows) := by
  rw [insertSql_eq]
  refine lexes_word ends_cons ?_
  refine .blank ?_
  refine lexes_word ends_cons ?_
  refine .blank ?_
  refine lexes_word ends_cons ?_ hvalid hkeyword
  refine .blank ?_
  apply Lexes.lparen
  refine lexes_word ends_cons ?_
  apply Lexes.comma
  refine .blank ?_
  refine lexes_word ends_cons ?_
  apply Lexes.comma
  refine .blank ?_
  refine lexes_word ends_cons ?_
  apply Lexes.comma
  refine .blank ?_
  refine lexes_word ends_cons ?_
  apply Lexes.rparen
  refine .blank ?_
  refine lexes_word ends_cons ?_
  refine .blank ?_
  exact lexes_rows rows

end

/-! ## Parsing them -/

theorem digitsValue_eq (ds : List Char) : digitsValue ds = (numberOf ds : Int) := by
  suffices h : ∀ n : Nat, ds.foldl (fun acc d => acc * 10 + ((d.toNat - '0'.toNat : Nat) : Int)) n =
      (ds.foldl (fun n c => n * 10 + (c.toNat - 48)) n : Nat) from h 0
  induction ds with
  | nil => exact fun n => rfl
  | cons d ds ih =>
    intro n
    rw [foldl_cons, foldl_cons, ← ih]
    congr 1

theorem stoll_signed {s ds : List Char} {neg : Bool} (hspace : s.dropWhile isSpace = s)
    (hsign : (neg ∧ s = '-' :: ds) ∨
      (neg = false ∧ s = ds ∧ s.head? ≠ some '-' ∧ s.head? ≠ some '+'))
    (hne : ds ≠ []) (hds : ∀ c ∈ ds, c.isDigit) {v : Int}
    (hv : v = if neg then -digitsValue ds else digitsValue ds)
    (hlo : int64Min ≤ v) (hhi : v ≤ int64Max) : stoll s = .ok v := by
  have htake : ds.takeWhile Char.isDigit = ds := by
    simpa using (takeWhile_append_ends hds (ends_nil Char.isDigit)).1
  unfold stoll
  rw [hspace]
  rcases hsign with ⟨rfl, rfl⟩ | ⟨rfl, rfl, hminus, hplus⟩
  · rw [if_pos rfl] at hv
    simp [htake, hne, ← hv, hlo, hhi]
  rw [if_neg (by decide)] at hv
  have hmatch : ∀ c t, s = c :: t → c ≠ '-' ∧ c ≠ '+' := by
    rintro c t rfl
    exact ⟨fun h => hminus (by rw [h]; rfl), fun h => hplus (by rw [h]; rfl)⟩
  cases s with
  | nil => exact absurd rfl hne
  | cons c t =>
    obtain ⟨hcm, hcp⟩ := hmatch c t rfl
    simp [hcm, hcp, htake, ← hv, hlo, hhi]

theorem stoll_decimalInt {z : Int} (hlo : int64Min ≤ z) (hhi : z ≤ int64Max) :
    stoll (decimalInt z) = .ok z := by
  obtain ⟨d, ds, hd⟩ := exists_cons_of_ne_nil (decimal_ne_nil z.natAbs)
  have hdigits : ∀ c ∈ decimal z.natAbs, c.isDigit := fun c hc => isDigit_decimal hc
  have hdigit : d.isDigit := hdigits d (hd ▸ mem_cons_self)
  have hvalue : digitsValue (decimal z.natAbs) = z.natAbs := by
    rw [digitsValue_eq, numberOf_decimal]
  have h48 : 48 ≤ d.toNat := by
    simp only [Char.isDigit, Bool.and_eq_true, decide_eq_true_eq] at hdigit
    exact hdigit.1
  have hhead : ∀ c : Char, c.toNat < 48 → d ≠ c := by
    rintro c hc rfl
    omega
  unfold decimalInt
  split_ifs with hneg
  · refine stoll_signed (dropWhile_cons_of_neg (by decide)) (.inl ⟨rfl, rfl⟩)
      (decimal_ne_nil _) hdigits ?_ hlo hhi
    rw [if_pos rfl]
    omega
  · refine stoll_signed ?_ (.inr ⟨rfl, rfl, ?_, ?_⟩) (decimal_ne_nil _) hdigits ?_ hlo hhi
    · rw [hd, dropWhile_cons_of_neg (by simp [isSpace, hhead]; omega)]
    · rw [hd]
      simpa using hhead '-' (by decide)
    · rw [hd]
      simpa using hhead '+' (by decide)
    · rw [if_neg (by decide)]
      omega

theorem dot_notMem_decimalInt (z : Int) : '.' ∉ decimalInt z := by
  have hdot : ∀ n, '.' ∉ decimal n := fun n h => absurd (isDigit_decimal h) (by decide)
  unfold decimalInt
  split
  · rw [mem_cons, not_or]
    exact ⟨by decide, hdot _⟩
  · exact hdot _

section

variable {ts : List Token}

theorem parseInsertValue_string (s : List Char) (ts : List Token) :
    parseInsertValue (⟨.STRING, s⟩ :: ts) = .ok (.string (.ofList s), ts) := rfl

theorem parseInsertValue_number (z : BitVec 64) :
    parseInsertValue (⟨.NUMBER, decimalInt z.toInt⟩ :: ts) = .ok (.int z.toInt, ts) := by
  have hlo : int64Min ≤ z.toInt := BitVec.le_toInt z
  have hhi : z.toInt ≤ int64Max := Int.le_of_lt_add_one BitVec.toInt_lt
  unfold parseInsertValue
  rw [bind_ok (show check .STRING (⟨.NUMBER, decimalInt z.toInt⟩ :: ts) = .ok (false, _) from rfl),
    if_neg (by decide), bind_ok (accept_ne (by simp)), bind_ok (expect_mk (by decide) _),
    if_neg (dot_notMem_decimalInt _)]
  rw [bind_ok (a := z.toInt)]
  · rfl
  · rw [stoll_decimalInt hlo hhi]
    rfl

def rowValues (row : TelegrafSqlRow) : List InsertValue :=
  [.string (.ofList row.symbol), .int row.price.toInt, .int row.volume.toInt,
    .int row.timestampNs.toInt]

theorem parseInsertRow_tokens (row : TelegrafSqlRow) :
    parseInsertRow (rowTokens row ++ ts) = .ok (rowValues row, ts) := by
  unfold parseInsertRow rowTokens
  simp only [cons_append, nil_append]
  rw [bind_ok (expect_mk (by decide) _)]
  have hvalues := commaSeparated_of_separated
    (.more (parseInsertValue_string row.symbol (comma :: ⟨.NUMBER, decimalInt row.price.toInt⟩ ::
        comma :: ⟨.NUMBER, decimalInt row.volume.toInt⟩ :: comma ::
        ⟨.NUMBER, decimalInt row.timestampNs.toInt⟩ :: ⟨.RPAREN, [')']⟩ :: ts)) rfl (by simp)
      (.more (parseInsertValue_number row.price) rfl (by simp)
        (.more (parseInsertValue_number row.volume) rfl (by simp)
          (.last (parseInsertValue_number row.timestampNs) rfl))))
  rw [bind_ok hvalues]
  rfl

variable {rows : List TelegrafSqlRow}

theorem separated_rows (hne : rows ≠ []) :
    Separated parseInsertRow (rowsTokens rows) (rows.map rowValues) [⟨.END, []⟩] := by
  induction rows with
  | nil => exact absurd rfl hne
  | cons row rows ih =>
    cases rows with
    | nil => exact .last (parseInsertRow_tokens row) rfl
    | cons row' rows =>
      refine .more (parseInsertRow_tokens row) rfl ?_ (ih (by simp))
      show _ < (rowTokens row ++ comma :: rowsTokens (row' :: rows)).length
      simp only [length_append, length_cons]
      omega

theorem parseInsertColumns_tokens :
    parseInsertColumns (⟨.LPAREN, ['(']⟩ :: ⟨.IDENT, "symbol".toList⟩ :: comma ::
      ⟨.IDENT, "price".toList⟩ :: comma :: ⟨.IDENT, "volume".toList⟩ :: comma ::
      ⟨.IDENT, "timestamp".toList⟩ :: ⟨.RPAREN, [')']⟩ :: ts) =
      .ok (["symbol", "price", "volume", "timestamp"], ts) := by
  unfold parseInsertColumns
  rfl

theorem parseInsert_tokens (table : List Char) (hne : rows ≠ []) :
    parseInsert (insertTokens table rows) =
      .ok ({ tableName := .ofList table,
             columns := ["symbol", "price", "volume", "timestamp"],
             valueRows := rows.map rowValues }, [⟨.END, []⟩]) := by
  unfold parseInsert insertTokens
  simp only [cons_append, nil_append]
  rw [bind_ok (expect_mk (by decide) _), bind_ok (expect_mk (by decide) _),
    bind_ok (expect_mk (by decide) _), bind_ok parseInsertColumns_tokens,
    bind_ok (expect_mk (by decide) _), bind_ok (commaSeparated_of_separated (separated_rows hne))]
  rfl

end

/-- One `INSERT` into the table is read back, with the rows as given and no token left. A quote in a
symbol does not end its literal, a negative number keeps its sign. -/
theorem telegraf_insert_read_back {rows : List TelegrafSqlRow} (config : TelegrafOutputConfig)
    (hne : rows ≠ []) (hvalid : isValidTelegrafTableName config.tableName = true)
    (hkeyword : keywordType (toUpperStr config.tableName) = .IDENT) :
    (buildTelegrafInsertSql rows config).errors = [] ∧
    (buildTelegrafInsertSql rows config).rows = rows.length ∧
    ∃ tokens, tokenize (buildTelegrafInsertSql rows config).sql = .ok tokens ∧ parseInsert tokens =
        .ok ({ tableName := .ofList config.tableName,
               columns := ["symbol", "price", "volume", "timestamp"],
               valueRows := rows.map rowValues }, [⟨.END, []⟩]) := by
  have hbuild : buildTelegrafInsertSql rows config =
      { sql := insertSql config.tableName rows, rows := rows.length } := by
    rw [buildTelegrafInsertSql, if_neg (by simpa using hne), if_neg (by simp [hvalid])]
  rw [hbuild]
  exact ⟨rfl, rfl, _, (lexes_insertSql hvalid hkeyword rows).tokenize,
    parseInsert_tokens config.tableName hne⟩

/-- A symbol that is only a quote, and the least price. -/
theorem telegraf_insert_read_back_quote :
    ∃ tokens, tokenize (buildTelegrafInsertSql [⟨['\''], BitVec.intMin 64, 7, 0⟩]
        ⟨"trades".toList⟩).sql = .ok tokens ∧
      parseInsert tokens =
        .ok ({ tableName := String.ofList "trades".toList,
               columns := ["symbol", "price", "volume", "timestamp"],
               valueRows := [rowValues ⟨['\''], BitVec.intMin 64, 7, 0⟩] }, [⟨.END, []⟩]) :=
  (telegraf_insert_read_back ⟨"trades".toList⟩ (by simp) (by decide +kernel)
    (by decide +kernel)).2.2

end Zepto.Feeds
