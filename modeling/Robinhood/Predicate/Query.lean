/-
# Predicate.Query — the statements around a WHERE clause

`query_scoped_page`, `count_scoped_where` and `sum_scoped_size_where` of the entry store put the clause of a
predicate in brackets behind `filesystem_id = ? AND`, and bind the filesystem before the clause's own
parameters.  The whole text is read here, so that nothing is assumed about where the clause ends.

Which rows have "that filesystem" is for the server's collation to say.  The migrations give the column a
character set and no collation, and the default collation of that character set ignores case; identifiers
of filesystems do not.
-/
import Mathlib
import Robinhood.Predicate.Sql

namespace Robinhood.Predicate

open Store Lib.Sql

/-! ## §1 — ordering fragments -/

inductive OrderDir
  | asc
  | desc
  deriving DecidableEq, Repr

def OrderDir.asSql : OrderDir → String
  | asc => "ASC"
  | desc => "DESC"

structure SortKey where
  field : Field
  dir : OrderDir
  deriving DecidableEq, Repr

def SortKey.toSqlFragment (key : SortKey) : String := key.field.columnName ++ " " ++ key.dir.asSql

def SortKey.listToSql (keys : List SortKey) : String := ", ".intercalate (keys.map toSqlFragment)

/-! ## §2 — the statements -/

def orderClause : Option String → String
  | some order => if order = "" then "" else " ORDER BY " ++ order
  | none => ""

/-- What stands between the select list and the clause. -/
def scopeText : String := " FROM scoped_entries AS entries WHERE filesystem_id = ? AND ("

/-- A statement around a clause, up to the end of its condition. -/
def scopedSql (select whereClause : String) : String := select ++ scopeText ++ whereClause ++ ")"

def pageSql (whereClause : String) (order : Option String) : String :=
  scopedSql "SELECT entry_data" whereClause ++ (orderClause order ++ " LIMIT ? OFFSET ?")

def countSql (whereClause : String) : String := scopedSql "SELECT COUNT(*)" whereClause

def sumSql (whereClause : String) : String :=
  scopedSql "SELECT CAST(COALESCE(SUM(size), 0) AS UNSIGNED)" whereClause

/-- `filesystem.as_str()`, bound first. -/
def scopeParam (filesystem : FileSystemId) : SqlValue := .text .param filesystem.value

/-- `limit as i64`. -/
def asI64 (n : UInt64) : SqlValue := .int n.toInt64.toInt

section answers

variable (db : MariaDb) (tables : Tables)

/-- The rows of `scoped_entries` on which the condition of a statement is true. -/
def selectedRows (stmt : Select SqlValue) : List ScopedEntryRow :=
  tables.entries.filter fun e =>
    stmt.condition.eval db.server tables.rows [(stmt.alias_, storedRow e)] = some .true

def valueLe : SqlValue → SqlValue → Bool
  | .null, _ => .true
  | .int a, .int b => a ≤ b
  | _, _ => .false

def rowLe : List (String × Bool) → ScopedEntryRow → ScopedEntryRow → Bool
  | [], _, _ => .true
  | (column, descending) :: keys, a, b =>
    match storedRow a column, storedRow b column with
    | some x, some y =>
      if valueLe x y && valueLe y x then rowLe keys a b
      else if descending then valueLe y x else valueLe x y
    | _, _ => .true

def pageOf : Option (Scalar SqlValue × Scalar SqlValue) → List ScopedEntryRow → Option (List ScopedEntryRow)
  | none, rows => some rows
  | some (.value (.int limit), .value (.int offset)), rows =>
    if 0 ≤ limit ∧ 0 ≤ offset then some ((rows.drop offset.toNat).take limit.toNat) else none
  | some _, _ => none

/-- **`query_scoped_page`**: the pages the server may return.  Rows with equal keys come in any order. -/
def queryScopedPage (filesystem : FileSystemId) (whereClause : String) (params : List SqlParam)
    (order : Option String) (limit offset : UInt64) : Set (List ScopedEntryRow) :=
  { page | ∃ stmt sorted,
      statement (pageSql whereClause order)
        (scopeParam filesystem :: params.map SqlParam.value ++ [asI64 limit, asI64 offset]) = some stmt ∧
      sorted.Perm (selectedRows db tables stmt) ∧ sorted.Pairwise (fun a b => rowLe stmt.orderBy a b) ∧
      pageOf stmt.page sorted = some page }

def scopedRows (filesystem : FileSystemId) (sql : String) (params : List SqlParam) :
    Option (List ScopedEntryRow) :=
  (statement sql (scopeParam filesystem :: params.map SqlParam.value)).map (selectedRows db tables)

/-- **`count_scoped_where`.** -/
def countScopedWhere (filesystem : FileSystemId) (whereClause : String) (params : List SqlParam) : Option ℕ :=
  (scopedRows db tables filesystem (countSql whereClause) params).map List.length

end answers

/-! ## §3 — how the statements are read -/

/-- `filesystem_id = ?`, bound. -/
def scopeCond (filesystem : FileSystemId) : Cond SqlValue :=
  .test (.compare .eq) (col "filesystem_id") (.value (scopeParam filesystem))

/-- The tokens of `scopeText`. -/
def scopeTokens : List (Token SqlValue) :=
  [.keyword .from_, .name "scoped_entries", .keyword .as_, .name "entries", .keyword .where_,
    .name "filesystem_id", .comparison .eq, .placeholder, .keyword .and, .lparen]

def scopeBound (filesystem : FileSystemId) : List (Token SqlValue) :=
  [.keyword .from_, .name "scoped_entries", .keyword .as_, .name "entries", .keyword .where_,
    .name "filesystem_id", .comparison .eq, .value (scopeParam filesystem), .keyword .and, .lparen]

set_option maxRecDepth 1000 in
theorem feed_scopeText : feed .between scopeText.toList = some (scopeTokens, .between) := rfl

structure SelectList (select : String) (proj : List (Token SqlValue)) : Prop where
  lex : lex select.toList = some (.keyword .select :: proj)
  bind : bindParams proj [] = some proj
  plain : .keyword .from_ ∉ proj

theorem selectList_page : SelectList "SELECT entry_data" [.name "entry_data"] := ⟨rfl, rfl, by simp⟩

theorem selectList_count : SelectList "SELECT COUNT(*)" [.name "COUNT", .lparen, .star, .rparen] :=
  ⟨rfl, rfl, by simp⟩

theorem selectList_sum : SelectList "SELECT CAST(COALESCE(SUM(size), 0) AS UNSIGNED)"
    [.name "CAST", .lparen, .name "COALESCE", .lparen, .name "SUM", .lparen, .name "size", .rparen, .comma,
      .number 0, .rparen, .keyword .as_, .name "UNSIGNED", .rparen] := ⟨rfl, rfl, by simp⟩

/-- **A statement around a clause that compiles** has the scope and the clause as its condition, and
nothing of the clause is read as anything else. -/
theorem statement_scopedSql {select whereClause tail : String} {proj : List (Token SqlValue)}
    {params extra : List SqlValue} {c : Cond SqlValue} {ts rest rest' : List (Token SqlValue)}
    {keys : List (String × Bool)} {pg : Option (Scalar SqlValue × Scalar SqlValue)}
    (hs : SelectList select proj) (hc : Compiles whereClause params c) (filesystem : FileSystemId)
    (hlex : lex tail.toList = some ts) (hbind : bindParams ts extra = some rest)
    (hends : Level.disjunction.ends rest = Bool.true) (hkeys : orderBy rest = some (keys, rest'))
    (hpage : page rest' = some (pg, [])) :
    statement (scopedSql select whereClause ++ tail) (scopeParam filesystem :: params ++ extra) =
      some ⟨proj, "scoped_entries", "entries", .and (scopeCond filesystem) c, keys, pg⟩ := by
  obtain ⟨cs, us, hclex, hcbind, hreads⟩ := hc.disjunction
  -- the text
  have hclose : lex (')' :: tail.toList) = some (.rparen :: ts) := lex_append_of_feed (a := [')']) rfl hlex
  have hinner := lex_append hclex rfl hclose
  have hscope := lex_append_of_feed feed_scopeText hinner
  have htext : (scopedSql select whereClause ++ tail).toList =
      select.toList ++ (scopeText.toList ++ (whereClause.toList ++ ')' :: tail.toList)) := by
    simp only [scopedSql, String.toList_append, List.append_assoc]
    rfl
  obtain ⟨blank, hblank⟩ : ∃ cs, scopeText.toList = ' ' :: cs :=
    ⟨"FROM scoped_entries AS entries WHERE filesystem_id = ? AND (".toList, rfl⟩
  rw [hblank, List.cons_append] at hscope htext
  have hall := lex_append hs.lex rfl hscope
  -- the parameters
  have hscopeBind : bindParams scopeTokens [scopeParam filesystem] = some (scopeBound filesystem) := rfl
  have hbinds := bindParams_append (bindParams_cons (t := .keyword .select) (by simp) hs.bind)
    (bindParams_append hscopeBind (bindParams_append hcbind (bindParams_cons (t := .rparen) (by simp) hbind)))
  -- the reading
  have hchain := ((reads_col "filesystem_id").test (readsScalar_value (scopeParam filesystem))
    (.compare .eq)).and_chain [(.lparen :: (us ++ [.rparen]), c)] (by simpa using hreads.paren)
  have hparse := parseSelect_append (t := "scoped_entries") (a := "entries") hs.plain
    (hchain.disjunction (by simp)) hends hkeys hpage
  simp only [List.nil_append, List.cons_append] at hbinds hall
  simp only [statement, htext, List.cons_append, hall, Option.bind_eq_bind, Option.bind_some, hbinds]
  simpa [scopeBound, chain, Cond.conj, scopeCond, Test.token] using hparse

/-! ## §4 — the order clause -/

def SortKey.tokens (key : SortKey) : List (Token SqlValue) :=
  [.name key.field.columnName, .keyword (match key.dir with | .asc => .asc | .desc => .desc)]

def SortKey.column (key : SortKey) : String × Bool := (key.field.columnName, key.dir = .desc)

theorem lex_toSqlFragment (key : SortKey) : lex key.toSqlFragment.toList = some key.tokens := by
  have htext : key.toSqlFragment.toList = key.field.columnName.toList ++ ' ' :: key.dir.asSql.toList := by
    simp [SortKey.toSqlFragment]
  have hdir : lex (ν := SqlValue) key.dir.asSql.toList =
      some [.keyword (match key.dir with | .asc => .asc | .desc => .desc)] := by
    cases key.dir <;> rfl
  rw [htext]
  exact lex_spaced (lex_columnName key.field) hdir

def orderTokens : SortKey → List SortKey → List (Token SqlValue)
  | key, [] => key.tokens
  | key, next :: keys => key.tokens ++ .comma :: orderTokens next keys

theorem lex_listToSql (key : SortKey) (keys : List SortKey) :
    lex (SortKey.listToSql (key :: keys)).toList = some (orderTokens key keys) := by
  rw [SortKey.listToSql, String.toList_intercalate]
  induction keys generalizing key with
  | nil => simpa [orderTokens] using lex_toSqlFragment key
  | cons next keys ih =>
    have hcomma : feed (ν := SqlValue) .between [',', ' '] = some ([.comma], .between) := rfl
    have hrest := lex_append_of_feed hcomma (ih next)
    have hall := lex_append (lex_toSqlFragment key) rfl hrest
    simpa [List.intercalate_cons_cons, orderTokens] using hall

theorem orderKeys_orderTokens (key : SortKey) (keys : List SortKey) {rest : List (Token SqlValue)}
    (hrest : ∀ t ∈ rest.head?, t ≠ .comma) :
    orderKeys (orderTokens key keys ++ rest) = some ((key :: keys).map SortKey.column, rest) := by
  induction keys generalizing key with
  | nil =>
    obtain ⟨field, dir⟩ := key
    cases rest with
    | nil => cases dir <;> rfl
    | cons t =>
      have ht := hrest t rfl
      cases dir <;> cases t <;> first | rfl | contradiction
  | cons next keys ih =>
    obtain ⟨field, dir⟩ := key
    have hrec := ih next
    cases dir <;> simp [orderTokens, SortKey.tokens, orderKeys, hrec, SortKey.column]

/-- The tokens after the condition of a page: the order, if any, and the page. -/
def tailTokens (limit offset : Token SqlValue) : List SortKey → List (Token SqlValue)
  | [] => [.keyword .limit, limit, .keyword .offset, offset]
  | key :: keys => .keyword .order :: .keyword .by_ :: (orderTokens key keys ++
      [.keyword .limit, limit, .keyword .offset, offset])

theorem lex_tail (keys : List SortKey) :
    lex (orderClause (some (SortKey.listToSql keys)) ++ " LIMIT ? OFFSET ?").toList =
      some (tailTokens .placeholder .placeholder keys) := by
  have hpage : lex (ν := SqlValue) " LIMIT ? OFFSET ?".toList =
      some [.keyword .limit, .placeholder, .keyword .offset, .placeholder] := rfl
  cases keys with
  | nil => exact hpage
  | cons key keys =>
    have hne : SortKey.listToSql (key :: keys) ≠ "" := by
      intro h
      have hlex := lex_listToSql key keys
      rw [h] at hlex
      cases keys <;> simp [orderTokens, SortKey.tokens, lex, feed, Mode.finish] at hlex
    have horder : feed (ν := SqlValue) .between " ORDER BY ".toList =
        some ([.keyword .order, .keyword .by_], .between) := rfl
    have hkeys := lex_append (b := "LIMIT ? OFFSET ?".toList) (lex_listToSql key keys) rfl hpage
    have hall := lex_append_of_feed horder hkeys
    rw [orderClause, if_neg hne, String.toList_append, String.toList_append, List.append_assoc]
    exact hall

theorem orderBy_tail (keys : List SortKey) (limit offset : SqlValue) :
    orderBy (tailTokens (.value limit) (.value offset) keys) =
      some (keys.map SortKey.column,
        [.keyword .limit, .value limit, .keyword .offset, .value offset]) := by
  cases keys with
  | nil => rfl
  | cons key keys => exact orderKeys_orderTokens key keys (by simp)

theorem bindParams_orderTokens (key : SortKey) (keys : List SortKey) :
    bindParams (orderTokens key keys) [] = some (orderTokens key keys) := by
  induction keys generalizing key with
  | nil => rfl
  | cons next keys ih => simp [orderTokens, SortKey.tokens, bindParams, ih]

theorem bindParams_tail (keys : List SortKey) (limit offset : SqlValue) :
    bindParams (tailTokens .placeholder .placeholder keys) [limit, offset] =
      some (tailTokens (.value limit) (.value offset) keys) := by
  have hpage : bindParams (ν := SqlValue) [.keyword .limit, .placeholder, .keyword .offset, .placeholder]
      [limit, offset] = some [.keyword .limit, .value limit, .keyword .offset, .value offset] := rfl
  cases keys with
  | nil => exact hpage
  | cons key keys =>
    have happ := bindParams_append (bindParams_orderTokens key keys) hpage
    exact bindParams_cons (by simp) (bindParams_cons (by simp) happ)

/-! ## §5 — the three statements -/

variable (p : Predicate) (filesystem : FileSystemId)

/-- **`query_scoped_page`** with the clause of a predicate: the statement meant. -/
theorem statement_pageSql (keys : List SortKey) (limit offset : SqlValue) :
    statement (pageSql (toSql p).1 (some (SortKey.listToSql keys)))
        (scopeParam filesystem :: (toSql p).2.map SqlParam.value ++ [limit, offset]) =
      some ⟨[.name "entry_data"], "scoped_entries", "entries", .and (scopeCond filesystem) p.tree,
        keys.map SortKey.column, some (.value limit, .value offset)⟩ := by
  refine statement_scopedSql selectList_page (compiles_toSql p) filesystem (lex_tail keys)
    (bindParams_tail keys limit offset) ?_ (orderBy_tail keys limit offset) rfl
  cases keys <;> rfl

theorem statement_scoped {select : String} {proj : List (Token SqlValue)} (hs : SelectList select proj) :
    statement (scopedSql select (toSql p).1) (scopeParam filesystem :: (toSql p).2.map SqlParam.value) =
      some ⟨proj, "scoped_entries", "entries", .and (scopeCond filesystem) p.tree, [], none⟩ := by
  have hempty : lex (ν := SqlValue) "".toList = some [] := rfl
  have h := statement_scopedSql hs (compiles_toSql p) filesystem hempty
    (show bindParams ([] : List (Token SqlValue)) [] = some [] from rfl) rfl rfl rfl
  rwa [List.append_nil, String.append_empty] at h

section scope

variable {db : MariaDb} {tables : Tables} {p : Predicate} {filesystem : FileSystemId} {e : ScopedEntryRow}

theorem eval_scopeCond : (scopeCond filesystem).eval db.server tables.rows [("entries", storedRow e)] =
    some (.ofBool (holds .eq (db.collate .column e.key.filesystem.value filesystem.value))) := rfl

theorem mem_selectedRows_scoped {proj : List (Token SqlValue)} {keys : List (String × Bool)}
    {pg : Option (Scalar SqlValue × Scalar SqlValue)} :
    e ∈ selectedRows db tables
        ⟨proj, "scoped_entries", "entries", .and (scopeCond filesystem) p.tree, keys, pg⟩ ↔
      e ∈ tables.entries ∧ db.collate .column e.key.filesystem.value filesystem.value = .eq ∧
        p.tree.eval db.server tables.rows [("entries", storedRow e)] = some .true := by
  simp only [selectedRows, List.mem_filter, decide_eq_true_eq, Cond.eval_and_eq_true, eval_scopeCond,
    Option.some.injEq, Truth.ofBool_eq_true, holds, Ordering.isEq_iff_eq_eq]

theorem mem_of_mem_pageOf {pg : Option (Scalar SqlValue × Scalar SqlValue)} {rows page : List ScopedEntryRow}
    (h : pageOf pg rows = some page) (he : e ∈ page) : e ∈ rows := by
  unfold pageOf at h
  split at h
  · obtain rfl := Option.some.inj h
    exact he
  · split at h
    · obtain rfl := Option.some.inj h
      exact List.mem_of_mem_drop (List.mem_of_mem_take he)
    · cases h
  · cases h

end scope

def Reaches (db : MariaDb) (tables : Tables) (filesystem : FileSystemId) (e : ScopedEntryRow) : Prop :=
  ∃ p : Predicate,
    (∃ keys limit offset, ∃ page ∈ queryScopedPage db tables filesystem (toSql p).1 (toSql p).2
      (some (SortKey.listToSql keys)) limit offset, e ∈ page) ∨
    (∃ rows, scopedRows db tables filesystem (countSql (toSql p).1) (toSql p).2 = some rows ∧ e ∈ rows) ∨
    (∃ rows, scopedRows db tables filesystem (sumSql (toSql p).1) (toSql p).2 = some rows ∧ e ∈ rows)

/-- **The rows within reach** are those whose filesystem the server takes for the one asked for. -/
theorem reaches_iff {db : MariaDb} {tables : Tables} {filesystem : FileSystemId} {e : ScopedEntryRow} :
    Reaches db tables filesystem e ↔
      e ∈ tables.entries ∧ db.collate .column e.key.filesystem.value filesystem.value = .eq := by
  constructor
  · rintro ⟨p, ⟨keys, limit, offset, page, ⟨stmt, sorted, hstmt, hperm, -, hpage⟩, he⟩ | ⟨rows, hrows, he⟩ |
      ⟨rows, hrows, he⟩⟩
    · rw [statement_pageSql] at hstmt
      obtain rfl := Option.some.inj hstmt
      obtain ⟨hmem, hscope, -⟩ := mem_selectedRows_scoped.1 (hperm.mem_iff.1 (mem_of_mem_pageOf hpage he))
      exact ⟨hmem, hscope⟩
    · rw [scopedRows, countSql, statement_scoped p filesystem selectList_count] at hrows
      obtain rfl := Option.some.inj hrows
      obtain ⟨hmem, hscope, -⟩ := mem_selectedRows_scoped.1 he
      exact ⟨hmem, hscope⟩
    · rw [scopedRows, sumSql, statement_scoped p filesystem selectList_sum] at hrows
      obtain rfl := Option.some.inj hrows
      obtain ⟨hmem, hscope, -⟩ := mem_selectedRows_scoped.1 he
      exact ⟨hmem, hscope⟩
  · rintro ⟨hmem, hscope⟩
    have htrue : (tree .true).eval db.server tables.rows [("entries", storedRow e)] = some .true := rfl
    have hrows :=
      congrArg (Option.map (selectedRows db tables)) (statement_scoped .true filesystem selectList_count)
    exact ⟨.true, .inr (.inl ⟨_, hrows, mem_selectedRows_scoped.2 ⟨hmem, hscope, htrue⟩⟩)⟩

/-- **What `to_sql` returns means the predicate, and a query stays in its filesystem exactly where the
server tells the stored identifiers apart.**  The first part is about every predicate: the clause takes
its parameters one for one and is the predicate's tree, and its text is the same for every predicate of the
same shape, so that no string or number of the user is in it. -/
theorem toSql_means_tree_and_scopes (db : MariaDb) (tables : Tables) (filesystem : FileSystemId) :
    (∀ p : Predicate, ∃ ts, lex (ν := SqlValue) (toSql p).1.toList = some ts ∧
      placeholders ts = (toSql p).2.length ∧
      condition (toSql p).1 ((toSql p).2.map SqlParam.value) = some p.tree ∧
      ∀ q : Predicate, q.shape = p.shape → (toSql q).1 = (toSql p).1) ∧
    ((∀ e, Reaches db tables filesystem e → e.key.filesystem = filesystem) ↔
      ∀ e ∈ tables.entries, e.key.filesystem ≠ filesystem →
        db.collate .column e.key.filesystem.value filesystem.value ≠ .eq) := by
  constructor
  · intro p
    obtain ⟨ts, us, hlex, hbind, -⟩ := compiles_toSql p
    refine ⟨ts, hlex, by simpa using placeholders_eq_length hbind, condition_toSql p, fun q hq => ?_⟩
    rw [toSql_text, toSql_text, hq]
  · simp only [reaches_iff]
    constructor
    · intro h e he hne hscope
      exact hne (h e ⟨he, hscope⟩)
    · rintro h e ⟨he, hscope⟩
      by_contra hne
      exact h e he hne hscope

/-- **Two identifiers that differ in case**: under the default collation a query for one reads the rows of
the other. -/
theorem other_case_within_reach :
    ∃ (e : ScopedEntryRow) (filesystem : FileSystemId),
      Reaches .generalCi ⟨[e], []⟩ filesystem e ∧ e.key.filesystem ≠ filesystem :=
  ⟨{ key := ⟨⟨"FS1", by decide, by decide, by simp⟩, .juiceFs 7⟩, parent := none, name := [97], kind := .file,
      size := 0, blocks := 0, uid := 0, gid := 0, projid := 0, mode := 0, nlink := 1, atime := 0, mtime := 0,
      ctime := 0, stripeCount := none, stripeSize := none, stripeItems := [], poolName := none,
      smStatus := .null, lastSeen := 0, depth := 0 },
    ⟨"fs1", by decide, by decide, by simp⟩, reaches_iff.2 ⟨by simp, by decide⟩,
    fun h => absurd (congrArg FileSystemId.value h) (by decide)⟩

end Robinhood.Predicate
