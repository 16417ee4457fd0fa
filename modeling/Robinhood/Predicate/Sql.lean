/-
# Predicate.Sql — the WHERE clause of a predicate

`rbh-predicate/src/sql.rs`.  `to_sql` builds a text and, on the way, pushes the parameters that its
placeholders will take.  `Predicate.tree` is the condition a reader of the predicate has in mind; the text,
read with the precedences of SQL and its parameters bound in order, is that tree (`exists_builds`), and it
depends on the shape of the predicate alone (`text_of_shape`): every string and number a user gives is a
parameter.
-/
import Mathlib
import Robinhood.Lib.Sql.Grammar
import Robinhood.Predicate.Eval

namespace Robinhood

open Store Lib.Sql

namespace Predicate

/-! ## §1 — `to_sql` -/

def Field.columnName : Field → String
  | size => "size"
  | blocks => "blocks"
  | uid => "uid"
  | gid => "gid"
  | projid => "projid"
  | mode => "mode"
  | nlink => "nlink"
  | mtime => "mtime"
  | atime => "atime"
  | ctime => "ctime"
  | kind => "kind"
  | stripeCount => "stripe_count"
  | stripeSize => "stripe_size"
  | lastSeen => "last_seen"
  | depth => "depth"

def CmpOp.sql : CmpOp → String
  | eq => "="
  | ne => "!="
  | gt => ">"
  | ge => ">="
  | lt => "<"
  | le => "<="

inductive SqlParam
  | num (n : Int64)
  | str (s : String)
  deriving DecidableEq, Repr

/-- The value a parameter binds (`QueryParam` in the store). -/
def SqlParam.value : SqlParam → SqlValue
  | num n => .int n.toInt
  | str s => .text .param s

def valueToParam : Value → SqlParam
  | .num n => .num n
  | .str s => .str s

/-- `build` with the parameters pushed so far. -/
abbrev Build := StateM (List SqlParam)

def push (p : SqlParam) : Build Unit := modify (· ++ [p])

def xattrTest (op : CmpOp) : String := "JSON_UNQUOTE(JSON_EXTRACT(sm_status, ?))" ++ " " ++ op.sql ++ " ?"

/-- The text before the placeholders of `OnOst`. -/
def ostPrefix : String :=
  "EXISTS (SELECT 1 FROM scoped_stripe_items s WHERE s.filesystem_id = entries.filesystem_id " ++
    "AND s.object_kind = entries.object_kind AND s.object_id = entries.object_id " ++
    "AND s.ost_index IN ("

/-- One test of `Tags`. -/
def buildTag (tag : String × String) : Build String := do
  push (.str ("$.xattr." ++ tag.1))
  push (.str tag.2)
  return xattrTest .eq

/-- The tests of `Tags`, in key order. -/
def buildTags : List (String × String) → Build String
  | [] => return "1=1"
  | pairs => do
    let parts ← pairs.mapM buildTag
    match parts with
    | [part] => return part
    | parts => return "(" ++ " AND ".intercalate parts ++ ")"

mutual

def build : Predicate → Build String
  | .true => return "1=1"
  | .false => return "1=0"
  | cmp field op value => do
    push (valueToParam value)
    return field.columnName ++ " " ++ op.sql ++ " ?"
  | nameLike pattern => do
    push (.str pattern)
    return "name LIKE ?"
  | inameLike pattern => do
    push (.str pattern)
    return "LOWER(name) LIKE LOWER(?)"
  | nameRegex pattern => do
    push (.str pattern)
    return "name REGEXP ?"
  | xattr key op value => do
    push (.str ("$.xattr." ++ key))
    push (valueToParam value)
    return xattrTest op
  | inPool pool => do
    push (.str pool)
    return "pool_name = ?"
  | hsmStateEq state => do
    push (.str state)
    return "JSON_UNQUOTE(JSON_EXTRACT(sm_status, '$.hsm_state')) = ?"
  | onOst [] => return "1=0"
  | onOst osts => do
    osts.forM fun idx => push (.num (Int64.ofNat idx.toNat))
    return ostPrefix ++ ", ".intercalate (osts.map fun _ => "?") ++ "))"
  | and [] => return "1=1"
  | and children => do
    let parts ← buildAll children
    return "(" ++ " AND ".intercalate parts ++ ")"
  | or [] => return "1=0"
  | or children => do
    let parts ← buildAll children
    return "(" ++ " OR ".intercalate parts ++ ")"
  | not inner => do
    let innerSql ← build inner
    return "NOT (" ++ innerSql ++ ")"
  | tags matchTags => buildTags matchTags.toList

def buildAll : List Predicate → Build (List String)
  | [] => return []
  | c :: cs => do
    let part ← build c
    let parts ← buildAll cs
    return part :: parts

end

/-- **`to_sql`**: the WHERE clause and its parameters, in order. -/
def toSql (p : Predicate) : String × List SqlParam := (build p).run []

/-! ## §2 — the condition meant -/

def CmpOp.comparison : CmpOp → Comparison
  | eq => .eq
  | ne => .ne
  | gt => .gt
  | ge => .ge
  | lt => .lt
  | le => .le

def col (name : String) : Scalar SqlValue := .column none name

def param (p : SqlParam) : Scalar SqlValue := .value p.value

/-- `JSON_UNQUOTE(JSON_EXTRACT(sm_status, path))`. -/
def statusAt (path : Scalar SqlValue) : Scalar SqlValue :=
  .call "JSON_UNQUOTE" (.call₂ "JSON_EXTRACT" (col "sm_status") path)

def always : Cond SqlValue := .test (.compare .eq) (.number 1) (.number 1)

def never : Cond SqlValue := .test (.compare .eq) (.number 1) (.number 0)

def xattrCond (key : String) (op : CmpOp) (p : SqlParam) : Cond SqlValue :=
  .test (.compare op.comparison) (statusAt (param (.str ("$.xattr." ++ key)))) (param p)

def sameObject (column : String) : Cond SqlValue :=
  .test (.compare .eq) (.column (some "s") column) (.column (some "entries") column)

def tagsTree : List (String × String) → Cond SqlValue
  | [] => always
  | tag :: rest =>
    (xattrCond tag.1 .eq (.str tag.2)).conj (rest.map fun tag => xattrCond tag.1 .eq (.str tag.2))

mutual

/-- **The condition a predicate means**, node by node. -/
def tree : Predicate → Cond SqlValue
  | .true => always
  | .false => never
  | cmp field op value =>
    .test (.compare op.comparison) (col field.columnName) (param (valueToParam value))
  | nameLike pattern => .test .like (col "name") (param (.str pattern))
  | inameLike pattern => .test .like (.call "LOWER" (col "name")) (.call "LOWER" (param (.str pattern)))
  | nameRegex pattern => .test .regexp (col "name") (param (.str pattern))
  | xattr key op value => xattrCond key op (valueToParam value)
  | inPool pool => .test (.compare .eq) (col "pool_name") (param (.str pool))
  | hsmStateEq state => .test (.compare .eq) (statusAt (.text "$.hsm_state")) (param (.str state))
  | onOst [] => never
  | onOst osts => .exists_ "scoped_stripe_items" "s" ((sameObject "filesystem_id").conj
      [sameObject "object_kind", sameObject "object_id",
        .among (.column (some "s") "ost_index") (osts.map fun idx => param (.num (Int64.ofNat idx.toNat)))])
  | and [] => always
  | and (c :: cs) => (tree c).conj (trees cs)
  | or [] => never
  | or (c :: cs) => (tree c).disj (trees cs)
  | not inner => .not (tree inner)
  | tags matchTags => tagsTree matchTags.toList

def trees : List Predicate → List (Cond SqlValue)
  | [] => []
  | c :: cs => tree c :: trees cs

end

theorem trees_eq_map (cs : List Predicate) : trees cs = cs.map tree := by
  induction cs with
  | nil => rfl
  | cons c cs ih => simp [trees, ih]

/-! ## §3 — the text is the condition -/

section runs

variable {α β : Type} {m : Build α} {f : α → Build β} {a : α} {b : β} {ps qs : List SqlParam}

/-- The step returns `a` and pushes `ps`, whatever was pushed before. -/
def Runs (m : Build α) (a : α) (ps : List SqlParam) : Prop := ∀ pushed, m.run pushed = (a, pushed ++ ps)

theorem Runs.pure (a : α) : Runs (Pure.pure a) a [] := fun pushed => by
  rw [List.append_nil]
  rfl

theorem Runs.bind (hm : Runs m a ps) (hf : Runs (f a) b qs) : Runs (m >>= f) b (ps ++ qs) := by
  intro pushed
  have hstep : (m >>= f).run pushed = (f (m.run pushed).1).run (m.run pushed).2 := rfl
  rw [hstep, hm, hf, List.append_assoc]

theorem Runs.push (p : SqlParam) : Runs (push p) () [p] := fun _ => rfl

theorem Runs.forM_push (g : α → SqlParam) (xs : List α) :
    Runs (xs.forM fun x => Predicate.push (g x)) () (xs.map g) := by
  induction xs with
  | nil => exact .pure ()
  | cons x xs ih => exact (Runs.push (g x)).bind ih

theorem Runs.mapM {g : α → Build β} {h : α → β} {r : α → List SqlParam} (xs : List α)
    (hg : ∀ x ∈ xs, Runs (g x) (h x) (r x)) : Runs (xs.mapM g) (xs.map h) (xs.flatMap r) := by
  induction xs with
  | nil => exact .pure []
  | cons x xs ih =>
    have hrest := ih fun y hy => hg y (by simp [hy])
    have hall : Runs (g x >>= fun b => xs.mapM g >>= fun bs => Pure.pure (b :: bs)) (h x :: xs.map h)
        (r x ++ (xs.flatMap r ++ [])) := (hg x (by simp)).bind (hrest.bind (.pure _))
    rw [List.append_nil] at hall
    rwa [List.mapM_cons]

end runs

/-- **What `build` does**: it pushes parameters and returns a text which, with them, is the tree. -/
structure Builds (p : Predicate) (sql : String) (params : List SqlParam) : Prop where
  run : Runs (build p) sql params
  compiles : Compiles sql (params.map SqlParam.value) p.tree

theorem lex_columnName (field : Field) :
    lex (ν := SqlValue) field.columnName.toList = some [.name field.columnName] := by
  cases field <;> rfl

theorem lex_sql (op : CmpOp) : lex (ν := SqlValue) op.sql.toList = some [.comparison op.comparison] := by
  cases op <;> rfl

theorem lex_question : lex (ν := SqlValue) ['?'] = some [.placeholder] := rfl

theorem reads_col (name : String) : ReadsScalar [.name name] (col name) := readsScalar_name name

theorem reads_param (p : SqlParam) : ReadsScalar [.value p.value] (param p) := readsScalar_value _

theorem toList_test (a b : String) :
    (a ++ " " ++ b ++ " ?").toList = (a.toList ++ ' ' :: b.toList) ++ ' ' :: ['?'] := by simp

theorem compiles_cmp (field : Field) (op : CmpOp) (p : SqlParam) :
    Compiles (field.columnName ++ " " ++ op.sql ++ " ?") [p.value]
      (.test (.compare op.comparison) (col field.columnName) (param p)) := by
  refine ⟨[.name field.columnName, .comparison op.comparison, .placeholder], _, ?_, rfl,
    (reads_col _).test (reads_param p) (.compare op.comparison)⟩
  rw [toList_test]
  exact lex_spaced (lex_spaced (lex_columnName field) (lex_sql op)) lex_question

theorem reads_statusAt {ts : List (Token SqlValue)} {path : Scalar SqlValue} (h : ReadsScalar ts path) :
    ReadsScalar (.name "JSON_UNQUOTE" :: .lparen :: (.name "JSON_EXTRACT" :: .lparen ::
      ([.name "sm_status"] ++ .comma :: (ts ++ [.rparen])) ++ [.rparen])) (statusAt path) :=
  ((reads_col "sm_status").call₂ h "JSON_EXTRACT").call "JSON_UNQUOTE"

theorem compiles_xattr (key : String) (op : CmpOp) (p : SqlParam) :
    Compiles (xattrTest op) [(SqlParam.str ("$.xattr." ++ key)).value, p.value] (xattrCond key op p) := by
  have hstatus : lex (ν := SqlValue) "JSON_UNQUOTE(JSON_EXTRACT(sm_status, ?))".toList =
      some [.name "JSON_UNQUOTE", .lparen, .name "JSON_EXTRACT", .lparen, .name "sm_status", .comma,
        .placeholder, .rparen, .rparen] := rfl
  have hlex := lex_spaced (lex_spaced hstatus (lex_sql op)) lex_question
  rw [← toList_test] at hlex
  have hreads := fun x => (reads_statusAt (readsScalar_value x)).test (reads_param p)
    (.compare op.comparison)
  exact ⟨_, _, hlex, rfl, hreads _⟩

theorem compiles_hsmStateEq (state : String) :
    Compiles "JSON_UNQUOTE(JSON_EXTRACT(sm_status, '$.hsm_state')) = ?" [(SqlParam.str state).value]
      (hsmStateEq state).tree :=
  ⟨_, _, rfl, rfl, (reads_statusAt (readsScalar_text "$.hsm_state")).test (reads_param (.str state))
    (.compare .eq)⟩

theorem compiles_inameLike (pattern : String) :
    Compiles "LOWER(name) LIKE LOWER(?)" [(SqlParam.str pattern).value] (inameLike pattern).tree :=
  ⟨_, _, rfl, rfl, ((reads_col "name").call "LOWER").test ((reads_param (.str pattern)).call "LOWER") .like⟩

theorem compiles_always : Compiles "1=1" [] always :=
  ⟨_, _, rfl, rfl, (readsScalar_number 1).test (readsScalar_number 1) (.compare .eq)⟩

theorem compiles_never : Compiles "1=0" [] never :=
  ⟨_, _, rfl, rfl, (readsScalar_number 1).test (readsScalar_number 0) (.compare .eq)⟩

/-! The list of OSTs: a subquery with as many placeholders as there are OSTs. -/

def placeholderTail : List UInt32 → List (Token SqlValue)
  | [] => [.rparen]
  | _ :: osts => .comma :: .placeholder :: placeholderTail osts

theorem lex_placeholders (o : UInt32) (osts : List UInt32) :
    lex (ν := SqlValue) ((", ".intercalate ((o :: osts).map fun _ => "?")).toList ++ [')', ')']) =
      some (.placeholder :: placeholderTail osts ++ [.rparen]) := by
  rw [String.toList_intercalate]
  induction osts generalizing o with
  | nil =>
    have hone : lex (ν := SqlValue) ['?', ')', ')'] = some [.placeholder, .rparen, .rparen] := rfl
    simpa [placeholderTail] using hone
  | cons q osts ih =>
    have hcomma : feed (ν := SqlValue) .between "?, ".toList = some ([.placeholder, .comma], .between) :=
      rfl
    have happ := lex_append_of_feed hcomma (ih q)
    simpa [List.intercalate_cons_cons, placeholderTail] using happ

theorem bindParams_placeholders (o : UInt32) (osts : List UInt32) (f : UInt32 → SqlValue) :
    bindParams (.placeholder :: placeholderTail osts ++ [.rparen]) (f o :: osts.map f) =
      some (.value (f o) :: listTail (osts.map f) ++ [.rparen]) := by
  induction osts generalizing o with
  | nil => rfl
  | cons q osts ih =>
    have hrec := ih q
    simp only [List.cons_append, bindParams, placeholderTail, listTail, List.map_cons,
      Option.map_eq_some_iff] at hrec ⊢
    obtain ⟨us, hus, heq⟩ := hrec
    exact ⟨_, ⟨_, ⟨us, hus, rfl⟩, rfl⟩, by simpa using heq⟩

theorem reads_sameObject (column : String) :
    Reads .factor [.name "s", .dot, .name column, .comparison .eq, .name "entries", .dot, .name column]
      (sameObject column) :=
  (readsScalar_qualified "s" column).test (readsScalar_qualified "entries" column) (.compare .eq)

/-- The tokens of `ostPrefix`. -/
def ostTokens : List (Token SqlValue) :=
  [.keyword .exists_, .lparen, .keyword .select, .number 1, .keyword .from_,
    .name "scoped_stripe_items", .name "s", .keyword .where_,
    .name "s", .dot, .name "filesystem_id", .comparison .eq, .name "entries", .dot, .name "filesystem_id",
    .keyword .and,
    .name "s", .dot, .name "object_kind", .comparison .eq, .name "entries", .dot, .name "object_kind",
    .keyword .and,
    .name "s", .dot, .name "object_id", .comparison .eq, .name "entries", .dot, .name "object_id",
    .keyword .and, .name "s", .dot, .name "ost_index", .keyword .in_, .lparen]

set_option maxRecDepth 2000 in
theorem feed_ostPrefix : feed .between ostPrefix.toList = some (ostTokens, .between) := rfl

theorem compiles_onOst (o : UInt32) (osts : List UInt32) :
    Compiles (ostPrefix ++ ", ".intercalate ((o :: osts).map fun _ => "?") ++ "))")
      ((o :: osts).map fun idx => (SqlParam.num (Int64.ofNat idx.toNat)).value) (onOst (o :: osts)).tree := by
  set f : UInt32 → SqlValue := fun idx => (SqlParam.num (Int64.ofNat idx.toNat)).value with hf
  have htree : (onOst (o :: osts)).tree = .exists_ "scoped_stripe_items" "s"
      ((sameObject "filesystem_id").conj [sameObject "object_kind", sameObject "object_id",
        .among (.column (some "s") "ost_index") ((f o :: osts.map f).map .value)]) := by
    simp [tree, param, hf, Function.comp_def]
  have hchain := (reads_sameObject "filesystem_id").and_chain
    [(_, sameObject "object_kind"), (_, sameObject "object_id"), (_, _)] (by
      simp only [List.forall_mem_cons, List.not_mem_nil, false_imp_iff, implies_true, and_true]
      exact ⟨reads_sameObject "object_kind", reads_sameObject "object_id",
        (readsScalar_qualified "s" "ost_index").among (f o) (osts.map f)⟩)
  have hreads := (hchain.disjunction (by simp)).exists_ 1 "scoped_stripe_items" "s"
  have hbind := bindParams_append (show bindParams ostTokens [] = some ostTokens from rfl)
    (bindParams_placeholders o osts f)
  refine ⟨_, _, ?_, hbind, ?_⟩
  · have htext : (ostPrefix ++ ", ".intercalate ((o :: osts).map fun _ => "?") ++ "))").toList =
        ostPrefix.toList ++ ((", ".intercalate ((o :: osts).map fun _ => "?")).toList ++ [')', ')']) := by
      simp only [String.toList_append, List.append_assoc]
      rfl
    rw [htext]
    exact lex_append_of_feed feed_ostPrefix (lex_placeholders o osts)
  · rw [htree]
    simpa only [chain, ostTokens, List.flatMap_cons, List.flatMap_nil, List.cons_append, List.nil_append,
      List.append_nil, List.append_assoc, List.map_cons, List.map_nil] using hreads

/-! ## §4 — every node -/

theorem exists_buildAll {cs : List Predicate} (h : ∀ c ∈ cs, ∃ sql params, Builds c sql params) :
    ∃ pieces : List (String × List SqlParam × Cond SqlValue),
      Runs (buildAll cs) (pieces.map Prod.fst) (pieces.flatMap fun q => q.2.1) ∧
      (pieces.map fun q => q.2.2) = cs.map tree ∧
      ∀ q ∈ pieces, Compiles q.1 (q.2.1.map SqlParam.value) q.2.2 := by
  induction cs with
  | nil => exact ⟨[], .pure [], rfl, by simp⟩
  | cons c cs ih =>
    obtain ⟨sql, params, hc⟩ := h c (by simp)
    obtain ⟨pieces, hrun, htrees, hpieces⟩ := ih fun d hd => h d (by simp [hd])
    refine ⟨(sql, params, c.tree) :: pieces, ?_, by simp [htrees], ?_⟩
    · have hall : Runs (buildAll (c :: cs)) _ (params ++ ((pieces.flatMap fun q => q.2.1) ++ [])) :=
        hc.run.bind (hrun.bind (.pure _))
      rwa [List.append_nil] at hall
    · rintro q (_ | ⟨_, hq⟩)
      · exact hc.compiles
      · exact hpieces q hq

section join

variable {q : String × List SqlParam × Cond SqlValue}
  {pieces : List (String × List SqlParam × Cond SqlValue)}

def bound (q : String × List SqlParam × Cond SqlValue) : Piece SqlValue :=
  (q.1, q.2.1.map SqlParam.value, q.2.2)

theorem map_value_flatMap (pieces : List (String × List SqlParam × Cond SqlValue)) :
    (pieces.flatMap fun q => q.2.1).map SqlParam.value = (pieces.map bound).flatMap fun q => q.2.1 := by
  simp [List.map_flatMap, List.flatMap_map, bound]

theorem compiles_bound (h : ∀ r ∈ pieces, Compiles r.1 (r.2.1.map SqlParam.value) r.2.2) :
    ∀ r ∈ pieces.map bound, Compiles r.1 r.2.1 r.2.2 := by
  simp only [List.mem_map, forall_exists_index, and_imp]
  rintro _ r hr rfl
  exact h r hr

theorem compiles_join_and (h : ∀ r ∈ q :: pieces, Compiles r.1 (r.2.1.map SqlParam.value) r.2.2) :
    Compiles ("(" ++ " AND ".intercalate ((q :: pieces).map Prod.fst) ++ ")")
      (((q :: pieces).flatMap fun r => r.2.1).map SqlParam.value)
      (q.2.2.conj (pieces.map fun r => r.2.2)) := by
  have hjoin := Compiles.join_and (bound q) (pieces.map bound) (h q (by simp))
    (compiles_bound fun r hr => h r (by simp [hr]))
  rw [map_value_flatMap]
  simpa [List.map_map, Function.comp_def, bound] using hjoin

theorem compiles_join_or (h : ∀ r ∈ q :: pieces, Compiles r.1 (r.2.1.map SqlParam.value) r.2.2) :
    Compiles ("(" ++ " OR ".intercalate ((q :: pieces).map Prod.fst) ++ ")")
      (((q :: pieces).flatMap fun r => r.2.1).map SqlParam.value)
      (q.2.2.disj (pieces.map fun r => r.2.2)) := by
  have hjoin := Compiles.join_or (bound q) (pieces.map bound) (h q (by simp))
    (compiles_bound fun r hr => h r (by simp [hr]))
  rw [map_value_flatMap]
  simpa [List.map_map, Function.comp_def, bound] using hjoin

end join

theorem exists_builds_and {cs : List Predicate} (h : ∀ c ∈ cs, ∃ sql params, Builds c sql params) :
    ∃ sql params, Builds (and cs) sql params := by
  cases cs with
  | nil => exact ⟨_, _, .pure _, compiles_always⟩
  | cons c cs =>
    obtain ⟨pieces, hrun, htrees, hpieces⟩ := exists_buildAll h
    cases pieces with
    | nil => simp at htrees
    | cons q pieces =>
      obtain ⟨hq, hrest⟩ : q.2.2 = c.tree ∧ (pieces.map fun r => r.2.2) = cs.map tree := by
        simpa using htrees
      have hjoin := compiles_join_and hpieces
      rw [hq, hrest, ← trees_eq_map] at hjoin
      exact ⟨_, _, hrun.bind (.pure _), by rwa [List.append_nil]⟩

theorem exists_builds_or {cs : List Predicate} (h : ∀ c ∈ cs, ∃ sql params, Builds c sql params) :
    ∃ sql params, Builds (or cs) sql params := by
  cases cs with
  | nil => exact ⟨_, _, .pure _, compiles_never⟩
  | cons c cs =>
    obtain ⟨pieces, hrun, htrees, hpieces⟩ := exists_buildAll h
    cases pieces with
    | nil => simp at htrees
    | cons q pieces =>
      obtain ⟨hq, hrest⟩ : q.2.2 = c.tree ∧ (pieces.map fun r => r.2.2) = cs.map tree := by
        simpa using htrees
      have hjoin := compiles_join_or hpieces
      rw [hq, hrest, ← trees_eq_map] at hjoin
      exact ⟨_, _, hrun.bind (.pure _), by rwa [List.append_nil]⟩

def tagPiece (tag : String × String) : String × List SqlParam × Cond SqlValue :=
  (xattrTest .eq, [.str ("$.xattr." ++ tag.1), .str tag.2], xattrCond tag.1 .eq (.str tag.2))

theorem compiles_tagPiece (tag : String × String) :
    Compiles (tagPiece tag).1 ((tagPiece tag).2.1.map SqlParam.value) (tagPiece tag).2.2 :=
  compiles_xattr tag.1 .eq (.str tag.2)

theorem runs_buildTag (tag : String × String) : Runs (buildTag tag) (tagPiece tag).1 (tagPiece tag).2.1 :=
  (Runs.push _).bind ((Runs.push _).bind (.pure _))

theorem exists_buildTags (pairs : List (String × String)) :
    ∃ sql params, Runs (buildTags pairs) sql params ∧
      Compiles sql (params.map SqlParam.value) (tagsTree pairs) := by
  have hparts := Runs.mapM pairs fun tag _ => runs_buildTag tag
  match pairs with
  | [] => exact ⟨_, _, .pure _, compiles_always⟩
  | [tag] => exact ⟨_, _, hparts.bind (.pure _), compiles_tagPiece tag⟩
  | tag :: tag' :: rest =>
    have hall : ∀ r ∈ tagPiece tag :: (tag' :: rest).map tagPiece,
        Compiles r.1 (r.2.1.map SqlParam.value) r.2.2 := by
      intro r hr
      obtain ⟨t, -, rfl⟩ := List.mem_map.1 (show r ∈ (tag :: tag' :: rest).map tagPiece from hr)
      exact compiles_tagPiece t
    refine ⟨_, _, hparts.bind (.pure _), ?_⟩
    have hjoin := compiles_join_and hall
    rw [List.append_nil]
    simpa [tagsTree, tagPiece, List.map_map, Function.comp_def, List.flatMap_map] using hjoin

/-- **Every predicate is compiled to its tree.** -/
theorem exists_builds (p : Predicate) : ∃ sql params, Builds p sql params := by
  induction p using Predicate.induct with
  | and cs ih => exact exists_builds_and ih
  | or cs ih => exact exists_builds_or ih
  | not inner ih =>
    obtain ⟨sql, params, h⟩ := ih
    exact ⟨_, _, h.run.bind (.pure _), by rw [List.append_nil]; exact h.compiles.not⟩
  | cmp field op value =>
    exact ⟨_, _, (Runs.push _).bind (.pure _), compiles_cmp field op (valueToParam value)⟩
  | nameLike pattern =>
    exact ⟨_, _, (Runs.push _).bind (.pure _), _, _, rfl, rfl,
      (reads_col "name").test (reads_param (.str pattern)) .like⟩
  | inameLike pattern => exact ⟨_, _, (Runs.push _).bind (.pure _), compiles_inameLike pattern⟩
  | nameRegex pattern =>
    exact ⟨_, _, (Runs.push _).bind (.pure _), _, _, rfl, rfl,
      (reads_col "name").test (reads_param (.str pattern)) .regexp⟩
  | xattr key op value =>
    exact ⟨_, _, (Runs.push _).bind ((Runs.push _).bind (.pure _)), compiles_xattr key op (valueToParam value)⟩
  | inPool pool =>
    exact ⟨_, _, (Runs.push _).bind (.pure _), _, _, rfl, rfl,
      (reads_col "pool_name").test (reads_param (.str pool)) (.compare .eq)⟩
  | onOst osts =>
    cases osts with
    | nil => exact ⟨_, _, .pure _, compiles_never⟩
    | cons o osts =>
      refine ⟨_, _, (Runs.forM_push _ (o :: osts)).bind (.pure _), ?_⟩
      simpa [Function.comp_def] using compiles_onOst o osts
  | hsmStateEq state => exact ⟨_, _, (Runs.push _).bind (.pure _), compiles_hsmStateEq state⟩
  | tags matchTags =>
    obtain ⟨sql, params, hrun, hcompiles⟩ := exists_buildTags matchTags.toList
    exact ⟨sql, params, hrun, hcompiles⟩
  | true => exact ⟨_, _, .pure _, compiles_always⟩
  | false => exact ⟨_, _, .pure _, compiles_never⟩

/-! ## §5 — what the text depends on -/

/-- **A predicate without its strings and numbers**: its nodes, fields and operators, and how many OSTs or
tags it names. -/
inductive Shape
  | and (children : List Shape)
  | or (children : List Shape)
  | not (inner : Shape)
  | cmp (field : Field) (op : CmpOp)
  | nameLike
  | inameLike
  | nameRegex
  | xattr (op : CmpOp)
  | inPool
  | onOst (count : ℕ)
  | hsmStateEq
  | tags (count : ℕ)
  | true
  | false

mutual

def shape : Predicate → Shape
  | and children => .and (shapes children)
  | or children => .or (shapes children)
  | not inner => .not (shape inner)
  | cmp field op _ => .cmp field op
  | nameLike _ => .nameLike
  | inameLike _ => .inameLike
  | nameRegex _ => .nameRegex
  | xattr _ op _ => .xattr op
  | inPool _ => .inPool
  | onOst osts => .onOst osts.length
  | hsmStateEq _ => .hsmStateEq
  | tags matchTags => .tags matchTags.toList.length
  | .true => .true
  | .false => .false

def shapes : List Predicate → List Shape
  | [] => []
  | c :: cs => shape c :: shapes cs

end

mutual

def Shape.text : Shape → String
  | and [] => "1=1"
  | and children => "(" ++ " AND ".intercalate (texts children) ++ ")"
  | or [] => "1=0"
  | or children => "(" ++ " OR ".intercalate (texts children) ++ ")"
  | not inner => "NOT (" ++ text inner ++ ")"
  | cmp field op => field.columnName ++ " " ++ op.sql ++ " ?"
  | nameLike => "name LIKE ?"
  | inameLike => "LOWER(name) LIKE LOWER(?)"
  | nameRegex => "name REGEXP ?"
  | xattr op => xattrTest op
  | inPool => "pool_name = ?"
  | onOst 0 => "1=0"
  | onOst n => ostPrefix ++ ", ".intercalate (List.replicate n "?") ++ "))"
  | hsmStateEq => "JSON_UNQUOTE(JSON_EXTRACT(sm_status, '$.hsm_state')) = ?"
  | tags 0 => "1=1"
  | tags 1 => xattrTest .eq
  | tags n => "(" ++ " AND ".intercalate (List.replicate n (xattrTest .eq)) ++ ")"
  | true => "1=1"
  | false => "1=0"

def Shape.texts : List Shape → List String
  | [] => []
  | c :: cs => text c :: texts cs

end

theorem exists_runs_texts {cs : List Predicate} (h : ∀ c ∈ cs, ∃ ps, Runs (build c) c.shape.text ps) :
    ∃ ps, Runs (buildAll cs) (Shape.texts (shapes cs)) ps := by
  induction cs with
  | nil => exact ⟨_, .pure _⟩
  | cons c cs ih =>
    obtain ⟨ps, hc⟩ := h c (by simp)
    obtain ⟨qs, hcs⟩ := ih fun d hd => h d (by simp [hd])
    exact ⟨_, hc.bind (hcs.bind (.pure _))⟩

theorem exists_runs_tags (pairs : List (String × String)) :
    ∃ ps, Runs (buildTags pairs) (Shape.tags pairs.length).text ps := by
  have hparts := Runs.mapM pairs fun tag _ => runs_buildTag tag
  match pairs with
  | [] => exact ⟨_, .pure _⟩
  | [tag] => exact ⟨_, hparts.bind (.pure _)⟩
  | tag :: tag' :: rest =>
    have htexts : (tag :: tag' :: rest).map (fun tag => (tagPiece tag).1) =
        List.replicate (rest.length + 2) (xattrTest .eq) := by
      simp [tagPiece, List.replicate_succ, List.map_const']
    rw [htexts] at hparts
    exact ⟨_, hparts.bind (.pure _)⟩

/-- **The text depends on the shape alone.** -/
theorem exists_runs_text (p : Predicate) : ∃ ps, Runs (build p) p.shape.text ps := by
  induction p using Predicate.induct with
  | and cs ih =>
    obtain ⟨ps, h⟩ := exists_runs_texts ih
    cases cs with
    | nil => exact ⟨_, .pure _⟩
    | cons => exact ⟨_, h.bind (.pure _)⟩
  | or cs ih =>
    obtain ⟨ps, h⟩ := exists_runs_texts ih
    cases cs with
    | nil => exact ⟨_, .pure _⟩
    | cons => exact ⟨_, h.bind (.pure _)⟩
  | not inner ih =>
    obtain ⟨ps, h⟩ := ih
    exact ⟨_, h.bind (.pure _)⟩
  | xattr => exact ⟨_, (Runs.push _).bind ((Runs.push _).bind (.pure _))⟩
  | onOst osts =>
    cases osts with
    | nil => exact ⟨_, .pure _⟩
    | cons o osts =>
      have htext : (onOst (o :: osts)).shape.text =
          ostPrefix ++ ", ".intercalate ((o :: osts).map fun _ => "?") ++ "))" := by
        rw [List.map_const']
        rfl
      rw [htext]
      exact ⟨_, (Runs.forM_push _ (o :: osts)).bind (.pure _)⟩
  | tags matchTags => exact exists_runs_tags matchTags.toList
  | true | false => exact ⟨_, .pure _⟩
  | _ => exact ⟨_, (Runs.push _).bind (.pure _)⟩

/-! ## §6 — `to_sql` as a whole -/

theorem toSql_eq {p : Predicate} {sql : String} {params : List SqlParam} (h : Runs (build p) sql params) :
    toSql p = (sql, params) := h []

theorem toSql_text (p : Predicate) : (toSql p).1 = p.shape.text := by
  obtain ⟨ps, h⟩ := exists_runs_text p
  rw [toSql_eq h]

theorem compiles_toSql (p : Predicate) :
    Compiles (toSql p).1 ((toSql p).2.map SqlParam.value) p.tree := by
  obtain ⟨sql, params, h⟩ := exists_builds p
  rw [toSql_eq h.run]
  exact h.compiles

theorem condition_toSql (p : Predicate) :
    condition (toSql p).1 ((toSql p).2.map SqlParam.value) = some p.tree :=
  (compiles_toSql p).condition

end Predicate

end Robinhood
