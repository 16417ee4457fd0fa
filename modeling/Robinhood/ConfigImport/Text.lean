/-
# ConfigImport.Text — reading a robinhood-C configuration

`rbh-config-import/src/lib.rs`, the part that takes texts apart: comments, blocks with braces, `key = value`
lines and expressions.  The importer works on lines and first occurrences and not on a grammar; the
functions here do what it does, on lists of characters.
-/
import Mathlib
import Robinhood.Policy.Classifier

namespace Robinhood.ConfigImport

open Predicate
open Lib (isSpace trimSpace parseInt splitAtFirst stripSuffix unitOf checkedMul)

/-! ## §1 — Comments and lines -/

/-- The block comment pass of `strip_comments`; the flag says whether the text is inside a comment, where
only newlines are kept. -/
def stripBlockComments : Bool → List Char → List Char
  | _, [] => []
  | .false, '/' :: '*' :: cs => stripBlockComments .true cs
  | .false, c :: cs => c :: stripBlockComments .false cs
  | .true, '*' :: '/' :: cs => stripBlockComments .false cs
  | .true, c :: cs => if c = '\n' then '\n' :: stripBlockComments .true cs else stripBlockComments .true cs

/-- A line up to the first `#` or `//`. -/
def cutLineComment : List Char → List Char
  | [] => []
  | '#' :: _ => []
  | '/' :: '/' :: _ => []
  | c :: cs => c :: cutLineComment cs

/-- `str::lines`: a final newline starts no line, and a carriage return before a newline is part of it. -/
def lines (cs : List Char) : List (List Char) :=
  let parts := cs.splitOn '\n'
  let ended := parts.dropLast.map fun line => (stripSuffix ['\r'] line).getD line
  match parts.getLast? with
  | some (c :: rest) => ended ++ [c :: rest]
  | _ => ended

/-- **`strip_comments`.** -/
def stripComments (src : List Char) : List Char :=
  ['\n'].intercalate ((lines (stripBlockComments .false src)).map cutLineComment)

/-! ## §2 — Blocks -/

inductive BlockScan where
  | header (read : List Char)
  | body (header : List Char) (depth : ℕ) (read : List Char)

/-- **`split_top_level_blocks`** as one pass; text after the last block is dropped. -/
def scanBlocks : BlockScan → List Char → Except String (List (List Char × List Char))
  | .header _, [] => .ok []
  | .header read, c :: cs =>
    if c = '{' then scanBlocks (.body (trimSpace read.reverse) 0 []) cs
    else scanBlocks (.header (c :: read)) cs
  | .body header _ _, [] =>
    .error ("unbalanced '\x7b' for block: " ++ String.ofList header)
  | .body header depth read, c :: cs =>
    if c = '{' then scanBlocks (.body header (depth + 1) (c :: read)) cs
    else if c = '}' then
      match depth with
      | 0 => (scanBlocks (.header []) cs).map fun rest => (header, read.reverse) :: rest
      | depth + 1 => scanBlocks (.body header depth (c :: read)) cs
    else scanBlocks (.body header depth (c :: read)) cs

def splitTopLevelBlocks (src : List Char) : Except String (List (List Char × List Char)) :=
  scanBlocks (.header []) src

/-! ## §3 — The body of a block -/

/-- `trim_end_matches(';')`. -/
def trimEndSemicolons (cs : List Char) : List Char := (cs.reverse.dropWhile (· = ';')).reverse

/-- `str::replacen` of one occurrence by nothing. -/
def removeFirst (needle cs : List Char) : List Char :=
  match splitAtFirst needle cs with
  | some (before, after) => before ++ after
  | none => cs

/-- The `key = value` of a line, if neither side is empty. -/
def keyValue (line : List Char) : Option (String × String) :=
  match splitAtFirst ['='] line with
  | none => none
  | some (k, v) =>
    let k := trimSpace k
    let v := trimSpace (trimEndSemicolons (trimSpace v))
    if k = [] ∨ v = [] then none else some (String.ofList k, String.ofList v)

/-- **`split_body`**: the nested blocks, and the `key = value` lines of what is left when the texts
`header{body}` are removed.  The header has been trimmed, so a block with a blank before its brace stays. -/
def splitBody (body : List Char) : List (List Char × List Char) × List (String × String) :=
  let blocks := match splitTopLevelBlocks body with
    | .ok blocks => blocks
    | .error _ => []
  let plain := blocks.foldl (fun plain b => removeFirst (b.1 ++ '{' :: b.2 ++ ['}']) plain) body
  (blocks, (lines plain).filterMap keyValue)

/-- `HashMap::get`; the last line with a key has its value. -/
def lookupKey (kvs : List (String × String)) (key : String) : Option String := kvs.reverse.lookup key

/-! ## §4 — Expressions -/

/-- `str::split` at a text: `skip` characters of an occurrence are left to pass over. -/
def splitText (sep : List Char) : ℕ → List Char → List Char → List (List Char)
  | _, read, [] => [read.reverse]
  | skip + 1, read, _ :: cs => splitText sep skip read cs
  | 0, read, c :: cs =>
    if sep <+: c :: cs then read.reverse :: splitText sep (sep.length - 1) [] cs
    else splitText sep 0 (c :: read) cs

/-- `map_field`; a name is compared as a pattern, its field is never used. -/
def mapField : String → Option Field
  | "size" => some .size
  | "uid" => some .uid
  | "gid" => some .gid
  | "projid" => some .projid
  | "mode" => some .mode
  | "last_mod" | "mtime" => some .mtime
  | "last_access" | "atime" => some .atime
  | "ctime" | "creation_time" => some .ctime
  | "nlink" | "links" => some .nlink
  | "name" => some .kind
  | _ => none

/-- `parse_value`: a number, or one with a unit of bytes, days or hours. -/
def parseValue (s : List Char) : Option Int64 :=
  let s := trimSpace s
  match parseInt s with
  | some n => some n
  | none =>
    (unitOf [("KB", (1024 : Int64)), ("MB", 1024 ^ 2), ("GB", 1024 ^ 3), ("TB", 1024 ^ 4), ("d", 86400),
      ("h", 3600)] s).bind fun (digits, unit) => (parseInt digits).bind fun n => checkedMul n unit

/-- `glob_to_sql_like`. -/
def globToSqlLike (pattern : List Char) : List Char :=
  pattern.flatMap fun c =>
    if c = '*' then ['%'] else if c = '?' then ['_'] else if c = '%' ∨ c = '_' then ['\\', c] else [c]

/-- `trim_matches('"')`. -/
def trimQuotes (cs : List Char) : List Char :=
  ((cs.dropWhile (· = '"')).reverse.dropWhile (· = '"')).reverse

def operators : List (String × CmpOp) :=
  [(">=", .ge), ("<=", .le), ("==", .eq), ("!=", .ne), (">", .gt), ("<", .lt)]

/-- An atom read with one operator. -/
def parseComparison (s : List Char) (op : String × CmpOp) : Option Predicate := do
  let (lhs, rhs) ← splitAtFirst op.1.toList s
  let lhs := String.ofList (trimSpace lhs)
  let rhs := trimSpace rhs
  let field ← mapField lhs
  match parseValue rhs with
  | some v => some (.cmp field op.2 (.num v))
  | none =>
    if lhs = "name" ∧ ['"'] <+: rhs then
      some (.nameLike (String.ofList (globToSqlLike (trimQuotes rhs))))
    else none

/-- The kinds that `type ==` names. -/
def typeOf : String → Option Int64
  | "file" => some 0
  | "directory" | "dir" => some 1
  | "symlink" => some 2
  | _ => none

/-- `parse_atom`. -/
def parseAtom (s : List Char) : Option Predicate :=
  let s := trimSpace (trimEndSemicolons (trimSpace s))
  let kind := if "type ==".toList <+: s then typeOf (String.ofList (trimSpace (s.drop 7))) else none
  match kind with
  | some k => some (.cmp .kind .eq (.num k))
  | none => operators.findSome? (parseComparison s)

def atoms (src : List Char) : List (List Char) :=
  ((src.splitOnP fun c => c = '\n' ∨ c = ';').flatMap fun s =>
    (splitText " and ".toList 0 [] s).flatMap fun s =>
      (splitText "&&".toList 0 [] s).map trimSpace).filter fun s => s ≠ []

/-- **`parse_expression`**: the conjunction of the atoms that are recognised; it never fails. -/
def parseExpression (src : List Char) : Except String Predicate :=
  match (atoms src).filterMap parseAtom with
  | [] => .ok .true
  | [p] => .ok p
  | ps => .ok (.and ps)

theorem exists_parseExpression (definition : List Char) : ∃ p, parseExpression definition = .ok p := by
  unfold parseExpression
  split <;> exact ⟨_, rfl⟩

end Robinhood.ConfigImport
