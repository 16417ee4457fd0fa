/-
# Lib.Sql.Lexer — from the text of a statement to its tokens

The lexer is an automaton over characters: a `Mode` says what has been read of the token at hand, and a
step may finish that token and start the next.  A token ends at the first character that cannot belong
to it, so a text can be cut before a delimiter and its halves read apart (`lex_append`); that is the
one fact the lexing of composed texts needs.

Read here: names, keywords in any case, decimal numbers, quoted texts without escapes, placeholders,
comparison signs and brackets.  Any other character, those of comments included, is refused.
-/
import Mathlib

namespace Robinhood.Lib.Sql

inductive Comparison
  | eq | ne | gt | ge | lt | le
  deriving DecidableEq, Repr

inductive Keyword
  | and | or | not | exists_ | select | from_ | where_ | as_ | like | regexp | in_
  | order | by_ | asc | desc | limit | offset
  deriving DecidableEq, Repr

/-- **A token**; `value` is what a placeholder becomes when a parameter is bound to it. -/
inductive Token (ν : Type)
  | name (s : String)
  | keyword (k : Keyword)
  | number (n : ℕ)
  | text (s : String)
  | placeholder
  | value (x : ν)
  | comparison (op : Comparison)
  | lparen
  | rparen
  | comma
  | dot
  | star
  deriving DecidableEq, Repr

variable {ν : Type}

/-! ## §1 — the automaton -/

/-- What has been read of the token at hand. -/
inductive Mode
  | between
  | word (cs : List Char)
  | digits (cs : List Char)
  | quoted (cs : List Char)
  | bang
  | less
  | greater
  deriving DecidableEq, Repr

def nameStart (c : Char) : Bool := c.isAlpha || c == '_'

def nameChar (c : Char) : Bool := c.isAlphanum || c == '_'

def keywordOf (word : List Char) : Option Keyword :=
  match word.map Char.toUpper with
  | ['A', 'N', 'D'] => some .and
  | ['O', 'R'] => some .or
  | ['N', 'O', 'T'] => some .not
  | ['E', 'X', 'I', 'S', 'T', 'S'] => some .exists_
  | ['S', 'E', 'L', 'E', 'C', 'T'] => some .select
  | ['F', 'R', 'O', 'M'] => some .from_
  | ['W', 'H', 'E', 'R', 'E'] => some .where_
  | ['A', 'S'] => some .as_
  | ['L', 'I', 'K', 'E'] => some .like
  | ['R', 'E', 'G', 'E', 'X', 'P'] => some .regexp
  | ['I', 'N'] => some .in_
  | ['O', 'R', 'D', 'E', 'R'] => some .order
  | ['B', 'Y'] => some .by_
  | ['A', 'S', 'C'] => some .asc
  | ['D', 'E', 'S', 'C'] => some .desc
  | ['L', 'I', 'M', 'I', 'T'] => some .limit
  | ['O', 'F', 'F', 'S', 'E', 'T'] => some .offset
  | _ => none

def wordToken (word : List Char) : Token ν :=
  match keywordOf word with
  | some k => .keyword k
  | none => .name (String.ofList word)

def numberToken (digits : List Char) : Token ν :=
  .number (digits.foldl (fun n c => 10 * n + (c.toNat - '0'.toNat)) 0)

def start (c : Char) : Option (List (Token ν) × Mode) :=
  if nameStart c then some ([], .word [c])
  else if c.isDigit then some ([], .digits [c])
  else match c with
    | ' ' => some ([], .between)
    | '\'' => some ([], .quoted [])
    | '?' => some ([.placeholder], .between)
    | '(' => some ([.lparen], .between)
    | ')' => some ([.rparen], .between)
    | ',' => some ([.comma], .between)
    | '.' => some ([.dot], .between)
    | '*' => some ([.star], .between)
    | '=' => some ([.comparison .eq], .between)
    | '!' => some ([], .bang)
    | '<' => some ([], .less)
    | '>' => some ([], .greater)
    | _ => none

def endWith (t : Token ν) (c : Char) : Option (List (Token ν) × Mode) :=
  (start c).map fun (ts, m) => (t :: ts, m)

def Mode.step : Mode → Char → Option (List (Token ν) × Mode)
  | between, c => start c
  | word cs, c => if nameChar c then some ([], .word (cs ++ [c])) else endWith (wordToken cs) c
  | digits cs, c =>
    if c.isDigit then some ([], .digits (cs ++ [c]))
    else if nameStart c then none
    else endWith (numberToken cs) c
  | quoted cs, c =>
    if c = '\'' then some ([.text (String.ofList cs)], .between)
    else if c = '\\' then none
    else some ([], .quoted (cs ++ [c]))
  | bang, c => if c = '=' then some ([.comparison .ne], .between) else none
  | less, c =>
    if c = '=' then some ([.comparison .le], .between)
    else if c = '>' then some ([.comparison .ne], .between)
    else endWith (.comparison .lt) c
  | greater, c =>
    if c = '=' then some ([.comparison .ge], .between) else endWith (.comparison .gt) c

def Mode.finish : Mode → Option (List (Token ν))
  | between => some []
  | word cs => some [wordToken cs]
  | digits cs => some [numberToken cs]
  | less => some [.comparison .lt]
  | greater => some [.comparison .gt]
  | quoted _ | bang => none

def feed : Mode → List Char → Option (List (Token ν) × Mode)
  | m, [] => some ([], m)
  | m, c :: cs => do
    let (ts, m) ← m.step c
    let (us, m) ← feed m cs
    return (ts ++ us, m)

/-- **The tokens of a text.** -/
def lex (cs : List Char) : Option (List (Token ν)) := do
  let (ts, m) ← feed .between cs
  let us ← m.finish
  return ts ++ us

/-! ## §2 — texts read piece by piece -/

theorem feed_append {m m' m'' : Mode} {a b : List Char} {ts us : List (Token ν)}
    (ha : feed m a = some (ts, m')) (hb : feed m' b = some (us, m'')) :
    feed m (a ++ b) = some (ts ++ us, m'') := by
  induction a generalizing m ts with
  | nil =>
    obtain ⟨rfl, rfl⟩ : ts = [] ∧ m = m' := by simpa [feed, eq_comm] using ha
    simpa using hb
  | cons c cs ih =>
    simp only [feed, Option.bind_eq_bind, Option.bind_eq_some_iff, Option.pure_def] at ha
    obtain ⟨⟨vs, m₁⟩, hstep, ⟨ws, m₂⟩, hrest, heq⟩ := ha
    obtain ⟨rfl, rfl⟩ : vs ++ ws = ts ∧ m₂ = m' := by simpa using heq
    simp [feed, hstep, ih hrest]

/-- The characters that belong to no word, number or sign before them. -/
def delimiter (c : Char) : Bool := c ∈ [' ', '(', ')', ',', '.', '?', '*']

theorem Mode.step_delimiter {m : Mode} {c : Char} {us ts : List (Token ν)} {m' : Mode}
    (hc : delimiter c = true) (hm : m.finish = some us) (hs : start c = some (ts, m')) :
    m.step c = some (us ++ ts, m') := by
  have hcs : nameChar c = false ∧ c.isDigit = false ∧ nameStart c = false ∧ c ≠ '=' ∧ c ≠ '>' := by
    simp only [delimiter, List.mem_cons, List.not_mem_nil, or_false, decide_eq_true_eq] at hc
    rcases hc with rfl | rfl | rfl | rfl | rfl | rfl | rfl <;> decide
  obtain ⟨hname, hdigit, hstart, heq, hgt⟩ := hcs
  cases m with
  | quoted | bang => exact absurd hm (by simp [Mode.finish])
  | _ =>
    obtain rfl := Option.some.inj hm
    simp [Mode.step, endWith, hs, hname, hdigit, hstart, heq, hgt]

/-- **A text may be cut before a delimiter.** -/
theorem lex_append {a b : List Char} {c : Char} {ts us : List (Token ν)} (ha : lex a = some ts)
    (hc : delimiter c = true) (hb : lex (c :: b) = some us) :
    lex (a ++ c :: b) = some (ts ++ us) := by
  simp only [lex, Option.bind_eq_bind, Option.bind_eq_some_iff, Option.pure_def] at ha hb
  obtain ⟨⟨as, m⟩, hfeeda, vs, hfin, heq⟩ := ha
  obtain ⟨⟨bs, mb⟩, hfeedb, ws, hfinb, heqb⟩ := hb
  simp only [feed, Option.bind_eq_bind, Option.bind_eq_some_iff, Option.pure_def] at hfeedb
  obtain ⟨⟨cs, m₁⟩, hstart, ⟨ds, m₂⟩, hrest, heqc⟩ := hfeedb
  obtain ⟨rfl, rfl⟩ : cs ++ ds = bs ∧ m₂ = mb := by simpa using heqc
  have hstep := Mode.step_delimiter hc hfin hstart
  have hfeed : feed m (c :: b) = some ((vs ++ cs) ++ ds, m₂) := by
    simp [feed, hstep, hrest]
  have hts : ts = as ++ vs := by simpa using heq.symm
  have hus : us = cs ++ ds ++ ws := by simpa using heqb.symm
  simp [lex, feed_append hfeeda hfeed, hfinb, hts, hus]

theorem lex_append_of_feed {a b : List Char} {ts us : List (Token ν)}
    (ha : feed .between a = some (ts, .between)) (hb : lex b = some us) :
    lex (a ++ b) = some (ts ++ us) := by
  simp only [lex, Option.bind_eq_bind, Option.bind_eq_some_iff, Option.pure_def] at hb
  obtain ⟨⟨bs, m⟩, hfeed, ws, hfin, heq⟩ := hb
  have hus : us = bs ++ ws := by simpa using heq.symm
  simp [lex, feed_append ha hfeed, hfin, hus]

theorem lex_space {cs : List Char} : lex (' ' :: cs) = lex (ν := ν) cs := by
  cases h : feed (ν := ν) .between cs with
  | none | some =>
    simp [lex, feed, show Mode.between.step ' ' = some (([] : List (Token ν)), .between) from rfl, h]

theorem lex_spaced {a b : List Char} {ts us : List (Token ν)} (ha : lex a = some ts)
    (hb : lex b = some us) : lex (a ++ ' ' :: b) = some (ts ++ us) :=
  lex_append ha rfl (lex_space.trans hb)

theorem lex_paren {a : List Char} {ts : List (Token ν)} (ha : lex a = some ts) :
    lex ('(' :: (a ++ [')'])) = some (.lparen :: (ts ++ [.rparen])) :=
  lex_append_of_feed (a := ['(']) rfl (lex_append ha rfl rfl)

/-! ## §3 — binding -/

/-- **Binding**: the placeholders of a statement take the parameters in order, one each. -/
def bindParams : List (Token ν) → List ν → Option (List (Token ν))
  | [], [] => some []
  | [], _ :: _ => none
  | .placeholder :: ts, x :: xs => (bindParams ts xs).map (.value x :: ·)
  | .placeholder :: _, [] => none
  | t :: ts, xs => (bindParams ts xs).map (t :: ·)

def placeholders (ts : List (Token ν)) : ℕ := ts.countP fun | .placeholder => true | _ => false

theorem bindParams_append {ts ts' us us' : List (Token ν)} {xs xs' : List ν}
    (h : bindParams ts xs = some us) (h' : bindParams ts' xs' = some us') :
    bindParams (ts ++ ts') (xs ++ xs') = some (us ++ us') := by
  induction ts, xs using bindParams.induct generalizing us with
  | case1 => obtain rfl : us = [] := by simpa [bindParams, eq_comm] using h
             simpa using h'
  | case2 => simp [bindParams] at h
  | case3 ts x xs ih =>
    obtain ⟨vs, hvs, rfl⟩ : ∃ vs, bindParams ts xs = some vs ∧ .value x :: vs = us := by
      simpa [bindParams] using h
    simp [bindParams, ih hvs]
  | case4 => simp [bindParams] at h
  | case5 t ts xs hne hne' ih =>
    cases t with
    | placeholder =>
      cases xs with
      | nil => exact absurd rfl (hne' rfl)
      | cons x xs => exact (hne x xs rfl rfl).elim
    | _ =>
      simp only [bindParams, Option.map_eq_some_iff] at h
      obtain ⟨vs, hvs, rfl⟩ := h
      simp [bindParams, ih hvs]

theorem placeholders_eq_length {ts us : List (Token ν)} {xs : List ν}
    (h : bindParams ts xs = some us) : placeholders ts = xs.length := by
  induction ts, xs using bindParams.induct generalizing us with
  | case1 => rfl
  | case2 => simp [bindParams] at h
  | case3 ts x xs ih =>
    obtain ⟨vs, hvs, -⟩ : ∃ vs, bindParams ts xs = some vs ∧ .value x :: vs = us := by
      simpa [bindParams] using h
    simpa [placeholders] using ih hvs
  | case4 => simp [bindParams] at h
  | case5 t ts xs hne hne' ih =>
    cases t with
    | placeholder =>
      cases xs with
      | nil => exact absurd rfl (hne' rfl)
      | cons x xs => exact (hne x xs rfl rfl).elim
    | _ =>
      simp only [bindParams, Option.map_eq_some_iff] at h
      obtain ⟨vs, hvs, -⟩ := h
      simpa [placeholders] using ih hvs

end Robinhood.Lib.Sql
