/-
# ConfigImport.Comments — comments and quoted texts

`strip_comments` makes two passes, one for block comments and one for the comments that end with their line,
and neither knows of the quotes of the language.  The text it leaves is compared with a lexer that does.  On a
text that is `Clean` both agree up to the end: `str::lines` and `join` drop a final newline, so the comments are
stripped exactly if the text, block comments left out, does not end with one.
-/
import Mathlib
import Robinhood.ConfigImport.Text

namespace Robinhood.ConfigImport

open Lib (stripSuffix)

/-! ## §1 — The lexer -/

/-- What a character is part of. -/
inductive Lexeme where
  | code | quoted | line | block
  deriving DecidableEq, Repr

def Lexeme.after : Lexeme → Char → Lexeme
  | code, c => if c = '"' then quoted else if c = '#' then line else code
  | quoted, c => if c = '"' then code else quoted
  | line, c => if c = '\n' then code else line
  | block, _ => block

/-- The characters that no comment takes; the newlines of a comment are not part of it. -/
def Lexeme.keeps : Lexeme → Char → Bool
  | code, c => c ≠ '#'
  | quoted, _ => .true
  | line, c | block, c => c = '\n'

/-- **The text without its comments**, each character with the number of lines before it in the source. -/
def remaining : Lexeme → ℕ → List Char → List (Char × ℕ)
  | _, _, [] => []
  | .code, n, '/' :: '*' :: cs => remaining .block n cs
  | .code, n, '/' :: '/' :: cs => remaining .line n cs
  | .block, n, '*' :: '/' :: cs => remaining .code n cs
  | lexeme, n, c :: cs =>
    let rest := remaining (lexeme.after c) (if c = '\n' then n + 1 else n) cs
    if lexeme.keeps c then (c, n) :: rest else rest

/-- Whether the text, block comments left out, goes on with a newline; the flag says whether it is in one. -/
def lineEnds : Bool → List Char → Bool
  | _, [] => .false
  | .false, '/' :: '*' :: cs => lineEnds .true cs
  | .false, c :: _ => c = '\n'
  | .true, '*' :: '/' :: cs => lineEnds .false cs
  | .true, c :: cs => c = '\n' || lineEnds .true cs

/-- Whether the text, block comments left out, ends with a newline; the second flag is for what was read. -/
def endsLine : Bool → Bool → List Char → Bool
  | _, ended, [] => ended
  | .false, ended, '/' :: '*' :: cs => endsLine .true ended cs
  | .false, _, c :: cs => endsLine .false (c = '\n') cs
  | .true, ended, '*' :: '/' :: cs => endsLine .false ended cs
  | .true, ended, c :: cs => endsLine .true (ended || c = '\n') cs

/-- What a character is part of; `inner` is a block comment inside a comment that ends with its line. -/
inductive Scan where
  | code | quoted | line | inner | block
  deriving DecidableEq, Repr

def Scan.after : Scan → Char → Scan
  | code, c => if c = '"' then quoted else if c = '#' then line else code
  | quoted, c => if c = '"' then code else quoted
  | line, c => if c = '\n' then code else line
  | inner, _ => inner
  | block, _ => block

/-- **The texts that are stripped right**: no quoted text has the start of a comment in it, a block comment that
starts inside a comment of a line ends on that line, and no carriage return outside of comments ends a line. -/
def Clean : Scan → List Char → Prop
  | _, [] => True
  | .code, '/' :: '*' :: cs => Clean .block cs
  | .code, '/' :: '/' :: cs => ¬ ['*'] <+: cs ∧ Clean .line cs
  | .line, '/' :: '*' :: cs => Clean .inner cs
  | .inner, '*' :: '/' :: cs => Clean .line cs
  | .block, '*' :: '/' :: cs => Clean .code cs
  | scan, c :: cs =>
    (scan = .quoted → c ≠ '#' ∧ ¬ (c = '/' ∧ ['/'] <+: cs) ∧ ¬ (c = '/' ∧ ['*'] <+: cs)) ∧
    (scan = .inner → c ≠ '\n') ∧
    (scan = .code ∨ scan = .quoted → ¬ (c = '\r' ∧ lineEnds .false cs = true)) ∧ Clean (scan.after c) cs

def numbered : ℕ → List Char → List (Char × ℕ)
  | _, [] => []
  | n, c :: cs => (c, n) :: numbered (if c = '\n' then n + 1 else n) cs

/-! ## §2 — The second pass -/

/-- The second pass of `strip_comments`, on characters; the flag says whether the text is in a comment. -/
def cutComments : Bool → List Char → List Char
  | _, [] => []
  | .false, '#' :: cs => cutComments .true cs
  | .false, '/' :: '/' :: cs => cutComments .true cs
  | .false, '\r' :: '\n' :: cs => '\n' :: cutComments .false cs
  | .false, c :: cs => c :: cutComments .false cs
  | .true, c :: cs => if c = '\n' then '\n' :: cutComments .false cs else cutComments .true cs

/-- A line of `str::lines`. -/
def chomp (line : List Char) : List Char := (stripSuffix ['\r'] line).getD line

theorem chomp_cons (c : Char) (line : List Char) :
    chomp (c :: line) = if line = [] then (if c = '\r' then [] else [c]) else c :: chomp line := by
  cases line with
  | nil =>
    by_cases hc : c = '\r'
    · subst hc
      rfl
    · have hsuffix : ¬ ['\r'] <:+ [c] := by
        rw [List.suffix_cons_iff]
        simp [Ne.symm hc]
      simp [chomp, stripSuffix, hc, hsuffix]
  | cons d line =>
    have hsuffix : ['\r'] <:+ c :: d :: line ↔ ['\r'] <:+ d :: line := by
      rw [List.suffix_cons_iff]
      simp
    by_cases h : ['\r'] <:+ d :: line <;> simp [chomp, stripSuffix, h, hsuffix, List.take_succ_cons]

theorem cutComments_true {line rest : List Char} (hline : '\n' ∉ line) (hrest : ∀ c ∈ rest.head?, c = '\n') :
    cutComments .true (line ++ rest) = cutComments .false rest := by
  induction line with
  | nil =>
    cases rest with
    | nil => rfl
    | cons c rest =>
      obtain rfl := hrest c rfl
      rfl
  | cons c line ih =>
    rw [List.mem_cons, not_or] at hline
    rw [List.cons_append, cutComments, if_neg (Ne.symm hline.1), ih hline.2]

theorem cutComments_cons {c : Char} {cs : List Char} (hhash : c ≠ '#') (hslash : ¬ (c = '/' ∧ ['/'] <+: cs))
    (hreturn : ¬ (c = '\r' ∧ cs.head? = some '\n')) :
    cutComments .false (c :: cs) = c :: cutComments .false cs := by
  rw [cutComments]
  · exact hhash
  · rintro rest rfl rfl
    exact hslash ⟨rfl, List.prefix_append ['/'] rest⟩
  · rintro rest rfl rfl
    exact hreturn ⟨rfl, rfl⟩

/-- The last line, which no newline ends. -/
theorem cutComments_last {line : List Char} (hline : '\n' ∉ line) :
    cutComments .false line = cutLineComment line := by
  fun_induction cutLineComment line with
  | case1 => rfl
  | case2 cs | case3 cs =>
    have hcut := @cutComments_true cs [] (by simp_all) (by simp)
    rw [List.append_nil] at hcut
    exact hcut
  | case4 c cs hhash hslash ih =>
    rw [List.mem_cons, not_or] at hline
    rw [cutComments_cons hhash, ih hline.2]
    · rintro ⟨rfl, tail, rfl⟩
      exact hslash tail rfl rfl
    · rintro ⟨-, hhead⟩
      exact hline.2 (List.mem_of_mem_head? hhead)

theorem cutComments_line {line : List Char} (rest : List Char) (hline : '\n' ∉ line) :
    cutComments .false (line ++ '\n' :: rest) = cutLineComment (chomp line) ++ '\n' :: cutComments .false rest := by
  have hcomment : ∀ {line}, '\n' ∉ line → cutComments .true (line ++ '\n' :: rest) = '\n' :: cutComments .false rest :=
    fun h => cutComments_true h (by simp)
  fun_induction cutLineComment line with
  | case1 => rfl
  | case2 cs =>
    have hchomp : cutLineComment (chomp ('#' :: cs)) = [] := by
      rw [chomp_cons]
      split_ifs <;> simp_all [cutLineComment]
    rw [hchomp]
    exact hcomment (by simp_all)
  | case3 cs =>
    have hchomp : cutLineComment (chomp ('/' :: '/' :: cs)) = [] := by
      rw [chomp_cons, if_neg (by simp), chomp_cons]
      split_ifs <;> simp_all [cutLineComment]
    rw [hchomp]
    exact hcomment (by simp_all)
  | case4 c cs hhash hslash ih =>
    rw [List.mem_cons, not_or] at hline
    by_cases hreturn : c = '\r' ∧ cs = []
    · obtain ⟨rfl, rfl⟩ := hreturn
      rfl
    have hkept : cutComments .false (c :: (cs ++ '\n' :: rest)) = c :: cutComments .false (cs ++ '\n' :: rest) := by
      refine cutComments_cons hhash ?_ ?_
      · rintro ⟨rfl, tail, htail⟩
        cases cs with
        | nil => simp at htail
        | cons d cs => exact hslash cs rfl (congrArg (· :: cs) (List.cons.inj htail).1.symm)
      · rintro ⟨rfl, hhead⟩
        cases cs with
        | nil => exact hreturn ⟨rfl, rfl⟩
        | cons d cs => exact hline.2 (by simpa using Or.inl (Option.some.inj hhead).symm)
    have hchomp : cutLineComment (chomp (c :: cs)) = c :: cutLineComment (chomp cs) := by
      rw [chomp_cons]
      split_ifs with hnil hc
      · exact absurd ⟨hc, hnil⟩ hreturn
      · subst hnil
        rw [cutLineComment]
        · rfl
        · exact hhash
        · simp
      · rw [cutLineComment]
        · exact hhash
        · rintro tail rfl htail
          cases cs with
          | nil => exact hnil rfl
          | cons d cs =>
            rw [chomp_cons] at htail
            split_ifs at htail
            · cases htail
              exact hslash cs rfl rfl
            · cases htail
              exact hslash cs rfl rfl
    rw [List.cons_append, hkept, ih hline.2, hchomp, List.cons_append]

theorem cutComments_intercalate {ls : List (List Char)} (last : List Char) (h : ∀ line ∈ ls, '\n' ∉ line)
    (hlast : '\n' ∉ last) :
    cutComments .false (['\n'].intercalate (ls ++ [last])) =
      ['\n'].intercalate (ls.map (fun line => cutLineComment (chomp line)) ++ [cutLineComment last]) := by
  induction ls with
  | nil => simpa using cutComments_last hlast
  | cons line ls ih =>
    rw [List.forall_mem_cons] at h
    obtain ⟨next, rest, hnext⟩ := List.exists_cons_of_ne_nil (show ls ++ [last] ≠ [] by simp)
    obtain ⟨next', rest', hnext'⟩ := List.exists_cons_of_ne_nil
      (show ls.map (fun line => cutLineComment (chomp line)) ++ [cutLineComment last] ≠ [] by simp)
    have ih := ih h.2
    rw [hnext, hnext'] at ih
    rw [List.cons_append, hnext, List.map_cons, List.cons_append, hnext', List.intercalate_cons_cons,
      List.intercalate_cons_cons, ← ih, List.append_assoc, List.append_assoc]
    exact cutComments_line _ h.1

theorem exists_lines (text : List Char) :
    ∃ first ls, text = ['\n'].intercalate (first :: ls) ∧
      ∀ line ∈ first :: ls, '\n' ∉ line ∧ line ⊆ text := by
  induction text with
  | nil => exact ⟨[], [], rfl, by simp⟩
  | cons c text ih =>
    obtain ⟨first, ls, htext, hlines⟩ := ih
    have hlines' : ∀ line ∈ first :: ls, '\n' ∉ line ∧ line ⊆ c :: text := fun line hline =>
      ⟨(hlines line hline).1, List.subset_cons_of_subset _ (hlines line hline).2⟩
    by_cases hc : c = '\n'
    · exact ⟨[], first :: ls, by rw [List.intercalate_cons_cons, ← htext, hc]; rfl,
        List.forall_mem_cons.2 ⟨by simp, hlines'⟩⟩
    · rw [List.forall_mem_cons] at hlines'
      refine ⟨c :: first, ls, ?_, List.forall_mem_cons.2 ⟨⟨?_, ?_⟩, hlines'.2⟩⟩
      · cases ls <;> simp_all
      · exact fun h => (List.mem_cons.1 h).elim (fun h => hc h.symm) hlines'.1.1
      · exact List.cons_subset.2 ⟨List.mem_cons_self, hlines'.1.2⟩

theorem intercalate_concat_nil {ls : List (List Char)} (h : ls ≠ []) :
    ['\n'].intercalate (ls ++ [[]]) = ['\n'].intercalate ls ++ ['\n'] := by
  induction ls with
  | nil => exact absurd rfl h
  | cons line ls ih =>
    cases ls with
    | nil => simp
    | cons next ls =>
      rw [List.cons_append, List.cons_append, List.intercalate_cons_cons, ← List.cons_append, ih (by simp),
        List.intercalate_cons_cons, ← List.append_assoc]

/-- **`strip_comments` is its two passes**, without the newline at the end. -/
theorem stripComments_eq (src : List Char) :
    cutComments .false (stripBlockComments .false src) =
      stripComments src ++ if (stripBlockComments .false src).getLast? = some '\n' then ['\n'] else [] := by
  obtain ⟨first, rest, htext, hlines⟩ := exists_lines (stripBlockComments .false src)
  obtain ⟨ls, last, hls⟩ : ∃ ls last, first :: rest = ls ++ [last] :=
    ⟨(first :: rest).dropLast, (first :: rest).getLast (by simp), (List.dropLast_append_getLast _).symm⟩
  rw [hls] at htext hlines
  have hno : ∀ line ∈ ls, '\n' ∉ line := fun line hline => (hlines line (List.mem_append_left _ hline)).1
  have hlast : '\n' ∉ last := (hlines last (by simp)).1
  have hsplit : (['\n'].intercalate (ls ++ [last])).splitOn '\n' = ls ++ [last] :=
    List.splitOn_intercalate _ (fun line hline => (hlines line hline).1) (by simp)
  rw [stripComments, htext, cutComments_intercalate last hno hlast]
  simp only [lines, hsplit, List.dropLast_concat, List.getLast?_concat]
  cases last with
  | nil =>
    rw [List.map_map]
    rcases List.eq_nil_or_concat ls with rfl | ⟨init, line, rfl⟩
    · rfl
    · rw [if_pos (by rw [intercalate_concat_nil (by simp)]; simp)]
      exact intercalate_concat_nil (by simp)
  | cons c last =>
    have hend : ∀ ls : List (List Char), (['\n'].intercalate (ls ++ [c :: last])).getLast? = (c :: last).getLast? := by
      intro ls
      induction ls with
      | nil => simp
      | cons line ls ih =>
        obtain ⟨next, rest, hnext⟩ := List.exists_cons_of_ne_nil (show ls ++ [c :: last] ≠ [] by simp)
        rw [hnext] at ih
        rw [List.cons_append, hnext, List.intercalate_cons_cons, List.getLast?_append, ih,
          List.getLast?_cons]
        rfl
    have hnot : (c :: last).getLast? ≠ some '\n' := fun heq => hlast (List.mem_of_getLast? heq)
    rw [if_neg (by rw [hend]; exact hnot), List.append_nil, List.map_append, List.map_map]
    rfl

/-! ## §3 — Both passes and the lexer -/

def Scan.lexeme : Scan → Lexeme
  | code => .code
  | quoted => .quoted
  | line | inner => .line
  | block => .block

/-- What the first pass and the second pass have before them. -/
def Scan.inBlock : Scan → Bool
  | block | inner => .true
  | _ => .false

def Scan.inLine : Scan → Bool
  | line | inner => .true
  | _ => .false

theorem stripBlockComments_false {c : Char} {cs : List Char} (h : ¬ (c = '/' ∧ ['*'] <+: cs)) :
    stripBlockComments .false (c :: cs) = c :: stripBlockComments .false cs := by
  rw [stripBlockComments]
  rintro cs' rfl rfl
  exact h ⟨rfl, List.prefix_append ['*'] cs'⟩

theorem stripBlockComments_true {c : Char} {cs : List Char} (h : ¬ (c = '*' ∧ ['/'] <+: cs)) :
    stripBlockComments .true (c :: cs) =
      if c = '\n' then '\n' :: stripBlockComments .true cs else stripBlockComments .true cs := by
  rw [stripBlockComments]
  rintro cs' rfl rfl
  exact h ⟨rfl, List.prefix_append ['/'] cs'⟩

theorem lineEnds_eq (inside : Bool) (cs : List Char) :
    lineEnds inside cs = true ↔ (stripBlockComments inside cs).head? = some '\n' := by
  fun_induction lineEnds inside cs with
  | case1 inside => cases inside <;> simp [stripBlockComments]
  | case2 cs ih => exact ih
  | case3 c cs h =>
    rw [stripBlockComments]
    · simp
    · exact h
  | case4 cs ih => exact ih
  | case5 c cs h ih =>
    rw [stripBlockComments]
    · split_ifs with hc <;> simp [hc, ih]
    · exact h

theorem endsLine_eq (inside ended : Bool) (cs : List Char) :
    endsLine inside ended cs =
      ((stripBlockComments inside cs).getLast?.map fun c => decide (c = '\n')).getD ended := by
  fun_induction endsLine inside ended cs with
  | case1 inside => cases inside <;> rfl
  | case2 ended cs ih => exact ih
  | case3 ended c cs h ih =>
    rw [stripBlockComments, List.getLast?_cons, ih]
    · cases (stripBlockComments .false cs).getLast? <;> rfl
    · exact h
  | case4 ended cs ih => exact ih
  | case5 ended c cs h ih =>
    rw [stripBlockComments, ih]
    · split_ifs with hc
      · rw [List.getLast?_cons]
        cases (stripBlockComments .true cs).getLast? <;> simp [hc]
      · cases (stripBlockComments .true cs).getLast? <;> simp [hc]
    · exact h

theorem passes_cons {c : Char} {cs : List Char} (hhash : c ≠ '#') (hblock : ¬ (c = '/' ∧ ['*'] <+: cs))
    (hline : ¬ (c = '/' ∧ ['/'] <+: cs)) (hreturn : ¬ (c = '\r' ∧ lineEnds .false cs = true)) :
    cutComments .false (stripBlockComments .false (c :: cs)) =
      c :: cutComments .false (stripBlockComments .false cs) := by
  rw [stripBlockComments_false hblock]
  refine cutComments_cons hhash ?_ fun h => hreturn ⟨h.1, (lineEnds_eq ..).2 h.2⟩
  rintro ⟨rfl, hrest⟩
  cases cs with
  | nil => simp [stripBlockComments] at hrest
  | cons d cs =>
    have hd : d ≠ '/' := by simpa [eq_comm] using hline
    rw [stripBlockComments_false (by simp [hd])] at hrest
    exact hd (List.cons_prefix_cons.1 hrest).1.symm

/-- One character of the lexer. -/
theorem remaining_cons {lexeme : Lexeme} {c : Char} {cs : List Char} (n : ℕ)
    (hopen : lexeme = .code → ¬ (c = '/' ∧ (['*'] <+: cs ∨ ['/'] <+: cs)))
    (hclose : lexeme = .block → ¬ (c = '*' ∧ ['/'] <+: cs)) :
    remaining lexeme n (c :: cs) = (if lexeme.keeps c then [(c, n)] else []) ++
      remaining (lexeme.after c) (if c = '\n' then n + 1 else n) cs := by
  rw [remaining]
  · split <;> rfl
  · rintro rest rfl rfl rfl
    exact hopen rfl ⟨rfl, .inl (List.prefix_append ['*'] rest)⟩
  · rintro rest rfl rfl rfl
    exact hopen rfl ⟨rfl, .inr (List.prefix_append ['/'] rest)⟩
  · rintro rest rfl rfl rfl
    exact hclose rfl ⟨rfl, List.prefix_append ['/'] rest⟩

/-- **One character of a clean text**, unless it starts or ends a comment with the next one: the lexer and both
passes keep it or drop it together. -/
theorem passes_step {scan : Scan} {c : Char} {cs : List Char} (n : ℕ)
    (hopen : scan ≠ .block → scan ≠ .inner → ¬ (c = '/' ∧ ['*'] <+: cs))
    (hline : scan = .code ∨ scan = .quoted → ¬ (c = '/' ∧ ['/'] <+: cs))
    (hclose : scan = .block ∨ scan = .inner → ¬ (c = '*' ∧ ['/'] <+: cs)) (hquoted : scan = .quoted → c ≠ '#')
    (hinner : scan = .inner → c ≠ '\n')
    (hreturn : scan = .code ∨ scan = .quoted → ¬ (c = '\r' ∧ lineEnds .false cs = true))
    (ih : ∀ n, remaining (scan.after c).lexeme n cs =
      numbered n (cutComments (scan.after c).inLine (stripBlockComments (scan.after c).inBlock cs))) :
    remaining scan.lexeme n (c :: cs) =
      numbered n (cutComments scan.inLine (stripBlockComments scan.inBlock (c :: cs))) := by
  have hafter : (scan.after c).lexeme = scan.lexeme.after c := by
    cases scan <;> simp only [Scan.after, Scan.lexeme, Lexeme.after] <;> (try split_ifs) <;> simp_all
  rw [remaining_cons n (fun hcode => by
      cases scan <;> simp_all [Scan.lexeme]) (fun hblock => by cases scan <;> simp_all [Scan.lexeme]), ← hafter, ih]
  cases scan with
  | code =>
    by_cases hhash : c = '#'
    · subst hhash
      have hstrip : stripBlockComments .false ('#' :: cs) = '#' :: stripBlockComments .false cs :=
        stripBlockComments_false (by simp)
      simp only [Scan.inLine, Scan.inBlock, Scan.lexeme, hstrip]
      rfl
    · have hpass := passes_cons hhash (hopen (by simp) (by simp)) (hline (.inl rfl)) (hreturn (.inl rfl))
      simp only [Scan.inLine, Scan.inBlock, Scan.lexeme, hpass, Lexeme.keeps]
      by_cases hquote : c = '"' <;> simp [Scan.after, hquote, hhash, numbered]
  | quoted =>
    have hpass := passes_cons (hquoted rfl) (hopen (by simp) (by simp)) (hline (.inr rfl)) (hreturn (.inr rfl))
    simp only [Scan.inLine, Scan.inBlock, Scan.lexeme, hpass, Lexeme.keeps]
    by_cases hquote : c = '"' <;> simp [Scan.after, hquote, numbered]
  | line =>
    have hstrip := stripBlockComments_false (hopen (by simp) (by simp))
    simp only [Scan.inLine, Scan.inBlock, Scan.lexeme, hstrip, Lexeme.keeps]
    by_cases hend : c = '\n' <;> simp [Scan.after, hend, cutComments, numbered]
  | inner =>
    have hstrip := stripBlockComments_true (hclose (.inr rfl))
    rw [if_neg (hinner rfl)] at hstrip
    simp only [Scan.inLine, Scan.inBlock, Scan.lexeme, hstrip, Lexeme.keeps, hinner rfl]
    simp [Scan.after]
  | block =>
    have hstrip := stripBlockComments_true (hclose (.inl rfl))
    simp only [Scan.inLine, Scan.inBlock, Scan.lexeme, hstrip, Lexeme.keeps]
    by_cases hend : c = '\n'
    · have hkept : ∀ cs, cutComments .false ('\n' :: cs) = '\n' :: cutComments .false cs := fun cs =>
        cutComments_cons (by decide) (by simp) (by simp)
      simp [Scan.after, hend, hkept, numbered]
    · simp [Scan.after, hend]

/-- **Both passes together are the lexer** on a clean text. -/
theorem remaining_eq {scan : Scan} {cs : List Char} (h : Clean scan cs) (n : ℕ) :
    remaining scan.lexeme n cs =
      numbered n (cutComments scan.inLine (stripBlockComments scan.inBlock cs)) := by
  -- two characters of a comment in a line are two steps of the lexer
  have htwo : ∀ (c d : Char) (n : ℕ) (cs : List Char), c ≠ '\n' → d ≠ '\n' →
      remaining .line n (c :: d :: cs) = remaining .line n cs := by
    intro c d n cs hc hd
    rw [remaining_cons n (by simp) (by simp), Lexeme.after, if_neg hc, remaining_cons _ (by simp) (by simp),
      Lexeme.after, if_neg hd]
    simp [Lexeme.keeps, hc, hd]
  induction hlength : cs.length using Nat.strong_induction_on generalizing scan cs n with
  | _ size ih =>
  subst hlength
  unfold Clean at h
  split at h
  · cases scan <;> simp [remaining, stripBlockComments, cutComments, numbered]
  · next cs =>
    exact ih cs.length (by simp) h n rfl
  · next cs =>
    have hstrip : stripBlockComments .false ('/' :: '/' :: cs) = '/' :: '/' :: stripBlockComments .false cs := by
      rw [stripBlockComments_false (by simp), stripBlockComments_false (by simpa using h.1)]
    have hrest := ih cs.length (by simp) h.2 n rfl
    simp only [Scan.lexeme, Scan.inLine, Scan.inBlock] at hrest ⊢
    rw [hstrip, remaining, hrest]
    rfl
  · next cs =>
    have hrest := ih cs.length (by simp) h n rfl
    exact (htwo '/' '*' n cs (by decide) (by decide)).trans hrest
  · next cs =>
    have hrest := ih cs.length (by simp) h n rfl
    exact (htwo '*' '/' n cs (by decide) (by decide)).trans hrest
  · next cs =>
    exact ih cs.length (by simp) h n rfl
  · next c cs hblock hslash hinner hend hclose =>
    obtain ⟨hquoted, hnewline, hreturn, hrest⟩ := h
    refine passes_step n (fun h₁ h₂ => ?_) (fun h => ?_) (fun h => ?_) (fun h => (hquoted h).1) hnewline hreturn
      fun n => ih cs.length (by simp) hrest n rfl
    · rintro ⟨rfl, tail, rfl⟩
      cases scan with
      | code => exact hblock tail rfl rfl rfl
      | quoted => exact (hquoted rfl).2.2 ⟨rfl, List.prefix_append ['*'] tail⟩
      | line => exact hinner tail rfl rfl rfl
      | inner => exact h₂ rfl
      | block => exact h₁ rfl
    · rintro ⟨rfl, tail, rfl⟩
      rcases h with rfl | rfl
      · exact hslash tail rfl rfl rfl
      · exact (hquoted rfl).2.1 ⟨rfl, List.prefix_append ['/'] tail⟩
    · rintro ⟨rfl, tail, rfl⟩
      rcases h with rfl | rfl
      · exact hclose tail rfl rfl rfl
      · exact hend tail rfl rfl rfl

theorem map_fst_numbered (n : ℕ) (cs : List Char) : (numbered n cs).map Prod.fst = cs := by
  induction cs generalizing n with
  | nil => rfl
  | cons c cs ih => rw [numbered, List.map_cons, ih]

theorem not_mem_stripComments (src : List Char) : '#' ∉ stripComments src := by
  have hline : ∀ line, '#' ∉ cutLineComment line := fun line => by
    fun_induction cutLineComment line <;> simp_all [eq_comm]
  have hjoin : ∀ ls : List (List Char), '#' ∉ ['\n'].intercalate (ls.map cutLineComment) := by
    intro ls
    induction ls with
    | nil => simp
    | cons line ls ih =>
      cases ls with
      | nil => simpa using hline line
      | cons next ls =>
        rw [List.map_cons] at ih
        rw [List.map_cons, List.map_cons, List.intercalate_cons_cons]
        simp [hline line, ih]
  exact hjoin _

/-- **Exactly the comments are stripped, and every character stays on its line.**  A clean text is stripped right
exactly if it does not end with a newline, block comments left out; and no text with a hash in a quoted text
is. -/
theorem comments_stripped_iff (src : List Char) :
    (Clean .code src →
      (remaining .code 0 src = numbered 0 (stripComments src) ↔ endsLine .false .false src = false)) ∧
    ('#' ∈ (remaining .code 0 src).map Prod.fst → remaining .code 0 src ≠ numbered 0 (stripComments src)) := by
  refine ⟨fun hclean => ?_, fun hhash heq => ?_⟩
  · have hpasses := remaining_eq hclean 0
    change remaining .code 0 src = numbered 0 (cutComments .false (stripBlockComments .false src)) at hpasses
    rw [hpasses, stripComments_eq, endsLine_eq]
    constructor
    · intro h
      have htext := congrArg (List.map Prod.fst) h
      rw [map_fst_numbered, map_fst_numbered] at htext
      split_ifs at htext with hend
      · simp at htext
      · cases hlast : (stripBlockComments .false src).getLast? with
        | none => rfl
        | some c =>
          rw [hlast] at hend
          simpa using hend
    · intro h
      have hnot : (stripBlockComments .false src).getLast? ≠ some '\n' := by
        intro hend
        rw [hend] at h
        simp at h
      rw [if_neg hnot, List.append_nil]
  · rw [heq, map_fst_numbered] at hhash
    exact not_mem_stripComments src hhash

/-- A block comment closed inside a comment of a line, and a carriage return inside a line. -/
example : Clean .code "# see /* x */\na\rb".toList := by simp [Clean, Scan.after, lineEnds]

/-- **A hash inside a quoted glob starts a comment.** -/
theorem quoted_hash_stripped :
    stripComments "name == \"a#b\"".toList = "name == \"a".toList ∧
      remaining .code 0 "name == \"a#b\"".toList = numbered 0 "name == \"a#b\"".toList := by
  decide

end Robinhood.ConfigImport
