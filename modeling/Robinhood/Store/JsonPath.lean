/-
# Store.JsonPath — JSON paths, as MariaDB reads them

`JSON_EXTRACT(document, path)` takes its path as text.  The text is read by an automaton: `$`, then steps
of the forms `.name`, `."name"`, `.*`, `[…]` and `**`.  A name without quotes ends at the next `.`, `[`
or `*`, and a backslash in it escapes what follows, so the text of a name is in general not the name.

Two things differ between versions of the server and are parameters here: which further characters may
stand in a name without quotes (letters, digits and `_` always may), and what the text between square
brackets selects.
-/
import Mathlib
import Robinhood.Store.Json

namespace Robinhood.Store

/-! ## §1 — the text of a value -/

namespace Json

/-- One character inside the quotes of a JSON string, as `serde_json` writes it. -/
def escapeChar (c : Char) : List Char :=
  match c with
  | '"' => ['\\', '"']
  | '\\' => ['\\', '\\']
  | '\n' => ['\\', 'n']
  | '\r' => ['\\', 'r']
  | '\t' => ['\\', 't']
  | c =>
    if c.toNat = 8 then ['\\', 'b']
    else if c.toNat = 12 then ['\\', 'f']
    else if c.toNat < 32 then ['\\', 'u', '0', '0', (c.toNat / 16).digitChar, (c.toNat % 16).digitChar]
    else [c]

def quote (s : String) : String := String.ofList ('"' :: (s.toList.flatMap escapeChar ++ ['"']))

mutual

/-- `serde_json::to_string`; `float` writes a number that is not an integer. -/
def text (float : UInt64 → String) : Json → String
  | null => "null"
  | bool b => if b then "true" else "false"
  | int n => n.repr
  | .float bits => float bits
  | str s => quote s
  | arr items => "[" ++ ",".intercalate (textItems float items) ++ "]"
  | obj members => "\x7b" ++ ",".intercalate (textMembers float members) ++ "\x7d"

def textItems (float : UInt64 → String) : List Json → List String
  | [] => []
  | j :: js => text float j :: textItems float js

def textMembers (float : UInt64 → String) : List (String × Json) → List String
  | [] => []
  | (k, j) :: js => (quote k ++ ":" ++ text float j) :: textMembers float js

end

/-- `JSON_UNQUOTE`: a string without its quotes and escapes, any other value as its text. -/
def unquote (float : UInt64 → String) : Json → String
  | str s => s
  | j => text float j

mutual

/-- A value and every value inside it. -/
def descendants : Json → List Json
  | arr items => arr items :: descendantsItems items
  | obj members => obj members :: descendantsMembers members
  | j => [j]

def descendantsItems : List Json → List Json
  | [] => []
  | j :: js => descendants j ++ descendantsItems js

def descendantsMembers : List (String × Json) → List Json
  | [] => []
  | (_, j) :: js => descendants j ++ descendantsMembers js

end

end Json

/-! ## §2 — steps -/

inductive PathStep
  | member (name : String)
  | anyMember
  /-- for an array of each length the places selected, and whether they may be several -/
  | elements (places : ℕ → List ℕ) (several : Bool)
  | descend

structure PathSyntax where
  /-- characters accepted in a name without quotes -/
  nameChar : Char → Bool
  nameChar_of_isAlphanum : ∀ c, c.isAlphanum = true ∨ c = '_' → nameChar c = true
  /-- what the text between square brackets selects -/
  subscript : List Char → Option ((ℕ → List ℕ) × Bool)

/-- Where the automaton is. -/
inductive PathMode
  | step
  | star
  | key
  | name (cs : List Char)
  | nameEscape (cs : List Char)
  | quoted (cs : List Char)
  | quotedEscape (cs : List Char)
  | subscript (cs : List Char)

def hexDigit (c : Char) : Option ℕ :=
  if c.isDigit then some (c.toNat - '0'.toNat)
  else if 'a' ≤ c ∧ c ≤ 'f' then some (c.toNat - 'a'.toNat + 10)
  else if 'A' ≤ c ∧ c ≤ 'F' then some (c.toNat - 'A'.toNat + 10)
  else none

def hexChar (a b c d : Char) : Option Char := do
  let a ← hexDigit a
  let b ← hexDigit b
  let c ← hexDigit c
  let d ← hexDigit d
  let n := ((a * 16 + b) * 16 + c) * 16 + d
  if n.isValidChar then some (Char.ofNat n) else none

/-- The character after a backslash; `u` needs its four digits. -/
def unescapeChar : Char → Option Char
  | 'b' => some (Char.ofNat 8)
  | 'f' => some (Char.ofNat 12)
  | 'n' => some '\n'
  | 'r' => some '\r'
  | 't' => some '\t'
  | 'u' => none
  | c => some c

/-- A name with its JSON escapes undone. -/
def unescape : List Char → Option (List Char)
  | [] => some []
  | '\\' :: 'u' :: a :: b :: c :: d :: cs => do
    let x ← hexChar a b c d
    let xs ← unescape cs
    return x :: xs
  | '\\' :: c :: cs => do
    let x ← unescapeChar c
    let xs ← unescape cs
    return x :: xs
  | '\\' :: [] => none
  | c :: cs => (unescape cs).map (c :: ·)

def memberStep (cs : List Char) : Option PathStep :=
  (unescape cs).map fun cs => .member (String.ofList cs)

variable (syn : PathSyntax)

def pathSteps : PathMode → List Char → Option (List PathStep)
  | .step, [] => some []
  | .step, '.' :: cs => pathSteps .key cs
  | .step, '[' :: cs => pathSteps (.subscript []) cs
  | .step, '*' :: cs => pathSteps .star cs
  | .star, '*' :: cs => (pathSteps .step cs).map (.descend :: ·)
  | .key, '*' :: cs => (pathSteps .step cs).map (.anyMember :: ·)
  | .key, '"' :: cs => pathSteps (.quoted []) cs
  | .key, '\\' :: cs => pathSteps (.nameEscape ['\\']) cs
  | .key, c :: cs => if syn.nameChar c ∧ c ≠ '.' ∧ c ≠ '[' then pathSteps (.name [c]) cs else none
  | .name n, [] => (memberStep n).map fun s => [s]
  | .name n, '.' :: cs => do return (← memberStep n) :: (← pathSteps .key cs)
  | .name n, '[' :: cs => do return (← memberStep n) :: (← pathSteps (.subscript []) cs)
  | .name n, '*' :: cs => do return (← memberStep n) :: (← pathSteps .star cs)
  | .name n, '\\' :: cs => pathSteps (.nameEscape (n ++ ['\\'])) cs
  | .name n, c :: cs => if syn.nameChar c then pathSteps (.name (n ++ [c])) cs else none
  | .nameEscape n, c :: cs => pathSteps (.name (n ++ [c])) cs
  | .quoted n, '"' :: cs => do return (← memberStep n) :: (← pathSteps .step cs)
  | .quoted n, '\\' :: cs => pathSteps (.quotedEscape (n ++ ['\\'])) cs
  | .quoted n, c :: cs => pathSteps (.quoted (n ++ [c])) cs
  | .quotedEscape n, c :: cs => pathSteps (.quoted (n ++ [c])) cs
  | .subscript t, ']' :: cs => do
    let (places, several) ← syn.subscript t
    return .elements places several :: (← pathSteps .step cs)
  | .subscript t, c :: cs => pathSteps (.subscript (t ++ [c])) cs
  | _, _ => none

/-- **The steps of a path**; `none` where the text is no path. -/
def parsePath (path : String) : Option (List PathStep) :=
  match path.toList with
  | '$' :: cs => pathSteps syn .step cs
  | _ => none

/-! ## §3 — extraction -/

def PathStep.select : PathStep → Json → List Json
  | member name, j => (j.get name).toList
  | anyMember, .obj members => members.map Prod.snd
  | anyMember, _ => []
  | elements places _, .arr items => (places items.length).filterMap fun i => items[i]?
  -- a value that is no array is read as an array of itself
  | elements places _, j => (places 1).filterMap fun i => if i = 0 then some j else none
  | descend, j => j.descendants

def selectPath : List PathStep → Json → List Json
  | [], j => [j]
  | s :: ss, j => (s.select j).flatMap (selectPath ss)

def PathStep.wild : PathStep → Bool
  | member _ => false
  | anyMember | descend => true
  | elements _ several => several

/-- **`JSON_EXTRACT`**: the value the path leads to, all of them in an array where there may be several,
and NULL where there is none or the text is no path. -/
def jsonExtract (j : Json) (path : String) : Option Json := do
  let steps ← parsePath syn path
  match selectPath steps j, steps.any PathStep.wild with
  | [], _ => none
  | js, true => some (.arr js)
  | k :: _, false => some k

/-! ## §4 — which names a path text says as they are -/

attribute [local simp] pathSteps

variable {syn}

def PathSyntax.Bare (syn : PathSyntax) (c : Char) : Prop :=
  syn.nameChar c = true ∧ c ≠ '.' ∧ c ≠ '[' ∧ c ≠ '*' ∧ c ≠ '\\'

/-- **A plain name**: written without quotes, the path text says the name. -/
structure PathSyntax.Plain (syn : PathSyntax) (name : List Char) : Prop where
  ne_nil : name ≠ []
  unquoted : name.head? ≠ some '"'
  bare : ∀ c ∈ name, syn.Bare c

theorem unescape_cons {c : Char} (h : c ≠ '\\') (cs : List Char) :
    unescape (c :: cs) = (unescape cs).map (c :: ·) := by
  rw [unescape.eq_def]
  split <;> simp_all

theorem unescape_of_not_mem {cs : List Char} (h : '\\' ∉ cs) : unescape cs = some cs := by
  induction cs with
  | nil => rfl
  | cons c cs ih =>
    obtain ⟨hc, hcs⟩ : c ≠ '\\' ∧ '\\' ∉ cs := by
      simpa [List.mem_cons, not_or, ne_comm] using h
    rw [unescape_cons hc, ih hcs]
    rfl

theorem length_unescape {cs ds : List Char} (h : unescape cs = some ds) :
    ds.length ≤ cs.length ∧ (ds.length = cs.length → '\\' ∉ cs) := by
  fun_induction unescape cs generalizing ds with
  | case1 =>
    obtain rfl : [] = ds := Option.some.inj h
    simp
  | case2 _ _ _ _ _ ih | case3 _ _ _ ih =>
    simp only [Option.bind_eq_bind, Option.bind_eq_some_iff, Option.pure_def] at h
    obtain ⟨x, -, xs, hxs, heq⟩ := h
    obtain rfl : x :: xs = ds := Option.some.inj heq
    have := (ih hxs).1
    simp only [List.length_cons]
    omega
  | case4 => cases h
  | case5 c cs h₁ h₂ h₃ ih =>
    obtain ⟨xs, hxs, rfl⟩ := Option.map_eq_some_iff.1 h
    obtain ⟨hle, heq⟩ := ih hxs
    have hc : c ≠ '\\' := by
      rintro rfl
      cases cs with
      | nil => exact h₃ rfl rfl
      | cons d cs => exact h₂ d cs rfl rfl
    simp only [List.length_cons, List.mem_cons, not_or]
    exact ⟨by omega, fun hlen => ⟨hc.symm, heq (by omega)⟩⟩

theorem pathSteps_name_cons {n cs : List Char} {c : Char} (h : syn.Bare c) :
    pathSteps syn (.name n) (c :: cs) = pathSteps syn (.name (n ++ [c])) cs := by
  obtain ⟨hc, hdot, hbracket, hstar, hescape⟩ := h
  rw [pathSteps.eq_def]
  split <;> simp_all

theorem pathSteps_key_cons {cs : List Char} {c : Char} (h : syn.Bare c) (hq : c ≠ '"') :
    pathSteps syn .key (c :: cs) = pathSteps syn (.name [c]) cs := by
  obtain ⟨hc, hdot, hbracket, hstar, hescape⟩ := h
  rw [pathSteps.eq_def]
  split <;> simp_all

theorem pathSteps_name_append {n cs rest : List Char} (h : ∀ c ∈ cs, syn.Bare c) :
    pathSteps syn (.name n) (cs ++ rest) = pathSteps syn (.name (n ++ cs)) rest := by
  induction cs generalizing n with
  | nil => simp
  | cons c cs ih =>
    rw [List.cons_append, pathSteps_name_cons (h c (by simp)), ih fun d hd => h d (by simp [hd])]
    simp

theorem pathSteps_key_append {name rest : List Char} (h : syn.Plain name) :
    pathSteps syn .key (name ++ rest) = pathSteps syn (.name name) rest := by
  cases name with
  | nil => exact absurd rfl h.ne_nil
  | cons c =>
    have hq : c ≠ '"' := by simpa using h.unquoted
    rw [List.cons_append, pathSteps_key_cons (h.bare c (by simp)) hq,
      pathSteps_name_append fun d hd => h.bare d (by simp [hd])]
    rfl

theorem memberStep_of_plain {name : List Char} (h : syn.Plain name) :
    memberStep name = some (.member (String.ofList name)) := by
  have : '\\' ∉ name := fun hmem => (h.bare _ hmem).2.2.2.2 rfl
  simp [memberStep, unescape_of_not_mem this]

/-- **A plain name is one step**, to the member of that name. -/
theorem pathSteps_key_plain {name : List Char} (h : syn.Plain name) :
    pathSteps syn .key name = some [.member (String.ofList name)] := by
  have hread : pathSteps syn .key (name ++ []) = pathSteps syn (.name name) [] := pathSteps_key_append h
  rw [List.append_nil] at hread
  simp [hread, pathSteps, memberStep_of_plain h]

theorem pathSteps_key_plain_dot {name rest : List Char} (h : syn.Plain name) :
    pathSteps syn .key (name ++ '.' :: rest) =
      (pathSteps syn .key rest).map (.member (String.ofList name) :: ·) := by
  rw [pathSteps_key_append h]
  simp [pathSteps, memberStep_of_plain h, Option.map_eq_bind]

theorem pathSteps_name_cases {n cs : List Char} {c : Char} {steps : List PathStep}
    (h : pathSteps syn (.name n) (c :: cs) = some steps) :
    (∃ s ss, memberStep n = some s ∧ steps = s :: ss) ∨
    (pathSteps syn (.nameEscape (n ++ ['\\'])) cs = some steps) ∨
    (syn.Bare c ∧ pathSteps syn (.name (n ++ [c])) cs = some steps) := by
  by_cases hend : c = '.' ∨ c = '[' ∨ c = '*'
  · left
    rcases hend with rfl | rfl | rfl <;>
      · simp only [pathSteps, Option.bind_eq_bind, Option.bind_eq_some_iff, Option.pure_def] at h
        obtain ⟨s, hs, ss, -, heq⟩ := h
        exact ⟨s, ss, hs, (Option.some.inj heq).symm⟩
  · right
    by_cases hescape : c = '\\'
    · subst hescape
      exact .inl (by simpa [pathSteps] using h)
    · right
      have hc : syn.nameChar c = true := by
        by_contra hn
        rw [pathSteps.eq_def] at h
        split at h <;> simp_all
      have hbare : syn.Bare c := ⟨hc, by tauto, by tauto, by tauto, hescape⟩
      exact ⟨hbare, pathSteps_name_cons hbare ▸ h⟩

theorem length_memberStep {n : List Char} {s : PathStep} (h : memberStep n = some s) :
    ∃ m, s = .member m ∧ m.toList.length ≤ n.length ∧ (m.toList.length = n.length → '\\' ∉ n) := by
  obtain ⟨ds, hds, rfl⟩ := Option.map_eq_some_iff.1 h
  exact ⟨_, rfl, by simpa using length_unescape hds⟩

theorem first_of_name {cs n : List Char} {steps : List PathStep} :
    (pathSteps syn (.name n) cs = some steps → ∃ m ss, steps = .member m :: ss ∧
      m.toList.length ≤ n.length + cs.length ∧
      (m.toList.length = n.length + cs.length → '\\' ∉ n ∧ ∀ c ∈ cs, syn.Bare c)) ∧
    (pathSteps syn (.nameEscape n) cs = some steps → '\\' ∈ n → ∃ m ss, steps = .member m :: ss ∧
      m.toList.length < n.length + cs.length) := by
  -- both modes at once, since an escape returns to the name after one character
  induction cs generalizing n steps with
  | nil =>
    constructor
    · intro h
      obtain ⟨s, hs, rfl⟩ : ∃ s, memberStep n = some s ∧ [s] = steps := by
        simpa [pathSteps] using h
      obtain ⟨m, rfl, hlen⟩ := length_memberStep hs
      exact ⟨m, [], rfl, by simpa using hlen⟩
    · intro h
      simp [pathSteps] at h
  | cons c cs ih =>
    constructor
    · intro h
      obtain ⟨s, ss, hs, rfl⟩ | hescape | ⟨hbare, hrest⟩ := pathSteps_name_cases h
      · obtain ⟨m, rfl, hle, -⟩ := length_memberStep hs
        refine ⟨m, ss, rfl, by omega, fun heq => ?_⟩
        simp only [List.length_cons] at heq
        omega
      · obtain ⟨m, ss, rfl, hlt⟩ := ih.2 hescape (by simp)
        simp only [List.length_append, List.length_cons, List.length_nil] at hlt ⊢
        exact ⟨m, ss, rfl, by omega, fun heq => by omega⟩
      · obtain ⟨m, ss, rfl, hle, heq⟩ := ih.1 hrest
        simp only [List.length_append, List.length_cons, List.length_nil] at hle heq ⊢
        refine ⟨m, ss, rfl, by omega, fun hlen => ?_⟩
        obtain ⟨hn, hcs⟩ := heq (by omega)
        simp only [List.mem_append, not_or] at hn
        exact ⟨hn.1, by simpa [hbare] using hcs⟩
    · intro h hmem
      have hname : pathSteps syn (.name (n ++ [c])) cs = some steps := by simpa [pathSteps] using h
      obtain ⟨m, ss, rfl, hle, heq⟩ := ih.1 hname
      simp only [List.length_append, List.length_cons, List.length_nil] at hle heq ⊢
      refine ⟨m, ss, rfl, ?_⟩
      by_contra hlt
      exact (heq (by omega)).1 (by simp [hmem])

theorem first_of_quoted {cs n : List Char} {steps : List PathStep} :
    (pathSteps syn (.quoted n) cs = some steps → ∃ m ss, steps = .member m :: ss ∧
      m.toList.length < n.length + cs.length) ∧
    (pathSteps syn (.quotedEscape n) cs = some steps → ∃ m ss, steps = .member m :: ss ∧
      m.toList.length < n.length + cs.length) := by
  induction cs generalizing n steps with
  | nil => simp [pathSteps]
  | cons c cs ih =>
    have hshift : ∀ m : String, m.toList.length < (n ++ [c]).length + cs.length →
        m.toList.length < n.length + (c :: cs).length := by
      intro m
      simp only [List.length_append, List.length_cons, List.length_nil]
      omega
    constructor
    · intro h
      by_cases hq : c = '"'
      · subst hq
        simp only [pathSteps, Option.bind_eq_bind, Option.bind_eq_some_iff, Option.pure_def] at h
        obtain ⟨s, hs, ss, -, heq⟩ := h
        obtain ⟨m, rfl, hle, -⟩ := length_memberStep hs
        exact ⟨m, ss, (Option.some.inj heq).symm, by simp only [List.length_cons]; omega⟩
      · by_cases hescape : c = '\\'
        · subst hescape
          obtain ⟨m, ss, rfl, hlt⟩ := ih.2 (show pathSteps syn (.quotedEscape (n ++ ['\\'])) cs = _ by
            simpa [pathSteps] using h)
          exact ⟨m, ss, rfl, hshift m hlt⟩
        · have hnext : pathSteps syn (.quoted (n ++ [c])) cs = some steps := by
            rw [pathSteps.eq_def] at h
            split at h <;> simp_all
          obtain ⟨m, ss, rfl, hlt⟩ := ih.1 hnext
          exact ⟨m, ss, rfl, hshift m hlt⟩
    · intro h
      obtain ⟨m, ss, rfl, hlt⟩ := ih.1 (show pathSteps syn (.quoted (n ++ [c])) cs = _ by
        simpa [pathSteps] using h)
      exact ⟨m, ss, rfl, hshift m hlt⟩

/-- **A name that is not plain is not said**: as path text it leads first to a member of another name,
or to all members. -/
theorem first_of_not_plain {name : List Char} {steps : List PathStep} (hplain : ¬ syn.Plain name)
    (h : pathSteps syn .key name = some steps) :
    ∃ s ss, steps = s :: ss ∧ (s = .anyMember ∨ ∃ m, s = .member m ∧ m ≠ String.ofList name) := by
  have hne : ∀ m : String, m.toList.length < name.length → m ≠ String.ofList name := by
    rintro m hlt rfl
    simp at hlt
  cases name with
  | nil => simp [pathSteps] at h
  | cons c cs =>
    by_cases hstar : c = '*'
    · subst hstar
      obtain ⟨ss, -, rfl⟩ : ∃ ss, pathSteps syn .step cs = some ss ∧ .anyMember :: ss = steps := by
        simpa [pathSteps] using h
      exact ⟨_, ss, rfl, .inl rfl⟩
    by_cases hq : c = '"'
    · subst hq
      obtain ⟨m, ss, rfl, hlt⟩ := first_of_quoted.1 (show pathSteps syn (.quoted []) cs = _ by
        simpa [pathSteps] using h)
      refine ⟨_, ss, rfl, .inr ⟨m, rfl, hne m ?_⟩⟩
      simp only [List.length_cons, List.length_nil] at hlt ⊢
      omega
    by_cases hescape : c = '\\'
    · subst hescape
      obtain ⟨m, ss, rfl, hlt⟩ := first_of_name.2 (show pathSteps syn (.nameEscape ['\\']) cs = _ by
        simpa [pathSteps] using h) (by simp)
      refine ⟨_, ss, rfl, .inr ⟨m, rfl, hne m ?_⟩⟩
      simp only [List.length_cons, List.length_nil] at hlt ⊢
      omega
    · have hc : syn.nameChar c = true ∧ c ≠ '.' ∧ c ≠ '[' := by
        by_contra hn
        rw [pathSteps.eq_def] at h
        split at h <;> simp_all
      have hbare : syn.Bare c := ⟨hc.1, hc.2.1, hc.2.2, hstar, hescape⟩
      rw [pathSteps_key_cons hbare hq] at h
      obtain ⟨m, ss, rfl, hle, heq⟩ := first_of_name.1 h
      refine ⟨_, ss, rfl, .inr ⟨m, rfl, hne m ?_⟩⟩
      simp only [List.length_cons, List.length_nil] at hle heq ⊢
      by_contra hlt
      obtain ⟨-, hcs⟩ := heq (by omega)
      exact hplain ⟨by simp, by simpa using hq, by simpa [hbare] using hcs⟩

/-! ## §5 — paths of one and two members -/

theorem plain_of_isAlphanum {name : List Char} (hne : name ≠ [])
    (h : ∀ c ∈ name, c.isAlphanum = true ∨ c = '_') : syn.Plain name where
  ne_nil := hne
  unquoted hq := absurd (h '"' (List.mem_of_mem_head? hq)) (by decide)
  bare c hc := by
    refine ⟨syn.nameChar_of_isAlphanum c (h c hc), ?_, ?_, ?_, ?_⟩ <;>
      · rintro rfl
        exact absurd (h _ hc) (by decide)

def extractSteps (steps : List PathStep) (j : Json) : Option Json :=
  match selectPath steps j, steps.any PathStep.wild with
  | [], _ => none
  | js, true => some (.arr js)
  | k :: _, false => some k

theorem jsonExtract_eq (j : Json) (path : String) :
    jsonExtract syn j path = (parsePath syn path).bind fun steps => extractSteps steps j := rfl

theorem extractSteps_member_cons (name : String) (steps : List PathStep) (j : Json) :
    extractSteps (.member name :: steps) j = (j.get name).bind (extractSteps steps) := by
  cases hj : j.get name with
  | none => simp [extractSteps, selectPath, PathStep.select, hj]
  | some => simp [extractSteps, selectPath, PathStep.select, hj, PathStep.wild]

/-- **`$.name`** for a plain name. -/
theorem jsonExtract_member {name : List Char} (h : syn.Plain name) (j : Json) :
    jsonExtract syn j (String.ofList ('$' :: '.' :: name)) = j.get (String.ofList name) := by
  have hpath : parsePath syn (String.ofList ('$' :: '.' :: name)) = some [.member (String.ofList name)] := by
    simp [parsePath, pathSteps, pathSteps_key_plain h]
  rw [jsonExtract_eq, hpath, Option.bind_some, extractSteps_member_cons]
  cases j.get (String.ofList name) <;> rfl

/-- **`$.name.text`**: the text is read as a path in the member. -/
theorem jsonExtract_member_dot {name : List Char} (h : syn.Plain name) (text : List Char) (j : Json) :
    jsonExtract syn j (String.ofList ('$' :: '.' :: (name ++ '.' :: text))) =
      (pathSteps syn .key text).bind fun steps => (j.get (String.ofList name)).bind (extractSteps steps) := by
  have hpath : parsePath syn (String.ofList ('$' :: '.' :: (name ++ '.' :: text))) =
      (pathSteps syn .key text).map (.member (String.ofList name) :: ·) := by
    simp [parsePath, pathSteps, pathSteps_key_plain_dot h]
  simp only [jsonExtract_eq, hpath, Option.bind_map, Function.comp_def, extractSteps_member_cons]

end Robinhood.Store
