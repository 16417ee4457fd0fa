/-
# Lib.Sql.Grammar — search conditions and the statements around them

A recursive-descent reader for search conditions, one function for each level of precedence:

    disjunction := conjunction (OR conjunction)*
    conjunction := factor (AND factor)*
    factor      := NOT factor | ( disjunction ) | EXISTS ( subquery ) | predicate
    predicate   := scalar sign scalar | scalar LIKE scalar | scalar REGEXP scalar | scalar IN ( list )

OR binds least, then AND, then NOT, and every comparison binds tighter than the three; AND and OR
associate to the left.  A scalar is never in brackets of its own, so an opening bracket is one of a
condition.  The functions recurse on a fuel; `Reads` says that a list of tokens is read as a condition
whenever the fuel is at least five for each token, and has one rule for each way to compose texts.
-/
import Mathlib
import Robinhood.Lib.Sql.Lexer

namespace Robinhood.Lib.Sql

variable {ν α : Type}

/-! ## §1 — trees -/

/-- A scalar expression over parameters `ν`. -/
inductive Scalar (ν : Type)
  | column (table : Option String) (name : String)
  | number (n : ℕ)
  | text (s : String)
  | value (x : ν)
  | call (f : String) (arg : Scalar ν)
  | call₂ (f : String) (fst snd : Scalar ν)
  deriving DecidableEq, Repr

inductive Test
  | compare (op : Comparison)
  | like
  | regexp
  deriving DecidableEq, Repr

/-- **A search condition.** -/
inductive Cond (ν : Type)
  | test (t : Test) (l r : Scalar ν)
  | among (e : Scalar ν) (items : List (Scalar ν))
  | exists_ (table alias_ : String) (c : Cond ν)
  | not (c : Cond ν)
  | and (l r : Cond ν)
  | or (l r : Cond ν)
  deriving DecidableEq, Repr

def Cond.conj (c : Cond ν) (cs : List (Cond ν)) : Cond ν := cs.foldl .and c

def Cond.disj (c : Cond ν) (cs : List (Cond ν)) : Cond ν := cs.foldl .or c

/-- One `SELECT` over one table; the select list stays a list of tokens. -/
structure Select (ν : Type) where
  projection : List (Token ν)
  table : String
  alias_ : String
  condition : Cond ν
  /-- columns, each with whether it is descending -/
  orderBy : List (String × Bool)
  /-- limit and offset -/
  page : Option (Scalar ν × Scalar ν)
  deriving DecidableEq, Repr

/-! ## §2 — readers -/

abbrev Reader (ν α : Type) := List (Token ν) → Option (α × List (Token ν))

def scalar : ℕ → Reader ν (Scalar ν)
  | 0, _ => none
  | n + 1, ts =>
    match ts with
    | .number k :: ts => some (.number k, ts)
    | .text s :: ts => some (.text s, ts)
    | .value x :: ts => some (.value x, ts)
    | .name f :: .lparen :: ts => do
      let (a, ts) ← scalar n ts
      match ts with
      | .rparen :: ts => some (.call f a, ts)
      | .comma :: ts => do
        let (b, ts) ← scalar n ts
        match ts with
        | .rparen :: ts => some (.call₂ f a b, ts)
        | _ => none
      | _ => none
    | .name t :: .dot :: .name c :: ts => some (.column (some t) c, ts)
    | .name c :: ts => some (.column none c, ts)
    | _ => none

/-- The rest of a list in brackets, after the opening one. -/
def items : ℕ → Reader ν (List (Scalar ν))
  | 0, _ => none
  | n + 1, ts => do
    let (e, ts) ← scalar n ts
    match ts with
    | .rparen :: ts => some ([e], ts)
    | .comma :: ts => do
      let (es, ts) ← items n ts
      some (e :: es, ts)
    | _ => none

def predicate (n : ℕ) : Reader ν (Cond ν) := fun ts => do
  let (l, ts) ← scalar n ts
  match ts with
  | .comparison op :: ts => do
    let (r, ts) ← scalar n ts
    some (.test (.compare op) l r, ts)
  | .keyword .like :: ts => do
    let (r, ts) ← scalar n ts
    some (.test .like l r, ts)
  | .keyword .regexp :: ts => do
    let (r, ts) ← scalar n ts
    some (.test .regexp l r, ts)
  | .keyword .in_ :: .lparen :: ts => do
    let (es, ts) ← items n ts
    some (.among l es, ts)
  | _ => none

def closing (r : Option (α × List (Token ν))) : Option (α × List (Token ν)) :=
  match r with
  | some (a, .rparen :: ts) => some (a, ts)
  | _ => none

mutual

def factor : ℕ → Reader ν (Cond ν)
  | 0, _ => none
  | n + 1, ts =>
    match ts with
    | .keyword .not :: ts => do
      let (c, ts) ← factor n ts
      some (.not c, ts)
    | .lparen :: ts => closing (disjunction n ts)
    | .keyword .exists_ :: .lparen :: .keyword .select :: .number _ :: .keyword .from_ :: .name t ::
        .name a :: .keyword .where_ :: ts => do
      let (c, ts) ← closing (disjunction n ts)
      some (.exists_ t a c, ts)
    | ts => predicate n ts

def conjunction : ℕ → Reader ν (Cond ν)
  | 0, _ => none
  | n + 1, ts => do
    let (c, ts) ← factor n ts
    conjuncts n c ts

def conjuncts : ℕ → Cond ν → Reader ν (Cond ν)
  | 0, _, _ => none
  | n + 1, c, ts =>
    match ts with
    | .keyword .and :: ts => do
      let (d, ts) ← factor n ts
      conjuncts n (.and c d) ts
    | ts => some (c, ts)

def disjunction : ℕ → Reader ν (Cond ν)
  | 0, _ => none
  | n + 1, ts => do
    let (c, ts) ← conjunction n ts
    disjuncts n c ts

def disjuncts : ℕ → Cond ν → Reader ν (Cond ν)
  | 0, _, _ => none
  | n + 1, c, ts =>
    match ts with
    | .keyword .or :: ts => do
      let (d, ts) ← conjunction n ts
      disjuncts n (.or c d) ts
    | ts => some (c, ts)

end

/-- **A whole list of tokens as a search condition.** -/
def parseCondition (ts : List (Token ν)) : Option (Cond ν) :=
  match disjunction (5 * ts.length) ts with
  | some (c, []) => some c
  | _ => none

def orderKeys : Reader ν (List (String × Bool))
  | .name c :: .keyword .asc :: .comma :: ts => (orderKeys ts).map fun (ks, ts) => ((c, false) :: ks, ts)
  | .name c :: .keyword .desc :: .comma :: ts => (orderKeys ts).map fun (ks, ts) => ((c, true) :: ks, ts)
  | .name c :: .keyword .asc :: ts => some ([(c, false)], ts)
  | .name c :: .keyword .desc :: ts => some ([(c, true)], ts)
  | _ => none

def orderBy : Reader ν (List (String × Bool))
  | .keyword .order :: .keyword .by_ :: ts => orderKeys ts
  | ts => some ([], ts)

def page : Reader ν (Option (Scalar ν × Scalar ν))
  | .keyword .limit :: ts => do
    let (l, ts) ← scalar 1 ts
    match ts with
    | .keyword .offset :: ts => do
      let (o, ts) ← scalar 1 ts
      some (some (l, o), ts)
    | _ => none
  | ts => some (none, ts)

/-- The select list, up to its `FROM`. -/
def projection : List (Token ν) → List (Token ν) × List (Token ν)
  | [] => ([], [])
  | .keyword .from_ :: ts => ([], .keyword .from_ :: ts)
  | t :: ts => (t :: (projection ts).1, (projection ts).2)

/-- **A whole statement.** -/
def parseSelect : List (Token ν) → Option (Select ν)
  | .keyword .select :: ts =>
    match projection ts with
    | (proj, .keyword .from_ :: .name t :: .keyword .as_ :: .name a :: .keyword .where_ :: ts) => do
      let (c, ts) ← disjunction (5 * ts.length) ts
      let (keys, ts) ← orderBy ts
      let (page, ts) ← page ts
      match ts with
      | [] => some ⟨proj, t, a, c, keys, page⟩
      | _ => none
    | _ => none
  | _ => none

def condition (sql : String) (params : List ν) : Option (Cond ν) := do
  let ts ← lex sql.toList
  let ts ← bindParams ts params
  parseCondition ts

def statement (sql : String) (params : List ν) : Option (Select ν) := do
  let ts ← lex sql.toList
  let ts ← bindParams ts params
  parseSelect ts

/-! ## §3 — how composed texts are read -/

inductive Level
  | factor
  | conjunction
  | disjunction

def Level.reader : Level → ℕ → Reader ν (Cond ν)
  | factor => Sql.factor
  | conjunction => Sql.conjunction
  | disjunction => Sql.disjunction

/-- What may follow a condition of the level: nothing that would belong to it. -/
def Level.ends : Level → List (Token ν) → Bool
  | _, [] | _, .rparen :: _ | _, .keyword .order :: _ | _, .keyword .limit :: _ => true
  | factor, .keyword .and :: _ | factor, .keyword .or :: _ => true
  | conjunction, .keyword .or :: _ => true
  | _, _ => false

def Level.depth : Level → ℕ
  | factor => 2
  | conjunction => 1
  | disjunction => 0

/-- **The tokens are read as the condition**, whatever follows that does not belong to it. -/
def Reads (level : Level) (ts : List (Token ν)) (c : Cond ν) : Prop :=
  ∀ n rest, 5 * ts.length ≤ n + level.depth → level.ends rest = true →
    level.reader n (ts ++ rest) = some (c, rest)

def ReadsScalar (ts : List (Token ν)) (e : Scalar ν) : Prop :=
  ∀ n rest, ts.length ≤ n → (∀ t ∈ rest.head?, t ≠ .lparen ∧ t ≠ .dot) →
    scalar n (ts ++ rest) = some (e, rest)

section scalars

variable {ts us : List (Token ν)} {e e' : Scalar ν}

theorem readsScalar_number (k : ℕ) : ReadsScalar [(.number k : Token ν)] (.number k) := by
  rintro (_ | n) rest hn -
  · simp at hn
  · rfl

theorem readsScalar_text (s : String) : ReadsScalar [(.text s : Token ν)] (.text s) := by
  rintro (_ | n) rest hn -
  · simp at hn
  · rfl

theorem readsScalar_value (x : ν) : ReadsScalar [.value x] (.value x) := by
  rintro (_ | n) rest hn -
  · simp at hn
  · rfl

theorem readsScalar_name (c : String) : ReadsScalar [(.name c : Token ν)] (.column none c) := by
  rintro (_ | n) rest hn hrest
  · simp at hn
  · cases rest with
    | nil => rfl
    | cons t =>
      obtain ⟨hl, hd⟩ := hrest t rfl
      cases t <;> first | rfl | contradiction

theorem readsScalar_qualified (t c : String) :
    ReadsScalar [(.name t : Token ν), .dot, .name c] (.column (some t) c) := by
  rintro (_ | n) rest hn -
  · simp at hn
  · rfl

theorem ReadsScalar.call (h : ReadsScalar ts e) (f : String) :
    ReadsScalar (.name f :: .lparen :: (ts ++ [.rparen])) (.call f e) := by
  rintro (_ | n) rest hn -
  · simp at hn
  · have hread : scalar n (ts ++ (.rparen :: rest)) = some (e, .rparen :: rest) :=
      h n _ (by simp at hn; omega) (by simp)
    simp [scalar, hread]

theorem ReadsScalar.call₂ (h : ReadsScalar ts e) (h' : ReadsScalar us e') (f : String) :
    ReadsScalar (.name f :: .lparen :: (ts ++ .comma :: (us ++ [.rparen]))) (.call₂ f e e') := by
  rintro (_ | n) rest hn -
  · simp at hn
  · have hread : scalar n (ts ++ (.comma :: (us ++ .rparen :: rest))) =
        some (e, .comma :: (us ++ .rparen :: rest)) := h n _ (by simp at hn; omega) (by simp)
    have hread' : scalar n (us ++ (.rparen :: rest)) = some (e', .rparen :: rest) :=
      h' n _ (by simp at hn; omega) (by simp)
    simp [scalar, hread, hread']

end scalars

section conditions

variable {ts us : List (Token ν)} {e e' : Scalar ν} {c d : Cond ν} {rest : List (Token ν)} {n : ℕ}

theorem Level.head_of_ends {level : Level} (h : level.ends rest = true) :
    ∀ t ∈ rest.head?, t ≠ .lparen ∧ t ≠ .dot := by
  cases rest with
  | nil => simp
  | cons t => cases t <;> simp_all [Level.ends]

theorem factor_eq_predicate {r : Scalar ν × List (Token ν)} (h : scalar n ts = some r) :
    factor (n + 1) ts = predicate n ts := by
  cases n with
  | zero => simp [scalar] at h
  | succ =>
    cases ts with
    | nil => simp [scalar] at h
    | cons t =>
      cases t with
      | keyword => simp [scalar] at h
      | lparen => simp [scalar] at h
      | _ => rfl

def Test.token : Test → Token ν
  | compare op => .comparison op
  | like => .keyword .like
  | regexp => .keyword .regexp

theorem Reads.of_factor (hne : ts ≠ [])
    (h : ∀ n rest, 5 * ts.length ≤ n + 3 → Level.factor.ends rest = true →
      factor (n + 1) (ts ++ rest) = some (c, rest)) : Reads .factor ts c := by
  rintro (_ | n) rest hn hrest
  · have := List.length_pos_of_ne_nil hne
    simp only [Level.depth] at hn
    omega
  · exact h n rest (by simpa [Level.depth] using hn) hrest

theorem ReadsScalar.test (h : ReadsScalar ts e) (h' : ReadsScalar us e') (t : Test) :
    Reads .factor (ts ++ t.token :: us) (.test t e e') := by
  refine Reads.of_factor (by simp) fun n rest hn hrest => ?_
  have hlen : 5 * (ts.length + us.length) ≤ n := by
    simp at hn
    omega
  have hl : scalar n (ts ++ t.token :: (us ++ rest)) = some (e, t.token :: (us ++ rest)) :=
    h n _ (by omega) (by cases t <;> simp [Test.token])
  have hr : scalar n (us ++ rest) = some (e', rest) := h' n _ (by omega) (Level.head_of_ends hrest)
  rw [List.append_assoc, List.cons_append, factor_eq_predicate hl]
  cases t <;> simp_all [predicate, Test.token]

def listTail : List ν → List (Token ν)
  | [] => [.rparen]
  | x :: xs => .comma :: .value x :: listTail xs

theorem items_values (x : ν) (xs : List ν) (hn : xs.length + 1 < n) :
    items n (.value x :: (listTail xs ++ rest)) = some ((x :: xs).map .value, rest) := by
  induction xs generalizing n x with
  | nil =>
    obtain ⟨m, rfl⟩ : ∃ m, n = m + 2 := ⟨n - 2, by simp at hn; omega⟩
    rfl
  | cons y ys ih =>
    obtain ⟨m, rfl⟩ : ∃ m, n = m + 2 := ⟨n - 2, by simp at hn; omega⟩
    have hrec := ih y (show ys.length + 1 < m + 1 by simp at hn; omega)
    have hstep : ∀ us : List (Token ν), items (m + 2) (.value x :: .comma :: us) =
        (items (m + 1) us).bind fun r => some (.value x :: r.1, r.2) := fun _ => rfl
    simp only [listTail, List.cons_append]
    rw [hstep, hrec]
    rfl

theorem length_le_listTail (xs : List ν) : xs.length < (listTail xs).length := by
  induction xs with
  | nil => simp [listTail]
  | cons => simp only [listTail, List.length_cons]; omega

theorem ReadsScalar.among (h : ReadsScalar ts e) (x : ν) (xs : List ν) :
    Reads .factor (ts ++ .keyword .in_ :: .lparen :: .value x :: listTail xs)
      (.among e ((x :: xs).map .value)) := by
  refine Reads.of_factor (by simp) fun n rest hn hrest => ?_
  have hlen : ts.length + xs.length + 2 ≤ n := by
    have := length_le_listTail xs
    simp only [List.length_append, List.length_cons] at hn
    omega
  have hi : items n (.value x :: (listTail xs ++ rest)) = some ((x :: xs).map .value, rest) :=
    items_values x xs (by omega)
  have hl : scalar n (ts ++ .keyword .in_ :: .lparen :: .value x :: (listTail xs ++ rest)) =
      some (e, .keyword .in_ :: .lparen :: .value x :: (listTail xs ++ rest)) :=
    h n _ (by omega) (by simp)
  simp only [List.append_assoc, List.cons_append]
  rw [factor_eq_predicate hl]
  simp [predicate, hl, hi]

theorem Reads.not (h : Reads .factor ts c) : Reads .factor (.keyword .not :: ts) (.not c) := by
  refine Reads.of_factor (by simp) fun n rest hn hrest => ?_
  have hread : factor n (ts ++ rest) = some (c, rest) :=
    h n rest (by simp [Level.depth] at hn ⊢; omega) hrest
  simp [factor, hread]

theorem Reads.paren (h : Reads .disjunction ts c) :
    Reads .factor (.lparen :: (ts ++ [.rparen])) c := by
  refine Reads.of_factor (by simp) fun n rest hn hrest => ?_
  have hread : disjunction n (ts ++ .rparen :: rest) = some (c, .rparen :: rest) :=
    h n _ (by simp [Level.depth] at hn ⊢; omega) rfl
  simp [factor, hread, closing]

theorem Reads.exists_ (h : Reads .disjunction ts c) (k : ℕ) (t a : String) :
    Reads .factor (.keyword .exists_ :: .lparen :: .keyword .select :: .number k :: .keyword .from_ ::
      .name t :: .name a :: .keyword .where_ :: (ts ++ [.rparen])) (.exists_ t a c) := by
  refine Reads.of_factor (by simp) fun n rest hn hrest => ?_
  have hread : disjunction n (ts ++ .rparen :: rest) = some (c, .rparen :: rest) :=
    h n _ (by simp [Level.depth] at hn ⊢; omega) rfl
  simp [factor, hread, closing]

end conditions

/-! Chains: several conditions with AND, or OR, between them. -/

section chains

variable {rest : List (Token ν)} {n : ℕ} {c : Cond ν} {ts : List (Token ν)}
  {pieces : List (List (Token ν) × Cond ν)}

def chain (k : Keyword) (pieces : List (List (Token ν) × Cond ν)) : List (Token ν) :=
  pieces.flatMap fun p => .keyword k :: p.1

theorem conjuncts_stop (h : Level.conjunction.ends rest = true) :
    conjuncts (n + 1) c rest = some (c, rest) := by
  cases rest with
  | nil => rfl
  | cons t =>
    cases t with
    | keyword k => cases k <;> first | rfl | simp [Level.ends] at h
    | _ => rfl

theorem disjuncts_stop (h : Level.disjunction.ends rest = true) :
    disjuncts (n + 1) c rest = some (c, rest) := by
  cases rest with
  | nil => rfl
  | cons t =>
    cases t with
    | keyword k => cases k <;> first | rfl | simp [Level.ends] at h
    | _ => rfl

theorem ends_chain_and (h : Level.conjunction.ends rest = true) :
    Level.factor.ends (chain .and pieces ++ rest) = true := by
  cases pieces with
  | cons => rfl
  | nil =>
    cases rest with
    | nil => rfl
    | cons t =>
      cases t with
      | keyword k => cases k <;> first | rfl | simp [Level.ends] at h
      | _ => first | rfl | simp [Level.ends] at h

theorem ends_chain_or (h : Level.disjunction.ends rest = true) :
    Level.conjunction.ends (chain .or pieces ++ rest) = true := by
  cases pieces with
  | cons => rfl
  | nil =>
    cases rest with
    | nil => rfl
    | cons t =>
      cases t with
      | keyword k => cases k <;> first | rfl | simp [Level.ends] at h
      | _ => first | rfl | simp [Level.ends] at h

theorem conjuncts_chain (h : ∀ p ∈ pieces, Reads .factor p.1 p.2)
    (hn : 5 * (chain .and pieces).length < n) (hrest : Level.conjunction.ends rest = true) :
    conjuncts n c (chain .and pieces ++ rest) = some (c.conj (pieces.map Prod.snd), rest) := by
  induction pieces generalizing n c with
  | nil =>
    obtain ⟨m, rfl⟩ : ∃ m, n = m + 1 := ⟨n - 1, by omega⟩
    exact conjuncts_stop hrest
  | cons p pieces ih =>
    obtain ⟨m, rfl⟩ : ∃ m, n = m + 1 := ⟨n - 1, by omega⟩
    have hlen : 5 * (p.1.length + (chain .and pieces).length) + 5 ≤ m := by
      simp only [chain, List.flatMap_cons, List.length_append, List.length_cons] at hn ⊢
      omega
    have hp : factor m (p.1 ++ (chain .and pieces ++ rest)) = some (p.2, chain .and pieces ++ rest) :=
      h p (by simp) m _ (by simp only [Level.depth]; omega) (ends_chain_and hrest)
    have hrec := ih (n := m) (c := c.and p.2) (fun q hq => h q (by simp [hq])) (by omega)
    simp only [chain, List.flatMap_cons, List.cons_append, List.append_assoc] at hp hrec ⊢
    simp [conjuncts, hp, hrec, Cond.conj]

theorem disjuncts_chain (h : ∀ p ∈ pieces, Reads .conjunction p.1 p.2)
    (hn : 5 * (chain .or pieces).length < n) (hrest : Level.disjunction.ends rest = true) :
    disjuncts n c (chain .or pieces ++ rest) = some (c.disj (pieces.map Prod.snd), rest) := by
  induction pieces generalizing n c with
  | nil =>
    obtain ⟨m, rfl⟩ : ∃ m, n = m + 1 := ⟨n - 1, by omega⟩
    exact disjuncts_stop hrest
  | cons p pieces ih =>
    obtain ⟨m, rfl⟩ : ∃ m, n = m + 1 := ⟨n - 1, by omega⟩
    have hlen : 5 * (p.1.length + (chain .or pieces).length) + 5 ≤ m := by
      simp only [chain, List.flatMap_cons, List.length_append, List.length_cons] at hn ⊢
      omega
    have hp : conjunction m (p.1 ++ (chain .or pieces ++ rest)) =
        some (p.2, chain .or pieces ++ rest) :=
      h p (by simp) m _ (by simp only [Level.depth]; omega) (ends_chain_or hrest)
    have hrec := ih (n := m) (c := c.or p.2) (fun q hq => h q (by simp [hq])) (by omega)
    simp only [chain, List.flatMap_cons, List.cons_append, List.append_assoc] at hp hrec ⊢
    simp [disjuncts, hp, hrec, Cond.disj]

theorem Reads.length_pos (h : Reads .factor ts c) : 0 < ts.length := by
  by_contra hts
  have h0 := h 0 [] (by simp [Level.depth]; omega) rfl
  simp [Level.reader, factor] at h0

/-- **A chain of ANDs** is read as the conjunction of its members. -/
theorem Reads.and_chain (h : Reads .factor ts c) (pieces : List (List (Token ν) × Cond ν))
    (hs : ∀ p ∈ pieces, Reads .factor p.1 p.2) :
    Reads .conjunction (ts ++ chain .and pieces) (c.conj (pieces.map Prod.snd)) := by
  have hpos := h.length_pos
  rintro (_ | n) rest hn hrest
  · simp only [List.length_append, Level.depth] at hn
    omega
  · simp only [List.length_append, Level.depth] at hn
    have hc : factor n (ts ++ (chain .and pieces ++ rest)) = some (c, chain .and pieces ++ rest) :=
      h n _ (by simp only [Level.depth]; omega) (ends_chain_and hrest)
    have hcs := conjuncts_chain (c := c) hs (show 5 * (chain .and pieces).length < n by omega) hrest
    simp [Level.reader, conjunction, hc, hcs]

/-- **A chain of ORs** is read as the disjunction of its members. -/
theorem Reads.or_chain (h : Reads .conjunction ts c) (hts : 0 < ts.length)
    (pieces : List (List (Token ν) × Cond ν)) (hs : ∀ p ∈ pieces, Reads .conjunction p.1 p.2) :
    Reads .disjunction (ts ++ chain .or pieces) (c.disj (pieces.map Prod.snd)) := by
  rintro (_ | n) rest hn hrest
  · simp only [List.length_append, Level.depth] at hn
    omega
  · simp only [List.length_append, Level.depth] at hn
    have hc : conjunction n (ts ++ (chain .or pieces ++ rest)) = some (c, chain .or pieces ++ rest) :=
      h n _ (by simp only [Level.depth]; omega) (ends_chain_or hrest)
    have hcs := disjuncts_chain (c := c) hs (show 5 * (chain .or pieces).length < n by omega) hrest
    simp [Level.reader, disjunction, hc, hcs]

theorem Reads.conjunction (h : Reads .factor ts c) : Reads .conjunction ts c := by
  simpa [chain, Cond.conj] using h.and_chain [] (by simp)

theorem Reads.disjunction (h : Reads .conjunction ts c) (hts : 0 < ts.length) :
    Reads .disjunction ts c := by
  simpa [chain, Cond.disj] using h.or_chain hts [] (by simp)

theorem parseCondition_of_reads (h : Reads .disjunction ts c) : parseCondition ts = some c := by
  have := h (5 * ts.length) [] (by simp [Level.depth]) rfl
  simp only [List.append_nil, Level.reader] at this
  simp [parseCondition, this]

end chains

/-! ## §4 — statements -/

/-- The select list ends at the statement's `FROM`. -/
theorem projection_append {proj ts : List (Token ν)} (h : .keyword .from_ ∉ proj) :
    projection (proj ++ .keyword .from_ :: ts) = (proj, .keyword .from_ :: ts) := by
  induction proj with
  | nil => rfl
  | cons t proj ih =>
    have ht : t ≠ .keyword .from_ := fun e => h (by simp [e])
    have hrec := ih fun hmem => h (by simp [hmem])
    simp only [List.cons_append]
    rw [projection]
    · rw [hrec]
    · exact ht

/-- **A statement is read part by part**: its condition takes nothing of what follows. -/
theorem parseSelect_append {proj ts rest rest' : List (Token ν)} {t a : String} {c : Cond ν}
    {keys : List (String × Bool)} {pg : Option (Scalar ν × Scalar ν)}
    (hproj : .keyword .from_ ∉ proj) (h : Reads .disjunction ts c)
    (hends : Level.disjunction.ends rest = true) (hkeys : orderBy rest = some (keys, rest'))
    (hpage : page rest' = some (pg, [])) :
    parseSelect (.keyword .select :: (proj ++ .keyword .from_ :: .name t :: .keyword .as_ :: .name a ::
      .keyword .where_ :: (ts ++ rest))) = some ⟨proj, t, a, c, keys, pg⟩ := by
  have hread : disjunction (5 * (ts ++ rest).length) (ts ++ rest) = some (c, rest) :=
    h _ rest (by simp [Level.depth]) hends
  simp only [parseSelect, projection_append hproj]
  rw [hread]
  simp [hkeys, hpage]

/-! ## §5 — texts -/

/-- **The text, with its parameters, is one factor with this condition.** -/
def Compiles (sql : String) (params : List ν) (c : Cond ν) : Prop :=
  ∃ ts us, lex sql.toList = some ts ∧ bindParams ts params = some us ∧ Reads .factor us c

theorem Compiles.disjunction {sql : String} {params : List ν} {c : Cond ν} (h : Compiles sql params c) :
    ∃ ts us, lex sql.toList = some ts ∧ bindParams ts params = some us ∧ Reads .disjunction us c := by
  obtain ⟨ts, us, hlex, hbind, hreads⟩ := h
  exact ⟨ts, us, hlex, hbind, hreads.conjunction.disjunction hreads.length_pos⟩

theorem Compiles.condition {sql : String} {params : List ν} {c : Cond ν} (h : Compiles sql params c) :
    condition sql params = some c := by
  obtain ⟨ts, us, hlex, hbind, hreads⟩ := h.disjunction
  simp [Sql.condition, hlex, hbind, parseCondition_of_reads hreads]

theorem bindParams_cons {t : Token ν} {ts us : List (Token ν)} {xs : List ν} (ht : t ≠ .placeholder)
    (h : bindParams ts xs = some us) : bindParams (t :: ts) xs = some (t :: us) := by
  cases t with
  | placeholder => exact absurd rfl ht
  | _ => simp [bindParams, h]

theorem bindParams_paren {ts us : List (Token ν)} {xs : List ν} (h : bindParams ts xs = some us) :
    bindParams (.lparen :: (ts ++ [.rparen])) xs = some (.lparen :: (us ++ [.rparen])) := by
  have happ := bindParams_append h (show bindParams [(.rparen : Token ν)] [] = some [.rparen] from rfl)
  rw [List.append_nil] at happ
  exact bindParams_cons (by simp) happ

theorem Compiles.not {sql : String} {params : List ν} {c : Cond ν} (h : Compiles sql params c) :
    Compiles ("NOT (" ++ sql ++ ")") params (.not c) := by
  obtain ⟨ts, us, hlex, hbind, hreads⟩ := h.disjunction
  refine ⟨.keyword .not :: .lparen :: (ts ++ [.rparen]), .keyword .not :: .lparen :: (us ++ [.rparen]), ?_,
    bindParams_cons (by simp) (bindParams_paren hbind), hreads.paren.not⟩
  have htext : ("NOT (" ++ sql ++ ")").toList = "NOT ".toList ++ '(' :: (sql.toList ++ [')']) := by simp
  rw [htext]
  have hnot : feed (ν := ν) .between "NOT ".toList = some ([.keyword .not], .between) := rfl
  exact lex_append_of_feed hnot (lex_paren hlex)

/-! A chain of texts that each compile, with a keyword between them. -/

section join

variable {sep : String} {k : Keyword}

def Separates (sep : String) (k : Keyword) : Prop :=
  ∃ cs, sep.toList = ' ' :: cs ∧ feed (ν := ν) .between sep.toList = some ([.keyword k], .between)

theorem separates_and : Separates (ν := ν) " AND " .and := ⟨"AND ".toList, rfl, rfl⟩

theorem separates_or : Separates (ν := ν) " OR " .or := ⟨"OR ".toList, rfl, rfl⟩

abbrev Piece (ν : Type) := String × List ν × Cond ν

/-- **A joined text**: the tokens of its parts with the keyword between them, and so bound. -/
theorem exists_chain (hsep : Separates (ν := ν) sep k) {p : Piece ν} {pieces : List (Piece ν)}
    (hp : Compiles p.1 p.2.1 p.2.2) (h : ∀ q ∈ pieces, Compiles q.1 q.2.1 q.2.2) :
    ∃ ts us members, lex (sep.intercalate ((p :: pieces).map Prod.fst)).toList = some ts ∧
      bindParams ts ((p :: pieces).flatMap fun q => q.2.1) = some (us ++ chain k members) ∧
      Reads .factor us p.2.2 ∧ (members.map Prod.snd = pieces.map fun q => q.2.2) ∧
      ∀ q ∈ members, Reads .factor q.1 q.2 := by
  obtain ⟨ts, us, hlex, hbind, hreads⟩ := hp
  induction pieces generalizing p ts us with
  | nil => exact ⟨ts, us, [], by simpa [String.toList_intercalate] using hlex, by simpa [chain] using hbind,
      hreads, rfl, by simp⟩
  | cons q pieces ih =>
    obtain ⟨tsq, usq, hlexq, hbindq, hreadsq⟩ := h q (by simp)
    obtain ⟨ts', us', members, hlex', hbind', hreads', hmap, hmembers⟩ :=
      ih (fun r hr => h r (by simp [hr])) tsq usq hlexq hbindq hreadsq
    obtain ⟨cs, hcs, hfeed⟩ := hsep
    -- the separator starts with a blank, so the first part ends there
    have hrest := lex_append_of_feed hfeed hlex'
    rw [hcs, List.cons_append] at hrest
    have hjoin := lex_append hlex rfl hrest
    refine ⟨ts ++ .keyword k :: ts', us, (us', q.2.2) :: members, ?_, ?_, hreads, by simp [hmap], ?_⟩
    · simpa [String.toList_intercalate, List.intercalate_cons_cons, hcs] using hjoin
    · simpa [chain] using bindParams_append hbind (bindParams_cons (by simp) hbind')
    · rintro r (_ | ⟨_, hr⟩)
      · exact hreads'
      · exact hmembers r hr

theorem Compiles.paren {s : String} {params : List ν} {ts us : List (Token ν)} {c : Cond ν}
    (hlex : lex s.toList = some ts) (hbind : bindParams ts params = some us)
    (hreads : Reads .disjunction us c) : Compiles ("(" ++ s ++ ")") params c := by
  refine ⟨_, _, ?_, bindParams_paren hbind, hreads.paren⟩
  have htext : ("(" ++ s ++ ")").toList = '(' :: (s.toList ++ [')']) := by simp
  rw [htext]
  exact lex_paren hlex

/-- **Texts joined by AND**, in brackets, are the conjunction of their conditions. -/
theorem Compiles.join_and (p : Piece ν) (pieces : List (Piece ν))
    (hp : Compiles p.1 p.2.1 p.2.2) (h : ∀ q ∈ pieces, Compiles q.1 q.2.1 q.2.2) :
    Compiles ("(" ++ " AND ".intercalate ((p :: pieces).map Prod.fst) ++ ")")
      ((p :: pieces).flatMap fun q => q.2.1) (p.2.2.conj (pieces.map fun q => q.2.2)) := by
  obtain ⟨ts, us, members, hlex, hbind, hreads, hmap, hmembers⟩ := exists_chain separates_and hp h
  have hpos := hreads.length_pos
  have hall := (hreads.and_chain members hmembers).disjunction (by simp; omega)
  rw [hmap] at hall
  exact Compiles.paren hlex hbind hall

/-- **Texts joined by OR**, in brackets, are the disjunction of their conditions. -/
theorem Compiles.join_or (p : Piece ν) (pieces : List (Piece ν))
    (hp : Compiles p.1 p.2.1 p.2.2) (h : ∀ q ∈ pieces, Compiles q.1 q.2.1 q.2.2) :
    Compiles ("(" ++ " OR ".intercalate ((p :: pieces).map Prod.fst) ++ ")")
      ((p :: pieces).flatMap fun q => q.2.1) (p.2.2.disj (pieces.map fun q => q.2.2)) := by
  obtain ⟨ts, us, members, hlex, hbind, hreads, hmap, hmembers⟩ := exists_chain separates_or hp h
  have hall := hreads.conjunction.or_chain hreads.length_pos members fun q hq =>
    (hmembers q hq).conjunction
  rw [hmap] at hall
  exact Compiles.paren hlex hbind hall

end join

end Robinhood.Lib.Sql
