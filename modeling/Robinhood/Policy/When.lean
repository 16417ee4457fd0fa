/-
# Policy.When — what a condition's text spells

`parse_when` (`rbh-policy/src/classifier.rs`) reads the condition of a rule: comparisons with commas between
them.  A value is a number with a unit, or a time before now.  Numbers, products and differences are signed
numbers of 64 bits, and what does not fit wraps.

`whenLiterals` reads the same texts without a bound.  The parser accepts a text when every number in it
fits, whether or not the values do; and it computes the values of the terms before the first one it refuses.
-/
import Mathlib
import Robinhood.Policy.Trigger

namespace Robinhood.Policy

open Lib
open Predicate (TextLibrary Field CmpOp)

/-! ## §1 — signed numbers without a bound -/

def FitsI64 (x : ℤ) : Prop := -2 ^ 63 ≤ x ∧ x < 2 ^ 63

instance (x : ℤ) : Decidable (FitsI64 x) := inferInstanceAs (Decidable (_ ∧ _))

theorem fitsI64_toInt (v : Int64) : FitsI64 v.toInt := ⟨v.le_toInt, v.toInt_lt⟩

theorem bmod_eq_self_iff {x : ℤ} : x.bmod (2 ^ 64) = x ↔ FitsI64 x := by
  rw [Int.bmod_eq_iff (by decide), FitsI64]
  norm_num

theorem ofInt_eq_iff {x : ℤ} (hx : FitsI64 x) {v : Int64} : Int64.ofInt x = v ↔ x = v.toInt := by
  rw [← Int64.toInt_inj, Int64.toInt_ofInt_of_le hx.1 hx.2]

/-- The number a decimal text stands for; a sign may come first. -/
def decimalValue (cs : List Char) : Option ℤ :=
  match cs with
  | '-' :: ds => if ds = [] then none else (parseDigits ds).map fun n : ℕ => -(n : ℤ)
  | '+' :: ds => if ds = [] then none else (parseDigits ds).map fun n : ℕ => (n : ℤ)
  | ds => if ds = [] then none else (parseDigits ds).map fun n : ℕ => (n : ℤ)

/-- **A number is read exactly when it fits.** -/
theorem parseInt_eq_some {cs : List Char} {v : Int64} :
    parseInt cs = some v ↔ decimalValue cs = some v.toInt := by
  have hread : ∀ (ds : List Char) (bound : ℕ → Prop) [DecidablePred bound] (signed : ℕ → ℤ),
      (∀ n, bound n ↔ FitsI64 (signed n)) →
      (((parseDigits ds).bind fun n => if bound n then some (Int64.ofInt (signed n)) else none) = some v ↔
        (parseDigits ds).map signed = some v.toInt) := by
    intro ds bound _ signed hbound
    cases parseDigits ds with
    | none => simp
    | some n =>
      simp only [Option.bind_some, Option.map_some, Option.some.injEq]
      by_cases hn : bound n
      · rw [if_pos hn, Option.some.injEq, ofInt_eq_iff ((hbound n).1 hn)]
      · rw [if_neg hn]
        constructor
        · rintro ⟨⟩
        · intro h
          exact absurd ((hbound n).2 (h ▸ fitsI64_toInt v)) hn
  have hpos : ∀ n : ℕ, n < 2 ^ 63 ↔ FitsI64 n := by
    intro n
    unfold FitsI64
    omega
  have hneg : ∀ n : ℕ, n ≤ 2 ^ 63 ↔ FitsI64 (-n) := by
    intro n
    unfold FitsI64
    omega
  unfold parseInt decimalValue
  split
  · next ds =>
    by_cases hds : ds = []
    · simp [hds]
    · simp only [if_neg hds]
      exact hread ds _ _ hneg
  · next ds =>
    by_cases hds : ds = []
    · simp [hds]
    · simp only [if_neg hds]
      exact hread ds _ _ hpos
  · by_cases hds : cs = []
    · simp [hds]
    · simp only [if_neg hds]
      exact hread cs _ _ hpos

/-! ## §2 — the literals of a condition -/

/-- **A number, its unit, and whether it is a time before now.** -/
structure Literal where
  number : ℤ
  unit : ℤ
  relative : Bool
  deriving DecidableEq, Repr

def Literal.value (now : ℤ) (l : Literal) : ℤ :=
  if l.relative then now - l.number * l.unit else l.number * l.unit

/-- What the parser computes for it. -/
def Literal.word (now : Int64) (l : Literal) : Int64 :=
  if l.relative then now - Int64.ofInt l.number * Int64.ofInt l.unit
  else Int64.ofInt l.number * Int64.ofInt l.unit

/-- Neither the product nor the value is too large. -/
def Literal.Fits (now : Int64) (l : Literal) : Prop :=
  FitsI64 (l.number * l.unit) ∧ FitsI64 (l.value now.toInt)

def timeLiteral (lib : TextLibrary) (s : List Char) : Option Literal :=
  match trimSpace s with
  | '-' :: rel =>
    (unitOf [("d", 86400), ("h", 3600), ("m", 60)] (lib.toLowercase (String.ofList rel)).toList).bind
      fun (digits, unit) => (decimalValue digits).map fun n => ⟨n, unit, true⟩
  | s => (decimalValue s).map fun n => ⟨n, 1, false⟩

def numericLiteral (lib : TextLibrary) (s : List Char) : Option Literal :=
  let upper := (lib.toUppercase (String.ofList (trimSpace s))).toList
  let (digits, unit) := (unitOf [("TB", 2 ^ 40), ("GB", 2 ^ 30), ("MB", 2 ^ 20), ("KB", 2 ^ 10)] upper).getD
    (upper, 1)
  (decimalValue (trimSpace digits)).map fun n => ⟨n, unit, false⟩

/-- **A comparison**: a field, an operator and a literal. -/
structure WhenTerm where
  field : Field
  op : CmpOp
  literal : Literal
  deriving DecidableEq, Repr

/-- What the parser makes of it. -/
def WhenTerm.predicate (now : Int64) (t : WhenTerm) : Predicate := .cmp t.field t.op (.num (t.literal.word now))

def termLiteral (lib : TextLibrary) (term : List Char) : Option WhenTerm :=
  match splitTerm term with
  | .error _ => none
  | .ok (fieldStr, opStr, valStr) =>
    match fieldOf (String.ofList fieldStr), opOf opStr with
    | some (field, isTime), some op =>
      (if isTime then timeLiteral lib valStr else numericLiteral lib valStr).map fun l => ⟨field, op, l⟩
    | _, _ => none

/-- **The comparisons a condition spells.** -/
def whenLiterals (lib : TextLibrary) (expr : String) : Option (List WhenTerm) :=
  if trimSpace expr.toList = [] then none
  else (expr.toList.splitOn ',').mapM fun t => termLiteral lib (trimSpace t)

/-- The answers up to the first refusal. -/
def readWhile {α β : Type} (f : α → Option β) : List α → List β
  | [] => []
  | a :: as =>
    match f a with
    | none => []
    | some b => b :: readWhile f as

/-- **The comparisons whose values are computed**: the terms are read from left to right, and the first one that
is not a comparison, or whose number does not fit, ends the reading. -/
def computedTerms (lib : TextLibrary) (expr : String) : List WhenTerm :=
  if trimSpace expr.toList = [] then []
  else readWhile (fun t => (termLiteral lib (trimSpace t)).filter fun w => FitsI64 w.literal.number)
    (expr.toList.splitOn ',')

def conjunction (now : Int64) : List WhenTerm → Predicate
  | [t] => t.predicate now
  | ts => .and (ts.map (WhenTerm.predicate now))

/-! ## §3 — the parser computes the values modulo `2 ^ 64` -/

theorem toInt_ofInt_mul (n k : ℤ) : (Int64.ofInt n * Int64.ofInt k).toInt = (n * k).bmod (2 ^ 64) := by
  simp [Int64.toInt_mul, Int64.toInt_ofInt, Int64.size]

theorem Literal.toInt_word (now : Int64) (l : Literal) :
    (l.word now).toInt = (l.value now.toInt).bmod (2 ^ 64) := by
  unfold Literal.word Literal.value
  split
  · rw [Int64.toInt_sub, toInt_ofInt_mul]
    simp
  · exact toInt_ofInt_mul _ _

theorem mapM_eq_ok_iff {α β γ ε : Type} {f : α → Except ε β} {g : α → Option γ} {P : γ → Prop} {k : γ → β}
    (h : ∀ x y, f x = .ok y ↔ ∃ z, g x = some z ∧ P z ∧ y = k z) (xs : List α) (ys : List β) :
    xs.mapM f = .ok ys ↔ ∃ zs, xs.mapM g = some zs ∧ (∀ z ∈ zs, P z) ∧ ys = zs.map k := by
  induction xs generalizing ys with
  | nil =>
    simp only [List.mapM_nil, pure, Except.pure, Except.ok.injEq, Option.some.injEq]
    constructor
    · rintro rfl
      exact ⟨[], rfl, by simp, rfl⟩
    · rintro ⟨_, rfl, -, rfl⟩
      rfl
  | cons x xs ih =>
    simp only [List.mapM_cons]
    constructor
    · intro hok
      cases hx : f x with
      | error => rw [hx] at hok; cases hok
      | ok y =>
        cases hxs : xs.mapM f with
        | error => rw [hx, hxs] at hok; cases hok
        | ok ys' =>
          rw [hx, hxs] at hok
          cases hok
          obtain ⟨z, hz, hPz, rfl⟩ := (h x y).1 hx
          obtain ⟨zs, hzs, hP, rfl⟩ := (ih ys').1 hxs
          exact ⟨z :: zs, by rw [hz, hzs]; rfl, List.forall_mem_cons.2 ⟨hPz, hP⟩, rfl⟩
    · rintro ⟨zs, hzs, hP, rfl⟩
      cases hx : g x with
      | none => rw [hx] at hzs; cases hzs
      | some z =>
        cases hxs : xs.mapM g with
        | none => rw [hx, hxs] at hzs; cases hzs
        | some zs' =>
          rw [hx, hxs] at hzs
          cases hzs
          rw [(h x (k z)).2 ⟨z, hx, hP z (by simp), rfl⟩,
            (ih (zs'.map k)).2 ⟨zs', hxs, fun z hz => hP z (.tail _ hz), rfl⟩]
          rfl

section Words

variable {lib : TextLibrary} {now : Int64} {s orig term : List Char}

theorem number_eq_ok {ε : Type} {digits : List Char} {unit : ℤ} {relative : Bool} {fail : ε} {w : Int64} :
    ((match parseInt digits with
      | none => .error fail
      | some n => .ok (if relative then now - n * Int64.ofInt unit else n * Int64.ofInt unit) :
        Except ε Int64) = .ok w) ↔
      ∃ l, (decimalValue digits).map (fun n => (⟨n, unit, relative⟩ : Literal)) = some l ∧
        FitsI64 l.number ∧ w = l.word now := by
  cases hn : parseInt digits with
  | none =>
    constructor
    · rintro ⟨⟩
    · rintro ⟨l, hl, hfits, -⟩
      obtain ⟨n, hvalue, rfl⟩ := Option.map_eq_some_iff.1 hl
      have hread : parseInt digits = some (Int64.ofInt n) := by
        rw [parseInt_eq_some, Int64.toInt_ofInt_of_le hfits.1 hfits.2, hvalue]
      rw [hread] at hn
      cases hn
  | some n =>
    rw [parseInt_eq_some.1 hn]
    constructor
    · rintro ⟨⟩
      refine ⟨_, rfl, fitsI64_toInt n, ?_⟩
      simp only [Literal.word, Int64.ofInt_toInt]
    · rintro ⟨l, hl, -, rfl⟩
      cases hl
      simp only [Literal.word, Int64.ofInt_toInt]

/-- A time without a minus sign is an absolute one. -/
theorem timeLiteral_of_unsigned (h : ∀ rel, trimSpace s ≠ '-' :: rel) :
    timeLiteral lib s = (decimalValue (trimSpace s)).map fun n => ⟨n, 1, false⟩ := by
  unfold timeLiteral
  split
  · next rel hrel => exact (h rel hrel).elim
  · rfl

theorem parseTimeValue_eq_ok {w : Int64} :
    parseTimeValue lib now s orig = .ok w ↔
      ∃ l, timeLiteral lib s = some l ∧ FitsI64 l.number ∧ w = l.word now := by
  have hfactors : [("d", (86400 : Int64)), ("h", 3600), ("m", 60)] =
      [("d", 86400), ("h", 3600), ("m", 60)].map fun unit => (unit.1, Int64.ofInt unit.2) := by decide
  unfold parseTimeValue
  split
  · next rel hrel =>
    simp only [timeLiteral, hrel, hfactors, unitOf_map]
    cases unitOf [("d", (86400 : ℤ)), ("h", 3600), ("m", 60)] (lib.toLowercase (String.ofList rel)).toList with
    | none => simp
    | some read =>
      exact @number_eq_ok now _ read.1 read.2 true (WhenParseError.badValue (String.ofList orig)) w
  · next hsign =>
    -- an absolute time is one with the unit one
    have hread := @number_eq_ok now _ (trimSpace s) 1 false (WhenParseError.badValue (String.ofList orig)) w
    have hone : ∀ n : Int64, n * Int64.ofInt 1 = n := fun n => by simp
    simp only [Bool.false_eq_true, if_false, hone] at hread
    rw [timeLiteral_of_unsigned hsign]
    exact hread

theorem parseNumericValue_eq_ok {w : Int64} :
    parseNumericValue lib s orig = .ok w ↔
      ∃ l, numericLiteral lib s = some l ∧ FitsI64 l.number ∧ w = l.word now := by
  have hfactors : [("TB", (1 : Int64) <<< 40), ("GB", (1 : Int64) <<< 30), ("MB", (1 : Int64) <<< 20),
      ("KB", (1 : Int64) <<< 10)] =
      [("TB", 2 ^ 40), ("GB", 2 ^ 30), ("MB", 2 ^ 20), ("KB", 2 ^ 10)].map
        fun unit => (unit.1, Int64.ofInt unit.2) := by decide
  rw [parseNumericValue, numericLiteral, hfactors, unitOf_map]
  cases unitOf [("TB", 2 ^ 40), ("GB", 2 ^ 30), ("MB", 2 ^ 20), ("KB", (2 : ℤ) ^ 10)]
      (lib.toUppercase (String.ofList (trimSpace s))).toList with
  | none => exact @number_eq_ok now _ _ 1 false (WhenParseError.badValue (String.ofList orig)) w
  | some read =>
    exact @number_eq_ok now _ (trimSpace read.1) read.2 false (WhenParseError.badValue (String.ofList orig)) w

theorem parseTerm_eq_ok {p : Predicate} :
    parseTerm lib now term = .ok p ↔
      ∃ t, termLiteral lib term = some t ∧ FitsI64 t.literal.number ∧ p = t.predicate now := by
  have hcompare : ∀ (field : Field) (op : CmpOp) (read : Except WhenParseError Int64) (lit : Option Literal),
      (∀ w, read = .ok w ↔ ∃ l, lit = some l ∧ FitsI64 l.number ∧ w = l.word now) →
      ((read >>= fun n => pure (.cmp field op (.num n))) = .ok p ↔
        ∃ t, lit.map (fun l => (⟨field, op, l⟩ : WhenTerm)) = some t ∧ FitsI64 t.literal.number ∧
          p = t.predicate now) := by
    intro field op read lit hread
    constructor
    · intro h
      cases hw : read with
      | error => rw [hw] at h; cases h
      | ok w =>
        rw [hw] at h
        cases h
        obtain ⟨l, hl, hfits, rfl⟩ := (hread w).1 hw
        exact ⟨⟨field, op, l⟩, by rw [hl]; rfl, hfits, rfl⟩
    · rintro ⟨t, ht, hfits, rfl⟩
      obtain ⟨l, hl, rfl⟩ := Option.map_eq_some_iff.1 ht
      rw [(hread (l.word now)).2 ⟨l, hl, hfits, rfl⟩]
      rfl
  unfold parseTerm termLiteral
  cases splitTerm term with
  | error => simp [bind, Except.bind]
  | ok parts =>
    obtain ⟨fieldStr, opStr, valStr⟩ := parts
    simp only [bind, Except.bind]
    cases fieldOf (String.ofList fieldStr) with
    | none => simp
    | some fieldIsTime =>
      obtain ⟨field, isTime⟩ := fieldIsTime
      cases opOf opStr with
      | none => simp
      | some op =>
        cases isTime with
        | false => exact hcompare field op _ _ fun w => parseNumericValue_eq_ok
        | true => exact hcompare field op _ _ fun w => parseTimeValue_eq_ok

/-- **`parse_when` accepts a condition when every number in it fits**, and computes the words of its
literals. -/
theorem parseWhen_eq_ok {expr : String} {p : Predicate} :
    parseWhen lib now expr = .ok p ↔
      ∃ ts, whenLiterals lib expr = some ts ∧ (∀ t ∈ ts, FitsI64 t.literal.number) ∧
        p = conjunction now ts := by
  unfold parseWhen whenLiterals
  split
  · simp
  · have hterms := mapM_eq_ok_iff (fun (t : List Char) q => @parseTerm_eq_ok lib now (trimSpace t) q)
      (expr.toList.splitOn ',')
    constructor
    · intro h
      cases hps : (expr.toList.splitOn ',').mapM fun t => parseTerm lib now (trimSpace t) with
      | error => rw [hps] at h; cases h
      | ok ps =>
        obtain ⟨ts, hts, hfits, rfl⟩ := (hterms ps).1 hps
        refine ⟨ts, hts, hfits, ?_⟩
        rw [hps] at h
        rcases ts with _ | ⟨t, _ | ⟨u, ts⟩⟩ <;> exact (Except.ok.inj h).symm
    · rintro ⟨ts, hts, hfits, rfl⟩
      rw [(hterms _).2 ⟨ts, hts, hfits, rfl⟩]
      rcases ts with _ | ⟨t, _ | ⟨u, ts⟩⟩ <;> rfl

end Words

/-! ## §4 — exact conditions -/

theorem readWhile_of_mapM {α β : Type} {f : α → Option β} {P : β → Prop} [DecidablePred P] {as : List α}
    {bs : List β} (h : as.mapM f = some bs) (hP : ∀ b ∈ bs, P b) :
    readWhile (fun a => (f a).filter fun b => P b) as = bs := by
  induction as generalizing bs with
  | nil => exact Option.some.inj h
  | cons a as ih =>
    simp only [List.mapM_cons, bind, Option.bind_eq_some_iff] at h
    obtain ⟨b, hb, rest, hrest, hpure⟩ := h
    obtain rfl : b :: rest = bs := Option.some.inj hpure
    rw [List.forall_mem_cons] at hP
    simp only [readWhile, hb, Option.filter_some, hP.1, decide_true, if_true, ih hrest hP.2]

/-- Of a condition that is accepted all comparisons are computed. -/
theorem computedTerms_of_fits {lib : TextLibrary} {expr : String} {ts : List WhenTerm}
    (h : whenLiterals lib expr = some ts) (hfits : ∀ t ∈ ts, FitsI64 t.literal.number) :
    computedTerms lib expr = ts := by
  unfold whenLiterals at h
  split at h
  · cases h
  next hfull =>
  rw [computedTerms, if_neg hfull]
  exact readWhile_of_mapM h hfits

def comparedNumber : Predicate → Option Int64
  | .cmp _ _ (.num n) => some n
  | _ => none

def whenNumbers : Predicate → List Int64
  | .and ps => ps.filterMap comparedNumber
  | p => (comparedNumber p).toList

theorem whenNumbers_conjunction (now : Int64) (ts : List WhenTerm) :
    whenNumbers (conjunction now ts) = ts.map fun t => t.literal.word now := by
  have hall : ∀ ts : List WhenTerm, (ts.map (WhenTerm.predicate now)).filterMap comparedNumber =
      ts.map fun t => t.literal.word now := by
    intro ts
    rw [List.filterMap_map]
    exact congrFun List.filterMap_eq_map' ts
  match ts with
  | [] => rfl
  | [t] => rfl
  | t :: u :: ts => exact hall (t :: u :: ts)

/-- **The numbers in the condition are those its text spells**: of a condition that is accepted each number
is exactly the value, one with a value that is too large is refused, and neither a product nor a difference
wraps in a comparison that is computed, whether or not a later one is refused. -/
structure ExactWhen (lib : TextLibrary) (now : Int64) (expr : String) : Prop where
  values : ∀ p, parseWhen lib now expr = .ok p →
    some ((whenNumbers p).map Int64.toInt) =
      (whenLiterals lib expr).map fun ts => ts.map fun t => t.literal.value now.toInt
  refused : ∀ ts ∈ whenLiterals lib expr, (∃ t ∈ ts, ¬ FitsI64 (t.literal.value now.toInt)) →
    ∀ p, parseWhen lib now expr ≠ .ok p
  noWrap : ∀ t ∈ computedTerms lib expr,
    (Int64.ofInt t.literal.number * Int64.ofInt t.literal.unit).toInt = t.literal.number * t.literal.unit ∧
      (t.literal.word now).toInt = t.literal.value now.toInt

/-- The product with the unit and the time before now fit in every comparison before the first refusal. -/
def FitsWhen (lib : TextLibrary) (now : Int64) (expr : String) : Prop :=
  ∀ t ∈ computedTerms lib expr, t.literal.Fits now

section Exact

variable {lib : TextLibrary} {now : Int64} {expr : String}

theorem Literal.toInt_word_eq_iff {l : Literal} :
    (l.word now).toInt = l.value now.toInt ↔ FitsI64 (l.value now.toInt) := by
  rw [Literal.toInt_word, bmod_eq_self_iff]

theorem exactWhen_iff : ExactWhen lib now expr ↔ FitsWhen lib now expr := by
  constructor
  · intro hexact t ht
    obtain ⟨hproduct, hvalue⟩ := hexact.noWrap t ht
    refine ⟨?_, Literal.toInt_word_eq_iff.1 hvalue⟩
    rw [← bmod_eq_self_iff, ← toInt_ofInt_mul]
    exact hproduct
  · intro hfits
    have hread : ∀ p, parseWhen lib now expr = .ok p → ∃ ts, whenLiterals lib expr = some ts ∧
        (∀ t ∈ ts, t.literal.Fits now) ∧ p = conjunction now ts := by
      intro p hp
      obtain ⟨ts, hts, hnumbers, rfl⟩ := parseWhen_eq_ok.1 hp
      exact ⟨ts, hts, computedTerms_of_fits hts hnumbers ▸ hfits, rfl⟩
    refine ⟨fun p hp => ?_, fun ts hts hlarge p hp => ?_, fun t ht => ?_⟩
    · obtain ⟨ts, hts, hall, rfl⟩ := hread p hp
      rw [whenNumbers_conjunction, hts, Option.map_some, List.map_map]
      refine congrArg some (List.map_congr_left fun t ht => ?_)
      exact Literal.toInt_word_eq_iff.2 (hall t ht).2
    · obtain ⟨ts', hts', hall, -⟩ := hread p hp
      obtain rfl : ts' = ts := Option.some.inj (hts'.symm.trans hts)
      obtain ⟨t, ht, hnot⟩ := hlarge
      exact hnot (hall t ht).2
    · obtain ⟨hproduct, hvalue⟩ := hfits t ht
      exact ⟨by rw [toInt_ofInt_mul, bmod_eq_self_iff]; exact hproduct, Literal.toInt_word_eq_iff.2 hvalue⟩

/-- A first comparison that wraps does so whatever follows it. -/
example : computedTerms Sample.ascii "size > 9007199254740992KB, bogus" =
    [⟨.size, .gt, ⟨9007199254740992, 1024, false⟩⟩] := by decide +kernel

end Exact

/-- **Literals are exact exactly where a number that fits does so with its unit**: for triggers the product
of the two, and for conditions also the time that lies so long before now, in every term before the first
refusal. -/
theorem literals_exact_iff (lib : TextLibrary) :
    (∀ text, ExactTrigger lib text ↔ FitsTrigger lib text) ∧
      ∀ now expr, ExactWhen lib now expr ↔ FitsWhen lib now expr :=
  ⟨fun _ => exactTrigger_iff, fun _ _ => exactWhen_iff⟩

/-- **An interval of half a billion years is one of an hour**, and no file is too small for a condition on
sizes. -/
theorem literals_wrap :
    parseTrigger Sample.ascii "5124095576030432h" = .ok (.interval 3584) ∧
      triggerLiteral Sample.ascii "5124095576030432h" = some (5124095576030432, 3600) ∧
      ¬ ExactTrigger Sample.ascii "5124095576030432h" ∧
      (parseWhen Sample.ascii 0 "size > 9007199254740992KB").toOption.map whenNumbers =
        some [Int64.minValue] ∧
      whenLiterals Sample.ascii "size > 9007199254740992KB" =
        some [⟨.size, .gt, ⟨9007199254740992, 1024, false⟩⟩] := by
  have hparse : parseTrigger Sample.ascii "5124095576030432h" = .ok (.interval 3584) := by decide +kernel
  have hlit : triggerLiteral Sample.ascii "5124095576030432h" = some (5124095576030432, 3600) := by
    decide +kernel
  refine ⟨hparse, hlit, ?_, by decide +kernel, by decide +kernel⟩
  intro hexact
  have hvalue := hexact.value _ hparse
  rw [hlit] at hvalue
  revert hvalue
  decide

end Robinhood.Policy
