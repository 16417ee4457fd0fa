/-
# Policy.Conditions — what a condition means

The grammar of conditions, as the comment on `parse_when` has it, and what they mean: each comparison is of a
field of the entry with a number, and all of them must hold.  A `WrittenTerm` is a comparison with the white
space it is written with, and `render` is the text of a list of them.

The grammar allows every form of value after every field.  The parser does not: a size is no time, a time
before now is no number, and a minus sign in front of a time needs a unit behind it.  For all other lists of
comparisons the text is accepted and means what it spells.
-/
import Mathlib
import Robinhood.Policy.When
import Robinhood.Predicate.Pushdown

namespace Robinhood.Policy

open Lib Store
open Predicate (TextLibrary Field CmpOp compare cmpOrd clampU64 extractField matchesEntry matchesAll)

/-! ## §1 — the grammar -/

inductive WhenField
  | atime | mtime | ctime | size | uid | gid | depth | nlink
  deriving DecidableEq, Repr

namespace WhenField

def text : WhenField → String
  | atime => "atime"
  | mtime => "mtime"
  | ctime => "ctime"
  | size => "size"
  | uid => "uid"
  | gid => "gid"
  | depth => "depth"
  | nlink => "nlink"

def isTime : WhenField → Bool
  | atime | mtime | ctime => true
  | _ => false

def toField : WhenField → Field
  | atime => .atime
  | mtime => .mtime
  | ctime => .ctime
  | size => .size
  | uid => .uid
  | gid => .gid
  | depth => .depth
  | nlink => .nlink

def ofEntry (entry : ScopedEntryRow) : WhenField → ℤ
  | atime => entry.atime
  | mtime => entry.mtime
  | ctime => entry.ctime
  | size => entry.size.toNat
  | uid => entry.uid.toNat
  | gid => entry.gid.toNat
  | depth => entry.depth.toNat
  | nlink => entry.nlink.toNat

end WhenField

/-- The operators as they are written. -/
def opText : CmpOp → String
  | .gt => ">"
  | .ge => ">="
  | .lt => "<"
  | .le => "<="
  | .eq => "=="
  | .ne => "!="

/-- What an operator says of two numbers. -/
def Compares : CmpOp → ℤ → ℤ → Prop
  | .gt, a, b => a > b
  | .ge, a, b => a ≥ b
  | .lt, a, b => a < b
  | .le, a, b => a ≤ b
  | .eq, a, b => a = b
  | .ne, a, b => a ≠ b

/-- A number in decimal, with the text it is written as: a sign and zeros may come first. -/
structure Numeral where
  text : List Char
  value : ℤ
  spells : decimalValue text = some value

/-- A number in decimal without a sign. -/
structure Digits where
  text : List Char
  value : ℕ
  nonempty : text ≠ []
  spells : parseDigits text = some value

inductive SizeUnit
  | kb | mb | gb | tb
  deriving DecidableEq, Repr

def SizeUnit.text : SizeUnit → String
  | kb => "KB"
  | mb => "MB"
  | gb => "GB"
  | tb => "TB"

def SizeUnit.factor : SizeUnit → ℤ
  | kb => 2 ^ 10
  | mb => 2 ^ 20
  | gb => 2 ^ 30
  | tb => 2 ^ 40

inductive TimeUnit
  | d | h | m
  deriving DecidableEq, Repr

def TimeUnit.char : TimeUnit → Char
  | d => 'd'
  | h => 'h'
  | m => 'm'

def TimeUnit.factor : TimeUnit → ℤ
  | d => 86400
  | h => 3600
  | m => 60

/-- **A value**: a plain number, a size, or a time before now. -/
inductive WhenValue
  | plain (n : Numeral)
  | size (n : Numeral) (unit : SizeUnit)
  | ago (n : Digits) (unit : TimeUnit)

namespace WhenValue

def text : WhenValue → List Char
  | plain n => n.text
  | size n unit => n.text ++ unit.text.toList
  | ago n unit => '-' :: (n.text ++ [unit.char])

/-- The number, the unit and whether it is a time before now. -/
def literal : WhenValue → Literal
  | plain n => ⟨n.value, 1, false⟩
  | size n unit => ⟨n.value, unit.factor, false⟩
  | ago n unit => ⟨n.value, unit.factor, true⟩

/-- **The value is one of the field's**: for times plain numbers without a minus sign and times before now,
for the other fields plain numbers and sizes. -/
def Suits (isTime : Bool) : WhenValue → Prop
  | plain n => isTime = true → n.text.head? ≠ some '-'
  | size _ _ => isTime = false
  | ago _ _ => isTime = true

end WhenValue

/-- **A comparison as it is written**, with white space at four places. -/
structure WrittenTerm where
  field : WhenField
  op : CmpOp
  value : WhenValue
  before : List Char
  afterField : List Char
  afterOp : List Char
  after : List Char
  blank : ∀ c ∈ before ++ afterField ++ afterOp ++ after, isSpace c = true

namespace WrittenTerm

def core (t : WrittenTerm) : List Char :=
  (t.field.text.toList ++ t.afterField) ++ (opText t.op).toList ++ (t.afterOp ++ t.value.text)

def text (t : WrittenTerm) : List Char := t.before ++ (t.core ++ t.after)

/-- The number fits in 64 bits, and so do its product with its unit and, before now, the time. -/
def InRange (now : Int64) (t : WrittenTerm) : Prop :=
  FitsI64 t.value.literal.number ∧ t.value.literal.Fits now

def Suits (t : WrittenTerm) : Prop := t.value.Suits t.field.isTime

/-- **The comparison holds of the entry**, times being taken from `now`. -/
def Holds (now : Int64) (entry : ScopedEntryRow) (t : WrittenTerm) : Prop :=
  Compares t.op (t.field.ofEntry entry) (t.value.literal.value now.toInt)

/-- The comparison without the white space. -/
def whenTerm (t : WrittenTerm) : WhenTerm := ⟨t.field.toField, t.op, t.value.literal⟩

end WrittenTerm

def render (ts : List WrittenTerm) : String := String.ofList ([','].intercalate (ts.map WrittenTerm.text))

structure AsciiCase (lib : TextLibrary) : Prop where
  lower : ∀ s : String, (∀ c ∈ s.toList, c.toNat < 128) → lib.toLowercase s = s.toLower
  upper : ∀ s : String, (∀ c ∈ s.toList, c.toNat < 128) → lib.toUppercase s = s.toUpper

/-! ## §2 — characters -/

def opChars : List Char := ['>', '<', '=', '!']

/-- A character that is part of a field or of a value and of nothing else. -/
def clean (c : Char) : Bool := !isSpace c && c != ',' && !opChars.contains c

def ValueChar (c : Char) : Prop := c.isDigit = true ∨ c ∈ "+-KMGTBdhm".toList

section Characters

variable {c : Char} {cs : List Char}

theorem clean_iff : clean c = true ↔ isSpace c = false ∧ c ≠ ',' ∧ c ∉ opChars := by
  simp [clean, and_assoc]

theorem toNat_of_isDigit (h : c.isDigit = true) : 48 ≤ c.toNat ∧ c.toNat ≤ 57 := Char.isDigit_iff_toNat.1 h

theorem ValueChar.clean (h : ValueChar c) : clean c = true ∧ c.toNat < 128 := by
  obtain hdigit | hother := h
  · have hrange := toNat_of_isDigit hdigit
    refine ⟨clean_iff.2 ⟨isSpace_of_isDigit hdigit, ?_, ?_⟩, by omega⟩
    · rintro rfl
      revert hdigit
      decide
    · intro hop
      have hall : opChars.all fun c => !c.isDigit := by decide
      have := List.all_eq_true.1 hall c hop
      simp [hdigit] at this
  · have hall : "+-KMGTBdhm".toList.all fun c => Policy.clean c && c.toNat < 128 := by decide +kernel
    simpa using List.all_eq_true.1 hall c hother

theorem WhenField.clean (f : WhenField) : ∀ c ∈ f.text.toList, Policy.clean c = true := by
  apply List.all_eq_true.1
  cases f <;> decide +kernel

theorem isDigit_of_parseDigits {n : ℕ} (h : parseDigits cs = some n) : ∀ c ∈ cs, c.isDigit = true := by
  have hfold : ∀ (cs : List Char) (acc n : ℕ), cs.foldlM (fun n c => if c.isDigit then
      some (10 * n + (c.toNat - '0'.toNat)) else none) acc = some n → ∀ c ∈ cs, c.isDigit = true := by
    intro cs
    induction cs with
    | nil => intro _ _ _ c hc; cases hc
    | cons d ds ih =>
      intro acc n h
      rw [List.foldlM_cons] at h
      split at h
      · next hd => exact List.forall_mem_cons.2 ⟨hd, ih _ _ h⟩
      · cases h
  exact hfold cs 0 n h

theorem decimalValue_chars {v : ℤ} (h : decimalValue cs = some v) :
    cs ≠ [] ∧ ∀ c ∈ cs, c ∈ "+-".toList ∨ c.isDigit = true := by
  have hdigits : ∀ (ds : List Char) (f : ℕ → ℤ), (if ds = [] then none else (parseDigits ds).map f) = some v →
      ds ≠ [] ∧ ∀ c ∈ ds, c ∈ "+-".toList ∨ c.isDigit = true := by
    intro ds f h
    split at h
    · cases h
    · next hne =>
      obtain ⟨n, hn, -⟩ := Option.map_eq_some_iff.1 h
      exact ⟨hne, fun c hc => .inr (isDigit_of_parseDigits hn c hc)⟩
  unfold decimalValue at h
  split at h
  · exact ⟨by simp, List.forall_mem_cons.2 ⟨.inl (by decide), (hdigits _ _ h).2⟩⟩
  · exact ⟨by simp, List.forall_mem_cons.2 ⟨.inl (by decide), (hdigits _ _ h).2⟩⟩
  · exact hdigits _ _ h

theorem decimalValue_eq_none (hc : c ∈ cs) (hother : c ∉ "+-".toList ∧ c.isDigit = false) :
    decimalValue cs = none := by
  cases h : decimalValue cs with
  | none => rfl
  | some =>
    obtain hsign | hdigit := (decimalValue_chars h).2 c hc
    · exact absurd hsign hother.1
    · rw [hother.2] at hdigit
      cases hdigit

end Characters

/-! ## §3 — taking a term apart -/

section Split

variable {op cs pre post : List Char}

theorem splitAtFirst_of_not_infix (hop : op ≠ []) (h : ¬ op <:+: cs) : splitAtFirst op cs = none := by
  induction cs with
  | nil => simp [splitAtFirst, hop]
  | cons c cs ih =>
    have hstart : ¬ op <+: c :: cs := fun hp => h hp.isInfix
    have hrest : ¬ op <:+: cs := fun hsub => h (hsub.trans (List.suffix_cons c cs).isInfix)
    rw [splitAtFirst, if_neg hstart, ih hrest]
    rfl

theorem splitAtFirst_append (hop : op ≠ []) (hpre : ∀ c ∈ pre, op.head? ≠ some c) :
    splitAtFirst op (pre ++ op ++ post) = some (pre, post) := by
  induction pre with
  | nil =>
    cases op with
    | nil => exact absurd rfl hop
    | cons => simp [splitAtFirst]
  | cons c pre ih =>
    have hstart : ¬ op <+: c :: (pre ++ op ++ post) := by
      rintro ⟨rest, hrest⟩
      cases op with
      | nil => exact hop rfl
      | cons o =>
        obtain rfl : o = c := (List.cons.inj hrest).1
        exact hpre o List.mem_cons_self rfl
    rw [List.cons_append, List.cons_append, splitAtFirst, if_neg hstart,
      ih fun c hc => hpre c (.tail _ hc)]
    rfl

/-- **The operator that is found is the one that was written**: what stands around it has no character of
an operator. -/
theorem findSome?_splitAtFirst {β : Type} (op : CmpOp) (hpre : ∀ c ∈ pre, c ∉ opChars)
    (hpost : ∀ c ∈ post, c ∉ opChars) {f : CmpOp → List Char × List Char → Option β} {b : β}
    (hb : f op (pre, post) = some b) :
    [CmpOp.ge, .le, .eq, .ne, .gt, .lt].findSome? (fun o =>
      (splitAtFirst (opText o).toList (pre ++ (opText op).toList ++ post)).bind (f o)) = some b := by
  -- of the text only the operator is left when all other characters are taken out
  have hinner : ∀ other : CmpOp, (opText other).toList <:+: pre ++ (opText op).toList ++ post →
      (opText other).toList <:+: (opText op).toList := by
    intro other h
    have hkeep : ∀ o : CmpOp, (opText o).toList.filter (opChars.contains ·) = (opText o).toList := by
      intro o
      cases o <;> decide
    have hdrop : ∀ ds : List Char, (∀ c ∈ ds, c ∉ opChars) → ds.filter (opChars.contains ·) = [] := by
      intro ds hds
      exact List.filter_eq_nil_iff.2 fun c hc => by simpa using hds c hc
    have hfilter := h.filter (opChars.contains ·)
    simpa only [List.filter_append, hkeep, hdrop pre hpre, hdrop post hpost, List.nil_append,
      List.append_nil] using hfilter
  have hskip : ∀ other : CmpOp, ¬ (opText other).toList <:+: (opText op).toList →
      splitAtFirst (opText other).toList (pre ++ (opText op).toList ++ post) = none := by
    intro other hother
    exact splitAtFirst_of_not_infix (by cases other <;> decide) fun h => hother (hinner other h)
  have hhit : splitAtFirst (opText op).toList (pre ++ (opText op).toList ++ post) = some (pre, post) := by
    refine splitAtFirst_append (by cases op <;> decide) fun c hc hop => hpre c hc ?_
    have hall : (opText op).toList.all (opChars.contains ·) := by cases op <;> decide
    simpa using List.all_eq_true.1 hall c (List.mem_of_mem_head? hop)
  -- the operators that are tried before it are no part of it
  have hplace : ∃ earlier later, [CmpOp.ge, .le, .eq, .ne, .gt, .lt] = earlier ++ op :: later ∧
      ∀ other ∈ earlier, ¬ (opText other).toList <:+: (opText op).toList := by
    cases op with
    | ge => exact ⟨[], _, rfl, by decide⟩
    | le => exact ⟨[.ge], _, rfl, by decide⟩
    | eq => exact ⟨[.ge, .le], _, rfl, by decide⟩
    | ne => exact ⟨[.ge, .le, .eq], _, rfl, by decide⟩
    | gt => exact ⟨[.ge, .le, .eq, .ne], _, rfl, by decide⟩
    | lt => exact ⟨[.ge, .le, .eq, .ne, .gt], _, rfl, by decide⟩
  obtain ⟨earlier, later, horder, hearlier⟩ := hplace
  rw [horder]
  refine List.findSome?_eq_some_iff.2 ⟨earlier, op, later, rfl, ?_, ?_⟩
  · rw [hhit, Option.bind_some, hb]
  · intro other hother
    rw [hskip other (hearlier other hother), Option.bind_none]

theorem splitTerm_op (op : CmpOp) (hpre : ∀ c ∈ pre, c ∉ opChars) (hpost : ∀ c ∈ post, c ∉ opChars) :
    splitTerm (pre ++ (opText op).toList ++ post) = .ok (trimSpace pre, opText op, trimSpace post) := by
  have hfind := findSome?_splitAtFirst op hpre hpost rfl
    (f := fun o p => some (trimSpace p.1, opText o, trimSpace p.2))
  have hmap : ([">=", "<=", "==", "!=", ">", "<"] : List String) =
      [CmpOp.ge, .le, .eq, .ne, .gt, .lt].map opText := rfl
  simp only [splitTerm, hmap, List.findSome?_map, Function.comp_def, Option.map_eq_bind, hfind]

end Split

/-! ## §4 — values -/

section Values

variable {lib : TextLibrary} {c : Char} {cs : List Char}

theorem AsciiCase.toList_lower (hlib : AsciiCase lib) (h : ∀ c ∈ cs, c.toNat < 128) :
    (lib.toLowercase (String.ofList cs)).toList = cs.map Char.toLower := by
  rw [hlib.lower _ (by simpa using h), String.toLower, String.toList_map, String.toList_ofList]

theorem AsciiCase.toList_upper (hlib : AsciiCase lib) (h : ∀ c ∈ cs, c.toNat < 128) :
    (lib.toUppercase (String.ofList cs)).toList = cs.map Char.toUpper := by
  rw [hlib.upper _ (by simpa using h), String.toUpper, String.toList_map, String.toList_ofList]

theorem toLower_toUpper_of_number (h : c ∈ "+-".toList ∨ c.isDigit = true) : c.toLower = c ∧ c.toUpper = c := by
  have hsmall : c.toNat < 65 := by
    obtain hsign | hdigit := h
    · obtain rfl | rfl : c = '+' ∨ c = '-' := by simpa using hsign
      · decide
      · decide
    · have := toNat_of_isDigit hdigit
      omega
  constructor
  · rw [Char.toLower, dif_neg]
    rintro ⟨hge, -⟩
    have : 65 ≤ c.toNat := hge
    omega
  · rw [Char.toUpper, dif_neg]
    rintro ⟨hge, -⟩
    have : 97 ≤ c.toNat := hge
    omega

theorem map_toLower_of_number (h : ∀ c ∈ cs, c ∈ "+-".toList ∨ c.isDigit = true) : cs.map Char.toLower = cs := by
  conv_rhs => rw [← List.map_id cs]
  exact List.map_congr_left fun c hc => (toLower_toUpper_of_number (h c hc)).1

theorem map_toUpper_of_number (h : ∀ c ∈ cs, c ∈ "+-".toList ∨ c.isDigit = true) : cs.map Char.toUpper = cs := by
  conv_rhs => rw [← List.map_id cs]
  exact List.map_congr_left fun c hc => (toLower_toUpper_of_number (h c hc)).2

theorem trimSpace_of_clean (h : ∀ c ∈ cs, clean c = true) : trimSpace cs = cs :=
  trim_eq_self (fun c hc => (clean_iff.1 (h c (List.mem_of_mem_head? hc))).1)
    fun c hc => (clean_iff.1 (h c (List.mem_of_mem_getLast? hc))).1

theorem stripSuffix_append {suffix ds unit : List Char} (h : suffix.length = unit.length) :
    stripSuffix suffix (ds ++ unit) = if suffix = unit then some ds else none := by
  unfold stripSuffix
  by_cases heq : suffix = unit
  · subst heq
    simp
  · have hnot : ¬ suffix <:+ ds ++ unit := by
      intro hsuffix
      have hshort := List.suffix_of_suffix_length_le hsuffix (List.suffix_append ds unit) h.le
      exact heq (hshort.eq_of_length h)
    rw [if_neg hnot, if_neg heq]

theorem Numeral.number (n : Numeral) : ∀ c ∈ n.text, c ∈ "+-".toList ∨ c.isDigit = true :=
  (decimalValue_chars n.spells).2

theorem Digits.number (n : Digits) : ∀ c ∈ n.text, c ∈ "+-".toList ∨ c.isDigit = true :=
  fun c hc => .inr (isDigit_of_parseDigits n.spells c hc)

theorem Digits.decimalValue (n : Digits) : decimalValue n.text = some (n.value : ℤ) := by
  have hdigits := isDigit_of_parseDigits n.spells
  unfold Policy.decimalValue
  split
  · next ds heq => exact absurd (hdigits '-' (heq ▸ List.mem_cons_self)) (by decide)
  · next ds heq => exact absurd (hdigits '+' (heq ▸ List.mem_cons_self)) (by decide)
  · rw [if_neg n.nonempty, n.spells]
    rfl

theorem valueChar_of_number (h : c ∈ "+-".toList ∨ c.isDigit = true) : ValueChar c := by
  obtain hsign | hdigit := h
  · obtain rfl | rfl : c = '+' ∨ c = '-' := by simpa using hsign
    · exact .inr (by decide)
    · exact .inr (by decide)
  · exact .inl hdigit

theorem WhenValue.valueChar (v : WhenValue) : ∀ c ∈ v.text, ValueChar c := by
  intro c hc
  cases v with
  | plain n => exact valueChar_of_number (n.number c hc)
  | size n unit =>
    obtain hnumber | hunit := List.mem_append.1 hc
    · exact valueChar_of_number (n.number c hnumber)
    · have hall : unit.text.toList.all ("+-KMGTBdhm".toList.contains ·) := by cases unit <;> decide
      exact .inr (by simpa using List.all_eq_true.1 hall c hunit)
  | ago n unit =>
    obtain rfl | hrest := List.mem_cons.1 hc
    · exact .inr (by decide)
    obtain hnumber | hunit := List.mem_append.1 hrest
    · exact valueChar_of_number (n.number c hnumber)
    · obtain rfl := List.mem_singleton.1 hunit
      exact .inr (by cases unit <;> decide)

theorem WhenValue.text_ne_nil (v : WhenValue) : v.text ≠ [] := by
  cases v with
  | plain n => exact (decimalValue_chars n.spells).1
  | size n => exact List.append_ne_nil_of_left_ne_nil (decimalValue_chars n.spells).1 _
  | ago => exact List.cons_ne_nil _ _

abbrev sizeUnits : List (String × ℤ) := [("TB", 2 ^ 40), ("GB", 2 ^ 30), ("MB", 2 ^ 20), ("KB", 2 ^ 10)]

abbrev timeUnits : List (String × ℤ) := [("d", 86400), ("h", 3600), ("m", 60)]

theorem unitOf_sizeUnits_append (ds : List Char) (unit : SizeUnit) :
    unitOf sizeUnits (ds ++ unit.text.toList) = some (ds, unit.factor) := by
  cases unit <;> simp [unitOf, sizeUnits, stripSuffix_append, SizeUnit.text, SizeUnit.factor]

theorem unitOf_timeUnits_append (ds : List Char) (unit : TimeUnit) :
    unitOf timeUnits (ds ++ [unit.char]) = some (ds, unit.factor) := by
  cases unit <;> simp [unitOf, timeUnits, stripSuffix_append, TimeUnit.char, TimeUnit.factor]

theorem unitOf_sizeUnits_eq_none (h : 'B' ∉ cs) : unitOf sizeUnits cs = none := by
  refine unitOf_eq_none.2 fun unit hunit hsuffix => h (hsuffix.mem ?_)
  have hall : sizeUnits.all fun unit => unit.1.toList.contains 'B' := by decide
  simpa using List.all_eq_true.1 hall unit hunit

theorem unitOf_timeUnits_eq_none (h : ∀ c ∈ cs.getLast?, c ∉ ['d', 'h', 'm']) : unitOf timeUnits cs = none := by
  refine unitOf_eq_none.2 fun unit hunit hsuffix => ?_
  obtain ⟨ds, rfl⟩ := hsuffix
  simp only [timeUnits, List.mem_cons, List.not_mem_nil, or_false] at hunit
  obtain rfl | rfl | rfl := hunit <;> simp at h

theorem numericLiteral_text (hlib : AsciiCase lib) (v : WhenValue) (l : Literal) :
    numericLiteral lib v.text = some l ↔ v.Suits false ∧ l = v.literal := by
  have hclean : ∀ c ∈ v.text, clean c = true := fun c hc => (v.valueChar c hc).clean.1
  have hascii : ∀ c ∈ v.text, c.toNat < 128 := fun c hc => (v.valueChar c hc).clean.2
  have hnumber : ∀ n : Numeral, trimSpace n.text = n.text := fun n =>
    trimSpace_of_clean fun c hc => (valueChar_of_number (n.number c hc)).clean.1
  simp only [numericLiteral, trimSpace_of_clean hclean, hlib.toList_upper hascii]
  cases v with
  | plain n =>
    have hunit : unitOf sizeUnits n.text = none := by
      refine unitOf_sizeUnits_eq_none fun hB => ?_
      exact absurd (n.number 'B' hB) (by decide)
    simp only [WhenValue.text, map_toUpper_of_number n.number, hunit, Option.getD_none, hnumber, n.spells,
      Option.map_some, Option.some.injEq, WhenValue.literal, WhenValue.Suits]
    simp [eq_comm]
  | size n unit =>
    have hupper : (n.text ++ unit.text.toList).map Char.toUpper = n.text ++ unit.text.toList := by
      rw [List.map_append, map_toUpper_of_number n.number]
      cases unit <;> rfl
    simp only [WhenValue.text, hupper, unitOf_sizeUnits_append, Option.getD_some, hnumber, n.spells,
      Option.map_some, Option.some.injEq, WhenValue.literal, WhenValue.Suits]
    simp [eq_comm]
  | ago n unit =>
    have hupper : ('-' :: (n.text ++ [unit.char])).map Char.toUpper =
        '-' :: (n.text ++ [unit.char.toUpper]) := by
      rw [List.map_cons, List.map_append, map_toUpper_of_number n.number]
      rfl
    have hletter : unit.char.toUpper ∉ "+-".toList ∧ unit.char.toUpper.isDigit = false ∧
        unit.char.toUpper ≠ 'B' ∧ clean unit.char.toUpper = true := by
      cases unit <;> decide +kernel
    have hunit : unitOf sizeUnits ('-' :: (n.text ++ [unit.char.toUpper])) = none := by
      refine unitOf_sizeUnits_eq_none fun hB => ?_
      obtain hB | hB | hB : 'B' = '-' ∨ 'B' ∈ n.text ∨ 'B' = unit.char.toUpper := by simpa using hB
      · exact absurd hB (by decide)
      · exact absurd (n.number 'B' hB) (by decide)
      · exact hletter.2.2.1 hB.symm
    have hall : ∀ c ∈ '-' :: (n.text ++ [unit.char.toUpper]), clean c = true := by
      intro c hc
      obtain rfl | hc | rfl : c = '-' ∨ c ∈ n.text ∨ c = unit.char.toUpper := by simpa using hc
      · decide
      · exact (valueChar_of_number (n.number c hc)).clean.1
      · exact hletter.2.2.2
    have hnone : decimalValue ('-' :: (n.text ++ [unit.char.toUpper])) = none :=
      decimalValue_eq_none (by simp) ⟨hletter.1, hletter.2.1⟩
    simp only [WhenValue.text, hupper, hunit, Option.getD_none, trimSpace_of_clean hall, hnone,
      Option.map_none, WhenValue.Suits]
    simp

theorem timeLiteral_text (hlib : AsciiCase lib) (v : WhenValue) (l : Literal) :
    timeLiteral lib v.text = some l ↔ v.Suits true ∧ l = v.literal := by
  have hclean : ∀ c ∈ v.text, clean c = true := fun c hc => (v.valueChar c hc).clean.1
  have hascii : ∀ c ∈ v.text, c.toNat < 128 := fun c hc => (v.valueChar c hc).clean.2
  unfold timeLiteral
  rw [trimSpace_of_clean hclean]
  split
  · next rel heq =>
    have hrel : ∀ c ∈ rel, c ∈ v.text := fun c hc => heq ▸ .tail _ hc
    rw [hlib.toList_lower fun c hc => hascii c (hrel c hc)]
    cases v with
    | plain n =>
      -- the minus sign stands for a time before now, and the unit is missing
      have hnumber := fun c hc => n.number c (hrel c hc)
      have hunit : unitOf timeUnits (rel.map Char.toLower) = none := by
        refine unitOf_timeUnits_eq_none fun c hc hletter => ?_
        rw [map_toLower_of_number hnumber] at hc
        have hdigit := hnumber c (List.mem_of_mem_getLast? hc)
        obtain rfl | rfl | rfl : c = 'd' ∨ c = 'h' ∨ c = 'm' := by simpa using hletter
        all_goals exact absurd hdigit (by decide)
      have hminus : n.text = '-' :: rel := heq
      rw [hunit]
      simp [WhenValue.Suits, hminus]
    | size n unit =>
      have hlast : ∀ c ∈ rel.getLast?, c = 'B' := by
        intro c hc
        have hwhole : ('-' :: rel).getLast? = some 'B' := by
          rw [← heq, WhenValue.text, List.getLast?_append_of_ne_nil _ (by cases unit <;> decide)]
          cases unit <;> rfl
        cases rel with
        | nil => cases hc
        | cons =>
          rw [List.getLast?_cons_cons] at hwhole
          exact Option.some.inj (hc.symm.trans hwhole)
      have hunit : unitOf timeUnits (rel.map Char.toLower) = none := by
        refine unitOf_timeUnits_eq_none fun c hc => ?_
        rw [List.getLast?_map] at hc
        obtain ⟨d, hd, rfl⟩ := Option.map_eq_some_iff.1 hc
        rw [hlast d hd]
        decide
      rw [hunit]
      simp [WhenValue.Suits]
    | ago n unit =>
      obtain rfl : n.text ++ [unit.char] = rel := (List.cons.inj heq).2
      have hlower : (n.text ++ [unit.char]).map Char.toLower = n.text ++ [unit.char] := by
        rw [List.map_append, map_toLower_of_number n.number]
        cases unit <;> rfl
      simp only [hlower, unitOf_timeUnits_append, Option.bind_some, n.decimalValue, Option.map_some,
        Option.some.injEq]
      simp [WhenValue.Suits, WhenValue.literal, eq_comm]
  · next hsign =>
    cases v with
    | plain n =>
      have hplus : n.text.head? ≠ some '-' := by
        intro hhead
        obtain ⟨rel, hrel⟩ := List.head?_eq_some_iff.1 hhead
        exact hsign rel hrel
      rw [WhenValue.text, n.spells, Option.map_some, Option.some.injEq]
      simp [WhenValue.Suits, WhenValue.literal, hplus, eq_comm]
    | size n unit =>
      have hB : 'B' ∈ n.text ++ unit.text.toList :=
        List.mem_append_right _ (by cases unit <;> decide)
      rw [WhenValue.text, decimalValue_eq_none hB (by decide), Option.map_none]
      simp [WhenValue.Suits]
    | ago => exact absurd rfl (hsign _)

end Values

/-! ## §5 — terms and lists of them -/

theorem fieldOf_text (f : WhenField) : fieldOf f.text = some (f.toField, f.isTime) := by
  cases f <;> rfl

theorem opOf_opText (op : CmpOp) : opOf (opText op) = some op := by
  cases op <;> rfl

namespace WrittenTerm

variable {lib : TextLibrary} (t : WrittenTerm)

theorem field_ne_nil : t.field.text.toList ≠ [] := by
  cases t.field <;> decide

theorem value_clean : ∀ c ∈ t.value.text, clean c = true := fun c hc => (t.value.valueChar c hc).clean.1

theorem trimSpace_text : trimSpace t.text = t.core := by
  have hbefore : ∀ c ∈ t.before, isSpace c = true := fun c hc => t.blank c (by simp [hc])
  have hafter : ∀ c ∈ t.after, isSpace c = true := fun c hc => t.blank c (by simp [hc])
  have hhead : ∀ c ∈ t.core.head?, isSpace c = false := by
    intro c hc
    rw [core, List.append_assoc, List.append_assoc, List.head?_append_of_ne_nil _ t.field_ne_nil] at hc
    exact (clean_iff.1 (t.field.clean c (List.mem_of_mem_head? hc))).1
  have hlast : ∀ c ∈ t.core.getLast?, isSpace c = false := by
    intro c hc
    rw [core, ← List.append_assoc, List.getLast?_append_of_ne_nil _ t.value.text_ne_nil] at hc
    exact (clean_iff.1 (t.value_clean c (List.mem_of_mem_getLast? hc))).1
  calc trim isSpace t.text = trim isSpace (t.core ++ t.after) := trim_append_left hbefore
    _ = trim isSpace t.core := trim_append_right hafter
    _ = t.core := trim_eq_self hhead hlast

theorem comma_not_mem : ',' ∉ t.text := by
  have hspace : ∀ cs : List Char, (∀ c ∈ cs, isSpace c = true) → ',' ∉ cs := by
    intro cs hcs hmem
    exact absurd (hcs ',' hmem) (by decide)
  have hclean : ∀ cs : List Char, (∀ c ∈ cs, clean c = true) → ',' ∉ cs := by
    intro cs hcs hmem
    exact absurd (hcs ',' hmem) (by decide)
  have hop : ',' ∉ (opText t.op).toList := by
    cases t.op <;> decide
  simp only [text, core, List.mem_append, not_or]
  exact ⟨hspace _ fun c hc => t.blank c (by simp [hc]),
    ⟨⟨⟨hclean _ t.field.clean, hspace _ fun c hc => t.blank c (by simp [hc])⟩, hop⟩,
      hspace _ fun c hc => t.blank c (by simp [hc]), hclean _ t.value_clean⟩,
    hspace _ fun c hc => t.blank c (by simp [hc])⟩

/-- **The term that is read is the one that was written**, when the value suits the field. -/
theorem termLiteral_core (hlib : AsciiCase lib) (w : WhenTerm) :
    termLiteral lib t.core = some w ↔ t.Suits ∧ w = t.whenTerm := by
  have hspace : ∀ c, isSpace c = true → c ∉ opChars := by
    intro c hc hop
    have hall : opChars.all fun c => !isSpace c := by decide
    have := List.all_eq_true.1 hall c hop
    simp [hc] at this
  have hpre : ∀ c ∈ t.field.text.toList ++ t.afterField, c ∉ opChars := by
    intro c hc
    obtain hfield | hblank := List.mem_append.1 hc
    · exact (clean_iff.1 (t.field.clean c hfield)).2.2
    · exact hspace c (t.blank c (by simp [hblank]))
  have hpost : ∀ c ∈ t.afterOp ++ t.value.text, c ∉ opChars := by
    intro c hc
    obtain hblank | hvalue := List.mem_append.1 hc
    · exact hspace c (t.blank c (by simp [hblank]))
    · exact (clean_iff.1 (t.value_clean c hvalue)).2.2
  have hfield : trimSpace (t.field.text.toList ++ t.afterField) = t.field.text.toList :=
    (trim_append_right fun c hc => t.blank c (by simp [hc])).trans (trimSpace_of_clean t.field.clean)
  have hvalue : trimSpace (t.afterOp ++ t.value.text) = t.value.text :=
    (trim_append_left fun c hc => t.blank c (by simp [hc])).trans (trimSpace_of_clean t.value_clean)
  have hlit : ∀ l, (if t.field.isTime then timeLiteral lib t.value.text
      else numericLiteral lib t.value.text) = some l ↔ t.Suits ∧ l = t.value.literal := by
    intro l
    unfold Suits
    cases t.field.isTime with
    | false => exact numericLiteral_text hlib t.value l
    | true => exact timeLiteral_text hlib t.value l
  simp only [termLiteral, core, splitTerm_op t.op hpre hpost, hfield, hvalue, String.ofList_toList,
    fieldOf_text, opOf_opText, Option.map_eq_some_iff, hlit, whenTerm]
  constructor
  · rintro ⟨l, ⟨hsuits, rfl⟩, rfl⟩
    exact ⟨hsuits, rfl⟩
  · rintro ⟨hsuits, rfl⟩
    exact ⟨_, ⟨hsuits, rfl⟩, rfl⟩

end WrittenTerm

theorem mapM_eq_some_iff {α β : Type} {g : α → Option β} {P : α → Prop} {k : α → β}
    (h : ∀ x z, g x = some z ↔ P x ∧ z = k x) (xs : List α) (zs : List β) :
    xs.mapM g = some zs ↔ (∀ x ∈ xs, P x) ∧ zs = xs.map k := by
  induction xs generalizing zs with
  | nil => simp [eq_comm]
  | cons x xs ih =>
    simp only [List.mapM_cons, Option.bind_eq_bind, Option.bind_eq_some_iff, h, ih, Option.pure_def,
      Option.some.injEq, List.forall_mem_cons, List.map_cons]
    constructor
    · rintro ⟨z, ⟨hx, rfl⟩, zs', ⟨hxs, rfl⟩, rfl⟩
      exact ⟨⟨hx, hxs⟩, rfl⟩
    · rintro ⟨⟨hx, hxs⟩, rfl⟩
      exact ⟨_, ⟨hx, rfl⟩, _, ⟨hxs, rfl⟩, rfl⟩

/-- **The comparisons that are read are those that were written.** -/
theorem whenLiterals_render {lib : TextLibrary} (hlib : AsciiCase lib) {ts : List WrittenTerm} (hne : ts ≠ [])
    (ws : List WhenTerm) :
    whenLiterals lib (render ts) = some ws ↔ (∀ t ∈ ts, t.Suits) ∧ ws = ts.map WrittenTerm.whenTerm := by
  have hsplit : (render ts).toList.splitOn ',' = ts.map WrittenTerm.text := by
    rw [render, String.toList_ofList]
    refine List.splitOn_intercalate ',' ?_ (by simpa using hne)
    intro cs hcs
    obtain ⟨t, -, rfl⟩ := List.mem_map.1 hcs
    exact t.comma_not_mem
  have hfull : trimSpace (render ts).toList ≠ [] := by
    obtain ⟨t, rest, rfl⟩ := List.exists_cons_of_ne_nil hne
    -- the first field begins with a letter
    obtain ⟨c, cs, hfield⟩ := List.exists_cons_of_ne_nil t.field_ne_nil
    have hc : c ∈ t.field.text.toList := hfield ▸ List.mem_cons_self
    refine trim_ne_nil ⟨c, ?_, (clean_iff.1 (t.field.clean c hc)).1⟩
    have htext : c ∈ t.text := by simp [WrittenTerm.text, WrittenTerm.core, hc]
    rw [render, String.toList_ofList]
    cases rest with
    | nil => simpa using htext
    | cons =>
      rw [List.map_cons, List.map_cons, List.intercalate_cons_cons]
      simp [htext]
  rw [whenLiterals, if_neg hfull, hsplit, List.mapM_map]
  refine mapM_eq_some_iff (fun t w => ?_) ts ws
  show termLiteral lib (trimSpace t.text) = some w ↔ _
  rw [t.trimSpace_text]
  exact t.termLiteral_core hlib w

/-! ## §6 — the meaning of a condition -/

/-- The numbers of an entry fit: its times are signed numbers of 64 bits, and its size is not too large to be
one. -/
def FieldsFit (entry : ScopedEntryRow) : Prop :=
  entry.size.toNat < 2 ^ 63 ∧ FitsI64 entry.atime ∧ FitsI64 entry.mtime ∧ FitsI64 entry.ctime

theorem extractField_toField {entry : ScopedEntryRow} (hfit : FieldsFit entry) (f : WhenField) :
    ∃ v : Int64, extractField f.toField entry = .num v ∧ v.toInt = f.ofEntry entry := by
  obtain ⟨hsize, hatime, hmtime, hctime⟩ := hfit
  have hsmall : ∀ n : UInt32, (Int64.ofNat n.toNat).toInt = n.toNat := by
    intro n
    have hlt := n.toNat_lt
    exact Int64.toInt_ofNat_of_lt (by omega)
  cases f with
  | atime => exact ⟨_, rfl, Int64.toInt_ofInt_of_le hatime.1 hatime.2⟩
  | mtime => exact ⟨_, rfl, Int64.toInt_ofInt_of_le hmtime.1 hmtime.2⟩
  | ctime => exact ⟨_, rfl, Int64.toInt_ofInt_of_le hctime.1 hctime.2⟩
  | size =>
    refine ⟨_, rfl, ?_⟩
    rw [clampU64, if_pos hsize]
    exact Int64.toInt_ofNat_of_lt hsize
  | uid | gid | depth | nlink => exact ⟨_, rfl, hsmall _⟩

theorem cmpOrd_iff (op : CmpOp) (a b : Int64) : cmpOrd a op b = true ↔ Compares op a.toInt b.toInt := by
  cases op <;>
    simp [cmpOrd, Compares, Int64.lt_iff_toInt_lt, Int64.le_iff_toInt_le, ← Int64.toInt_inj]

theorem matchesEntry_whenTerm (lib : TextLibrary) {now : Int64} {entry : ScopedEntryRow}
    (hfit : FieldsFit entry) {t : WrittenTerm} (ht : t.InRange now) :
    matchesEntry lib entry (t.whenTerm.predicate now) = true ↔ t.Holds now entry := by
  obtain ⟨v, hv, hvalue⟩ := extractField_toField hfit t.field
  have hword := Literal.toInt_word_eq_iff.2 ht.2.2
  rw [WhenTerm.predicate, matchesEntry, WrittenTerm.whenTerm, hv]
  show cmpOrd v t.op (t.value.literal.word now) = true ↔ _
  rw [cmpOrd_iff, hvalue, hword]
  rfl

theorem matchesEntry_conjunction (lib : TextLibrary) (now : Int64) (entry : ScopedEntryRow)
    (ws : List WhenTerm) :
    matchesEntry lib entry (conjunction now ws) = true ↔
      ∀ w ∈ ws, matchesEntry lib entry (w.predicate now) = true := by
  match ws with
  | [] => simp [conjunction, matchesEntry, matchesAll]
  | [w] => simp [conjunction]
  | w :: w' :: ws => simp [conjunction, matchesEntry, Predicate.matchesAll_eq_all]

/-- **A rule reads the fields of an entry and nothing else**: not its tags, nor its key. -/
theorem ruleMatches_congr (lib : TextLibrary) (now : Int64) {entry entry' : ScopedEntryRow}
    (h : ∀ field, extractField field entry = extractField field entry') (rule : ClassifierRule) :
    ruleMatches lib now entry rule = ruleMatches lib now entry' rule := by
  unfold ruleMatches
  split
  · rfl
  · split
    · next p hp =>
      obtain ⟨ws, -, -, rfl⟩ := parseWhen_eq_ok.1 hp
      rw [Bool.eq_iff_iff, matchesEntry_conjunction, matchesEntry_conjunction]
      refine forall₂_congr fun w _ => ?_
      rw [WhenTerm.predicate, matchesEntry, matchesEntry, h]
    · rfl

theorem firstRule_congr (lib : TextLibrary) (now : Int64) {entry entry' : ScopedEntryRow}
    (h : ∀ field, extractField field entry = extractField field entry') (d : ClassifierDef) :
    firstRule lib now entry d = firstRule lib now entry' d := by
  unfold firstRule
  rw [funext (ruleMatches_congr lib now h)]

/-- **A condition means the conjunction it spells.**  A list of comparisons in range is accepted, with
whatever white space it is written, exactly when every value suits its field; and then it holds of an entry
exactly when every comparison does. -/
theorem condition_means_conjunction {lib : TextLibrary} (hlib : AsciiCase lib) (now : Int64)
    {ts : List WrittenTerm} (hne : ts ≠ []) (hrange : ∀ t ∈ ts, t.InRange now) :
    ((∃ p, parseWhen lib now (render ts) = .ok p) ↔ ∀ t ∈ ts, t.Suits) ∧
      ∀ p, parseWhen lib now (render ts) = .ok p → ∀ entry, FieldsFit entry →
        (matchesEntry lib entry p = true ↔ ∀ t ∈ ts, t.Holds now entry) := by
  have hread : ∀ p, parseWhen lib now (render ts) = .ok p ↔
      (∀ t ∈ ts, t.Suits) ∧ p = conjunction now (ts.map WrittenTerm.whenTerm) := by
    intro p
    simp only [parseWhen_eq_ok, whenLiterals_render hlib hne]
    constructor
    · rintro ⟨ws, ⟨hsuits, rfl⟩, -, rfl⟩
      exact ⟨hsuits, rfl⟩
    · rintro ⟨hsuits, rfl⟩
      refine ⟨_, ⟨hsuits, rfl⟩, ?_, rfl⟩
      intro w hw
      obtain ⟨t, ht, rfl⟩ := List.mem_map.1 hw
      exact (hrange t ht).1
  constructor
  · constructor
    · rintro ⟨p, hp⟩
      exact ((hread p).1 hp).1
    · intro hsuits
      exact ⟨_, (hread _).2 ⟨hsuits, rfl⟩⟩
  · intro p hp entry hfit
    obtain ⟨-, rfl⟩ := (hread p).1 hp
    rw [matchesEntry_conjunction, List.forall_mem_map]
    exact forall₂_congr fun t ht => matchesEntry_whenTerm lib hfit (hrange t ht)

namespace Sample

theorem ascii_asciiCase : AsciiCase ascii := ⟨fun _ _ => rfl, fun _ _ => rfl⟩

/-- ` size >= 10MB ,atime<-30d` -/
def oldAndLarge : List WrittenTerm :=
  [⟨.size, .ge, .size ⟨['1', '0'], 10, by decide⟩ .mb, [' '], [' '], [' '], [' '], by simp [isSpace]⟩,
    ⟨.atime, .lt, .ago ⟨['3', '0'], 30, by decide, by decide⟩ .d, [], [], [], [], by simp⟩]

/-- `size > -1d`, `mtime > -5` and `atime > 1KB`. -/
def unsuited : List WrittenTerm :=
  [⟨.size, .gt, .ago ⟨['1'], 1, by decide, by decide⟩ .d, [], [' '], [' '], [], by simp [isSpace]⟩,
    ⟨.mtime, .gt, .plain ⟨['-', '5'], -5, by decide⟩, [], [' '], [' '], [], by simp [isSpace]⟩,
    ⟨.atime, .gt, .size ⟨['1'], 1, by decide⟩ .kb, [], [' '], [' '], [], by simp [isSpace]⟩]

end Sample

/-- Files of ten megabytes that were not read for thirty days. -/
theorem oldAndLarge_means_conjunction :
    render Sample.oldAndLarge = " size >= 10MB ,atime<-30d" ∧ (∀ t ∈ Sample.oldAndLarge, t.Suits) ∧
      ((∃ p, parseWhen Sample.ascii 1700000000 (render Sample.oldAndLarge) = .ok p) ↔
        ∀ t ∈ Sample.oldAndLarge, t.Suits) ∧
      ∀ p, parseWhen Sample.ascii 1700000000 (render Sample.oldAndLarge) = .ok p →
        ∀ entry, FieldsFit entry → (matchesEntry Sample.ascii entry p = true ↔
          ∀ t ∈ Sample.oldAndLarge, t.Holds 1700000000 entry) := by
  have hrange : ∀ t ∈ Sample.oldAndLarge, t.InRange 1700000000 := by
    simp only [Sample.oldAndLarge, List.forall_mem_cons]
    refine ⟨⟨?_, ?_, ?_⟩, ⟨?_, ?_, ?_⟩, by simp⟩ <;> decide
  refine ⟨by decide +kernel, ?_,
    condition_means_conjunction Sample.ascii_asciiCase 1700000000 (by simp [Sample.oldAndLarge]) hrange⟩
  simp [Sample.oldAndLarge, WrittenTerm.Suits, WhenValue.Suits, WhenField.isTime]

/-- **The grammar allows more than the parser**: a time before now as a size, a negative time and a size as a
time are all refused. -/
theorem unsuited_refused :
    (∀ t ∈ Sample.unsuited, t.InRange 1700000000) ∧
      Sample.unsuited.map (fun t => render [t]) = ["size > -1d", "mtime > -5", "atime > 1KB"] ∧
      ∀ t ∈ Sample.unsuited, (parseWhen Sample.ascii 1700000000 (render [t])).toOption.isNone := by
  refine ⟨?_, by decide +kernel, ?_⟩
  · simp only [Sample.unsuited, List.forall_mem_cons]
    refine ⟨⟨?_, ?_, ?_⟩, ⟨?_, ?_, ?_⟩, ⟨?_, ?_, ?_⟩, by simp⟩ <;> decide
  · simp only [Sample.unsuited, List.forall_mem_cons]
    refine ⟨?_, ?_, ?_, by simp⟩ <;> decide +kernel

end Robinhood.Policy
