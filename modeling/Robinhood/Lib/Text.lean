/-
# Lib.Text — trimming, splitting, numbers

`trim p` takes from both ends of a list what `p` holds of.  The lemmas here say what is left: padding makes
no difference, a list with ends of its own is left as it is, and every list is its trimmed part with padding
around it.  Then come the bytes of an array, and what the standard libraries do with texts: white space, decimal
numbers, units and first occurrences.
-/
import Mathlib

namespace Robinhood.Lib

variable {α : Type*} (p : α → Bool)

/-- The list without the items at either end that `p` holds of. -/
def trim (cs : List α) : List α := ((cs.dropWhile p).reverse.dropWhile p).reverse

variable {p} {cs pre post : List α}

theorem dropWhile_append_of_forall (h : ∀ c ∈ pre, p c = true) : (pre ++ cs).dropWhile p = cs.dropWhile p := by
  rw [List.dropWhile_append, List.dropWhile_eq_nil_iff.2 h]
  rfl

theorem dropWhile_eq_self (h : ∀ c ∈ cs.head?, p c = false) : cs.dropWhile p = cs := by
  cases cs with
  | nil => rfl
  | cons c cs => simp [h c (by simp)]

/-- **A list whose ends stay is left as it is.** -/
theorem trim_eq_self (hhead : ∀ c ∈ cs.head?, p c = false) (hlast : ∀ c ∈ cs.getLast?, p c = false) :
    trim p cs = cs := by
  have hback : cs.reverse.dropWhile p = cs.reverse :=
    dropWhile_eq_self fun c hc => hlast c (by simpa using hc)
  rw [trim, dropWhile_eq_self hhead, hback, List.reverse_reverse]

theorem trim_append_left (h : ∀ c ∈ pre, p c = true) : trim p (pre ++ cs) = trim p cs := by
  rw [trim, dropWhile_append_of_forall h, trim]

theorem trim_eq_nil_iff : trim p cs = [] ↔ ∀ c ∈ cs, p c = true := by
  rw [trim, List.reverse_eq_nil_iff, List.dropWhile_eq_nil_iff]
  constructor
  · intro h
    by_contra hne
    -- the first item that stays is at the front after one pass, and the other pass stops at it
    rw [← List.dropWhile_eq_nil_iff (p := p)] at hne
    have hhead := List.head_dropWhile_not p hne
    rw [h _ (by simp)] at hhead
    cases hhead
  · intro h c hc
    exact h c ((List.dropWhile_sublist p).mem (List.mem_reverse.1 hc))

theorem trim_ne_nil (h : ∃ c ∈ cs, p c = false) : trim p cs ≠ [] := by
  obtain ⟨c, hc, hstay⟩ := h
  intro e
  have hgone := trim_eq_nil_iff.1 e c hc
  rw [hstay] at hgone
  cases hgone

/-- **Padding behind makes no difference.** -/
theorem trim_append_right (h : ∀ c ∈ post, p c = true) : trim p (cs ++ post) = trim p cs := by
  by_cases hall : ∀ c ∈ cs, p c = true
  · have hboth : ∀ c ∈ cs ++ post, p c = true := by
      intro c hc
      exact (List.mem_append.1 hc).elim (hall c) (h c)
    rw [trim_eq_nil_iff.2 hall, trim_eq_nil_iff.2 hboth]
  · have hne : cs.dropWhile p ≠ [] := fun e => hall (List.dropWhile_eq_nil_iff.1 e)
    have hfront : (cs ++ post).dropWhile p = cs.dropWhile p ++ post := by
      rw [List.dropWhile_append, if_neg (by simpa using hne)]
    rw [trim, hfront, List.reverse_append, dropWhile_append_of_forall fun c hc => h c (by simpa using hc),
      trim]

theorem head_trim : ∀ c ∈ (trim p cs).head?, p c = false := by
  intro c hc
  -- what one pass leaves ends where it did, so the other pass takes a part in front of that end
  obtain ⟨post, hpost⟩ : ∃ post, cs.dropWhile p = trim p cs ++ post := by
    obtain ⟨t, ht⟩ := List.dropWhile_suffix (l := (cs.dropWhile p).reverse) p
    refine ⟨t.reverse, ?_⟩
    have := congrArg List.reverse ht
    simpa [trim] using this.symm
  have hhead : c ∈ (cs.dropWhile p).head? := by
    rw [hpost]
    cases htrim : trim p cs with
    | nil =>
      rw [htrim] at hc
      cases hc
    | cons d ds =>
      rw [htrim] at hc
      simpa using hc
  have hne : cs.dropWhile p ≠ [] := by
    rintro e
    rw [e] at hhead
    cases hhead
  have hstay := List.head_dropWhile_not p hne
  rw [List.head?_eq_some_head hne] at hhead
  obtain rfl := Option.some.inj hhead
  exact hstay

theorem getLast_trim : ∀ c ∈ (trim p cs).getLast?, p c = false := by
  intro c hc
  have hhead : c ∈ ((cs.dropWhile p).reverse.dropWhile p).head? := by simpa [trim] using hc
  have hne : (cs.dropWhile p).reverse.dropWhile p ≠ [] := by
    intro e
    rw [e] at hhead
    cases hhead
  have hstay := List.head_dropWhile_not p hne
  rw [List.head?_eq_some_head hne] at hhead
  obtain rfl := Option.some.inj hhead
  exact hstay

theorem trim_trim : trim p (trim p cs) = trim p cs := trim_eq_self head_trim getLast_trim

/-- **Every list is its trimmed part, with padding around it.** -/
theorem exists_pad (p : α → Bool) (cs : List α) :
    ∃ pre post, cs = pre ++ trim p cs ++ post ∧ (∀ c ∈ pre, p c = true) ∧ ∀ c ∈ post, p c = true := by
  refine ⟨cs.takeWhile p, (((cs.dropWhile p).reverse.takeWhile p)).reverse, ?_, ?_, ?_⟩
  · have hback : trim p cs ++ ((cs.dropWhile p).reverse.takeWhile p).reverse = cs.dropWhile p := by
      rw [trim, ← List.reverse_append, List.takeWhile_append_dropWhile, List.reverse_reverse]
    rw [List.append_assoc, hback, List.takeWhile_append_dropWhile]
  · intro c hc
    exact List.mem_takeWhile_imp hc
  · intro c hc
    exact List.mem_takeWhile_imp (List.mem_reverse.1 hc)

theorem toList_byteArray (array : ByteArray) : array.toList = array.data.toList := by
  have hloop : ∀ (i : ℕ) (read : List UInt8),
      ByteArray.toList.loop array i read = read.reverse ++ array.data.toList.drop i := by
    intro i read
    fun_induction ByteArray.toList.loop array i read with
    | case1 i read hi ih =>
      have hlt : i < array.data.toList.length := hi
      rw [ih, List.drop_eq_getElem_cons hlt, List.reverse_cons, List.append_assoc]
      simp [ByteArray.get!, hi]
    | case2 i read hi =>
      have hle : array.data.toList.length ≤ i := Nat.le_of_not_lt hi
      rw [List.drop_eq_nil_of_le hle, List.append_nil]
  rw [ByteArray.toList, hloop]
  rfl

/-! ## Texts as the standard libraries read them -/

/-- Unicode white space. -/
def isSpace (c : Char) : Bool :=
  [0x09, 0x0A, 0x0B, 0x0C, 0x0D, 0x20, 0x85, 0xA0, 0x1680, 0x2028, 0x2029, 0x202F, 0x205F,
    0x3000].contains c.toNat || (0x2000 ≤ c.toNat && c.toNat ≤ 0x200A)

/-- `str::trim`. -/
def trimSpace (cs : List Char) : List Char :=
  ((cs.dropWhile isSpace).reverse.dropWhile isSpace).reverse

/-- `str::split_whitespace`. -/
def splitWhitespace (s : List Char) : List (List Char) := (s.splitOnP isSpace).filter fun w => w ≠ []

/-- Digits as a number; no digits are zero. -/
def parseDigits (cs : List Char) : Option ℕ :=
  cs.foldlM (fun n c => if c.isDigit then some (10 * n + (c.toNat - '0'.toNat)) else none) 0

/-- Decimal text to a signed number of 64 bits; a sign may come first. -/
def parseInt (cs : List Char) : Option Int64 :=
  match cs with
  | '-' :: ds => if ds = [] then none else
      (parseDigits ds).bind fun n => if n ≤ 2 ^ 63 then some (Int64.ofInt (-n)) else none
  | '+' :: ds => if ds = [] then none else
      (parseDigits ds).bind fun n => if n < 2 ^ 63 then some (Int64.ofInt n) else none
  | ds => if ds = [] then none else
      (parseDigits ds).bind fun n => if n < 2 ^ 63 then some (Int64.ofInt n) else none

/-- `i64::checked_mul`. -/
def checkedMul (n m : Int64) : Option Int64 :=
  let product := n.toInt * m.toInt
  if -2 ^ 63 ≤ product ∧ product < 2 ^ 63 then some (Int64.ofInt product) else none

/-- `str::find` with a text: the parts before and after its first occurrence. -/
def splitAtFirst (op : List Char) : List Char → Option (List Char × List Char)
  | [] => if op = [] then some ([], []) else none
  | c :: cs =>
    if op <+: c :: cs then some ([], (c :: cs).drop op.length)
    else (splitAtFirst op cs).map fun (f, v) => (c :: f, v)

/-- `strip_suffix`. -/
def stripSuffix (suffix cs : List Char) : Option (List Char) :=
  if suffix <:+ cs then some (cs.take (cs.length - suffix.length)) else none

/-- The first unit that a text ends with, and what stands before it. -/
def unitOf {α : Type} (units : List (String × α)) (cs : List Char) : Option (List Char × α) :=
  units.findSome? fun (unit, mult) => (stripSuffix unit.toList cs).map fun n => (n, mult)

theorem parseDigits_append_digit {cs : List Char} {n : ℕ} (h : parseDigits cs = some n) {k : ℕ}
    (hk : k < 10) : parseDigits (cs ++ [k.digitChar]) = some (10 * n + k) := by
  have hd : k.digitChar.isDigit = true := by simp [Nat.isDigit_digitChar, hk]
  have hv : k.digitChar.toNat - '0'.toNat = k := by
    interval_cases k <;> rfl
  unfold parseDigits at h ⊢
  rw [List.foldlM_append, h]
  simp only [List.foldlM_cons, List.foldlM_nil, hd, if_true, hv, Option.bind_eq_bind, Option.bind_some,
    Option.pure_def]

theorem parseDigits_toDigits (n : ℕ) : parseDigits (Nat.toDigits 10 n) = some n := by
  induction n using Nat.strong_induction_on with
  | _ n ih =>
    by_cases hn : n < 10
    · rw [Nat.toDigits_of_lt_base hn]
      simpa using parseDigits_append_digit (show parseDigits [] = some 0 from rfl) hn
    · rw [Nat.toDigits_of_base_le (by decide) (by omega),
        parseDigits_append_digit (ih (n / 10) (by omega)) (Nat.mod_lt _ (by decide)),
        Nat.div_add_mod]

theorem isSpace_of_isDigit {c : Char} (h : c.isDigit = true) : isSpace c = false := by
  have hc : 48 ≤ c.toNat ∧ c.toNat ≤ 57 := by
    simpa [Char.isDigit, UInt32.le_iff_toNat_le] using h
  obtain ⟨hlo, hhi⟩ := hc
  simp [isSpace]
  omega

theorem parseInt_toDigits {n : ℕ} (hn : n < 2 ^ 63) :
    parseInt (Nat.toDigits 10 n) = some (Int64.ofInt n) := by
  have hne : Nat.toDigits 10 n ≠ [] := Nat.toDigits_ne_nil
  have hdig : ∀ c ∈ Nat.toDigits 10 n, c.isDigit = true :=
    fun c hc => Nat.isDigit_of_mem_toDigits (by decide) (by decide) hc
  have hval := parseDigits_toDigits n
  unfold parseInt
  split
  · next ds heq => exact absurd (hdig '-' (by simp [heq])) (by decide)
  · next ds heq => exact absurd (hdig '+' (by simp [heq])) (by decide)
  · rw [if_neg hne, hval, Option.bind_some, if_pos hn]

end Robinhood.Lib
