/-
# Lib.Numeral — numbers as digits and as bytes

A number is written in some radix with characters, or in radix 256 with bytes, either end first.  What is
written reads back, what is read is bounded by its length, and among byte strings of one length the order
of the bytes, big end first, is the order of the numbers.

`fromStrRadix` reads as the standard library of Rust does: a plus sign may come first, the value is bounded,
and the first fault met from the left is the error.
-/
import Mathlib

namespace Robinhood.Lib.Numeral

/-! ## §1 — digits -/

/-- `char::to_digit`: decimal digits, then letters of either case. -/
def digitValue (radix : ℕ) (c : Char) : Option ℕ :=
  (if c.isDigit then some (c.toNat - '0'.toNat)
    else if c.isLower then some (c.toNat - 'a'.toNat + 10)
    else if c.isUpper then some (c.toNat - 'A'.toNat + 10)
    else none).filter (· < radix)

def readDigits (radix : ℕ) (cs : List Char) : Option ℕ :=
  cs.foldlM (fun n c => (digitValue radix c).map (radix * n + ·)) 0

theorem digitValue_lt {radix v : ℕ} {c : Char} (h : digitValue radix c = some v) : v < radix := by
  simpa using (Option.filter_eq_some_iff.1 h).2

theorem digitValue_digitChar {radix k : ℕ} (hk : k < radix) (hradix : radix ≤ 16) :
    digitValue radix k.digitChar = some k := by
  have h16 : k < 16 := by omega
  interval_cases k <;>
    exact Option.filter_eq_some_iff.2 ⟨by decide, by simpa using hk⟩

@[simp] theorem readDigits_nil (radix : ℕ) : readDigits radix [] = some 0 := rfl

theorem readDigits_concat (radix : ℕ) (cs : List Char) (c : Char) :
    readDigits radix (cs ++ [c]) =
      (readDigits radix cs).bind fun n => (digitValue radix c).map (radix * n + ·) := by
  rw [readDigits, List.foldlM_append]
  cases h : readDigits radix cs with
  | none => rw [readDigits] at h; rw [h]; rfl
  | some =>
    rw [readDigits] at h
    rw [h]
    simp only [List.foldlM_cons, List.foldlM_nil, Option.bind_eq_bind, Option.bind_some]
    cases digitValue radix c <;> rfl

/-- **A number written in a radix up to sixteen reads back.** -/
theorem readDigits_toDigits {radix : ℕ} (h1 : 1 < radix) (h16 : radix ≤ 16) (n : ℕ) :
    readDigits radix (Nat.toDigits radix n) = some n := by
  induction n using Nat.strong_induction_on with
  | _ n ih =>
    by_cases hn : n < radix
    · have hone := readDigits_concat radix [] n.digitChar
      rw [digitValue_digitChar hn h16] at hone
      rw [Nat.toDigits_of_lt_base hn]
      simpa using hone
    · have hdiv : n / radix < n := Nat.div_lt_self (by omega) h1
      have hmod : n % radix < radix := Nat.mod_lt _ (by omega)
      rw [Nat.toDigits_of_base_le h1 (by omega), readDigits_concat, ih _ hdiv,
        digitValue_digitChar hmod h16, Option.bind_some, Option.map_some, Nat.div_add_mod]

theorem digit_of_readDigits {radix n : ℕ} {cs : List Char} (h : readDigits radix cs = some n) :
    ∀ c ∈ cs, (digitValue radix c).isSome := by
  induction cs using List.reverseRecOn generalizing n with
  | nil => simp
  | append_singleton cs c ih =>
    rw [readDigits_concat] at h
    obtain ⟨m, hm, hmap⟩ := Option.bind_eq_some_iff.1 h
    obtain ⟨v, hv, -⟩ := Option.map_eq_some_iff.1 hmap
    intro d hd
    rcases List.mem_append.1 hd with hd | hd
    · exact ih hm d hd
    · rw [List.mem_singleton.1 hd, hv]
      rfl

theorem eq_zero_of_digitValue {radix : ℕ} {c : Char} (h : digitValue radix c = some 0) : c = '0' := by
  have hv := (Option.filter_eq_some_iff.1 h).1
  split_ifs at hv with hdigit hlower hupper
  · have hc : 48 ≤ c.toNat ∧ c.toNat ≤ 57 := by
      simpa [Char.isDigit, UInt32.le_iff_toNat_le] using hdigit
    have hzero : c.toNat - 48 = 0 := Option.some.inj hv
    exact Char.toNat_inj.1 (show c.toNat = 48 by omega)
  · cases hv
  · cases hv

theorem readDigits_dropWhile_zero {radix : ℕ} (hradix : 0 < radix) (cs : List Char) :
    readDigits radix (cs.dropWhile (· = '0')) = readDigits radix cs := by
  induction cs with
  | nil => rfl
  | cons c cs ih =>
    by_cases hc : c = '0'
    · subst hc
      have hzero : digitValue radix '0' = some 0 :=
        Option.filter_eq_some_iff.2 ⟨by decide, by simpa using hradix⟩
      rw [List.dropWhile_cons_of_pos (by simp), ih]
      simp [readDigits, hzero]
    · rw [List.dropWhile_cons_of_neg (by simpa using hc)]

theorem readDigits_lt {radix n : ℕ} {cs : List Char} (h : readDigits radix cs = some n) :
    n < radix ^ cs.length := by
  induction cs using List.reverseRecOn generalizing n with
  | nil =>
    obtain rfl := Option.some.inj h
    simp
  | append_singleton cs c ih =>
    rw [readDigits_concat] at h
    obtain ⟨m, hm, hmap⟩ := Option.bind_eq_some_iff.1 h
    obtain ⟨v, hv, rfl⟩ := Option.map_eq_some_iff.1 hmap
    have hvlt := digitValue_lt hv
    have hstep : radix * (m + 1) ≤ radix * radix ^ cs.length := Nat.mul_le_mul_left radix (ih hm)
    rw [List.length_append, List.length_singleton, pow_succ, Nat.mul_comm (radix ^ cs.length)]
    rw [Nat.mul_add, Nat.mul_one] at hstep
    omega

theorem pow_le_readDigits {radix n : ℕ} {c : Char} {cs : List Char} (hc : c ≠ '0')
    (h : readDigits radix (c :: cs) = some n) : radix ^ cs.length ≤ n := by
  induction cs using List.reverseRecOn generalizing n with
  | nil =>
    have hone : readDigits radix ([] ++ [c]) = some n := h
    rw [readDigits_concat] at hone
    obtain ⟨m, hm, hmap⟩ := Option.bind_eq_some_iff.1 hone
    obtain ⟨v, hv, rfl⟩ := Option.map_eq_some_iff.1 hmap
    have hne : v ≠ 0 := by
      rintro rfl
      exact hc (eq_zero_of_digitValue hv)
    rw [List.length_nil, pow_zero]
    omega
  | append_singleton cs d ih =>
    rw [← List.cons_append, readDigits_concat] at h
    obtain ⟨m, hm, hmap⟩ := Option.bind_eq_some_iff.1 h
    obtain ⟨v, hv, rfl⟩ := Option.map_eq_some_iff.1 hmap
    have hstep : radix * radix ^ cs.length ≤ radix * m := Nat.mul_le_mul_left radix (ih hm)
    rw [List.length_append, List.length_singleton, pow_succ, Nat.mul_comm (radix ^ cs.length)]
    omega

/-- **How many digits a number takes**, zeros in front not counted. -/
theorem lt_pow_iff_length_le {radix n : ℕ} (hradix : 1 < radix) {cs : List Char}
    (h : readDigits radix cs = some n) (k : ℕ) :
    n < radix ^ k ↔ (cs.dropWhile (· = '0')).length ≤ k := by
  rw [← readDigits_dropWhile_zero (by omega)] at h
  constructor
  · intro hlt
    cases hrest : cs.dropWhile (· = '0') with
    | nil => simp
    | cons c rest =>
      have hc : c ≠ '0' := by
        have hstay := List.head_dropWhile_not (fun c => decide (c = '0')) (l := cs) (by simp [hrest])
        simpa [hrest] using hstay
      rw [hrest] at h
      have hpow : radix ^ rest.length < radix ^ k := lt_of_le_of_lt (pow_le_readDigits hc h) hlt
      exact (Nat.pow_lt_pow_iff_right hradix).1 hpow
  · intro hle
    exact lt_of_lt_of_le (readDigits_lt h) (Nat.pow_le_pow_right (by omega) hle)

/-! ## §2 — reading a number of so many bits -/

/-- `ParseIntError`. -/
inductive ParseIntError
  | empty
  | invalidDigit
  | posOverflow
  deriving DecidableEq, Repr

def pushDigit (radix bits n : ℕ) (c : Char) : Except ParseIntError ℕ :=
  match digitValue radix c with
  | none => .error .invalidDigit
  | some v => if radix * n + v < 2 ^ bits then .ok (radix * n + v) else .error .posOverflow

/-- The digits of a text, without a leading plus sign that something follows. -/
def unsigned : List Char → List Char
  | '+' :: c :: cs => c :: cs
  | cs => cs

/-- **`from_str_radix`** of an unsigned type. -/
def fromStrRadix (radix bits : ℕ) (cs : List Char) : Except ParseIntError ℕ :=
  if cs = [] then .error .empty else (unsigned cs).foldlM (pushDigit radix bits) 0

theorem foldlM_pushDigit_concat (radix bits : ℕ) (cs : List Char) (c : Char) :
    (cs ++ [c]).foldlM (pushDigit radix bits) 0 =
      cs.foldlM (pushDigit radix bits) 0 >>= fun n => pushDigit radix bits n c := by
  rw [List.foldlM_append]
  cases cs.foldlM (pushDigit radix bits) 0 with
  | error => rfl
  | ok n =>
    show (pushDigit radix bits n c >>= pure) = pushDigit radix bits n c
    exact bind_pure _

theorem pushDigit_eq_ok {radix bits n m : ℕ} {c : Char} :
    pushDigit radix bits n c = .ok m ↔
      (digitValue radix c).map (radix * n + ·) = some m ∧ m < 2 ^ bits := by
  unfold pushDigit
  cases digitValue radix c with
  | none => simp
  | some =>
    simp only [Option.map_some, Option.some.injEq]
    split_ifs with h
    · constructor
      · intro e
        cases e
        exact ⟨rfl, h⟩
      · rintro ⟨rfl, -⟩
        rfl
    · constructor
      · intro e
        cases e
      · rintro ⟨rfl, hlt⟩
        exact absurd hlt h

theorem foldlM_pushDigit_eq_ok {radix bits : ℕ} (hradix : 0 < radix) {cs : List Char} {n : ℕ} :
    cs.foldlM (pushDigit radix bits) 0 = .ok n ↔ readDigits radix cs = some n ∧ n < 2 ^ bits := by
  induction cs using List.reverseRecOn generalizing n with
  | nil =>
    constructor
    · intro h
      cases h
      exact ⟨rfl, Nat.two_pow_pos _⟩
    · rintro ⟨h, -⟩
      cases h
      rfl
  | append_singleton cs c ih =>
    rw [foldlM_pushDigit_concat, readDigits_concat]
    constructor
    · intro h
      cases hcs : cs.foldlM (pushDigit radix bits) 0 with
      | error =>
        rw [hcs] at h
        cases h
      | ok m =>
        rw [hcs] at h
        obtain ⟨hm, -⟩ := ih.1 hcs
        obtain ⟨hpush, hlt⟩ := pushDigit_eq_ok.1 (show pushDigit radix bits m c = .ok n from h)
        exact ⟨by rw [hm, Option.bind_some, hpush], hlt⟩
    · rintro ⟨h, hlt⟩
      obtain ⟨m, hm, hmap⟩ := Option.bind_eq_some_iff.1 h
      obtain ⟨v, -, hv⟩ := Option.map_eq_some_iff.1 hmap
      -- the number grows with each digit, so no step before the last overflowed either
      have hle : m ≤ radix * m := Nat.le_mul_of_pos_left m hradix
      rw [ih.2 ⟨hm, by omega⟩]
      exact pushDigit_eq_ok.2 ⟨hmap, hlt⟩

/-- **What `from_str_radix` accepts**: digits, at least one, of a value in range. -/
theorem fromStrRadix_eq_ok {radix bits : ℕ} (hradix : 0 < radix) {cs : List Char} {n : ℕ} :
    fromStrRadix radix bits cs = .ok n ↔
      cs ≠ [] ∧ readDigits radix (unsigned cs) = some n ∧ n < 2 ^ bits := by
  unfold fromStrRadix
  split_ifs with h
  · simp [h]
  · rw [foldlM_pushDigit_eq_ok hradix]
    simp [h]

theorem unsigned_of_head {cs : List Char} (h : cs.head? ≠ some '+') : unsigned cs = cs := by
  match cs, h with
  | [], _ => rfl
  | c :: cs, h =>
    have hc : c ≠ '+' := by simpa using h
    cases cs <;> simp [unsigned, hc]

theorem digitValue_plus (radix : ℕ) : digitValue radix '+' = none := by
  simp [digitValue, show '+'.isDigit = false from rfl, show '+'.isLower = false from rfl,
    show '+'.isUpper = false from rfl]

/-- **A number in range, written in its radix, is read back.** -/
theorem fromStrRadix_toDigits {radix bits n : ℕ} (h1 : 1 < radix) (h16 : radix ≤ 16) (hn : n < 2 ^ bits) :
    fromStrRadix radix bits (Nat.toDigits radix n) = .ok n := by
  have hread := readDigits_toDigits h1 h16 n
  have hhead : (Nat.toDigits radix n).head? ≠ some '+' := by
    intro h
    have hplus := digit_of_readDigits hread '+' (List.mem_of_mem_head? h)
    rw [digitValue_plus] at hplus
    cases hplus
  exact (fromStrRadix_eq_ok (by omega)).2 ⟨Nat.toDigits_ne_nil, by rw [unsigned_of_head hhead, hread], hn⟩

/-! ## §3 — bytes -/

/-- So many bytes of a number, little end first. -/
def toLe : ℕ → ℕ → List UInt8
  | 0, _ => []
  | width + 1, n => UInt8.ofNat (n % 256) :: toLe width (n / 256)

/-- The number of bytes, little end first. -/
def ofLe : List UInt8 → ℕ
  | [] => 0
  | b :: bs => b.toNat + 256 * ofLe bs

@[simp] theorem length_toLe (width n : ℕ) : (toLe width n).length = width := by
  induction width generalizing n with
  | zero => rfl
  | succ width ih => simp [toLe, ih]

theorem ofLe_toLe {width n : ℕ} (h : n < 256 ^ width) : ofLe (toLe width n) = n := by
  induction width generalizing n with
  | zero => simp at h; simp [toLe, ofLe, h]
  | succ width ih =>
    have hdiv : n / 256 < 256 ^ width := by
      rw [Nat.div_lt_iff_lt_mul (by decide)]
      rwa [pow_succ] at h
    have hbyte : (UInt8.ofNat (n % 256)).toNat = n % 256 := by
      simp
    rw [toLe, ofLe, ih hdiv, hbyte, Nat.mod_add_div]

theorem ofLe_lt (bytes : List UInt8) : ofLe bytes < 256 ^ bytes.length := by
  induction bytes with
  | nil => simp [ofLe]
  | cons b =>
    have hb : b.toNat < 256 := b.toNat_lt
    rw [ofLe, List.length_cons, pow_succ]
    omega

theorem ofLe_append (bytes others : List UInt8) :
    ofLe (bytes ++ others) = ofLe bytes + 256 ^ bytes.length * ofLe others := by
  induction bytes with
  | nil => simp [ofLe]
  | cons b bs ih =>
    rw [List.cons_append, ofLe, ih, ofLe, List.length_cons, pow_succ]
    ring

def ofBe (bytes : List UInt8) : ℕ := ofLe bytes.reverse

theorem ofBe_cons (b : UInt8) (bytes : List UInt8) :
    ofBe (b :: bytes) = b.toNat * 256 ^ bytes.length + ofBe bytes := by
  rw [ofBe, List.reverse_cons, ofLe_append]
  simp [ofLe, ofBe]
  ring

theorem ofBe_append (bytes others : List UInt8) :
    ofBe (bytes ++ others) = ofBe bytes * 256 ^ others.length + ofBe others := by
  rw [ofBe, List.reverse_append, ofLe_append, List.length_reverse]
  simp only [ofBe]
  ring

theorem ofBe_lt (bytes : List UInt8) : ofBe bytes < 256 ^ bytes.length := by
  simpa [ofBe] using ofLe_lt bytes.reverse

/-- **Among byte strings of one length, big end first, byte order is the order of the numbers.** -/
theorem lt_iff_ofBe_lt {xs ys : List UInt8} (h : xs.length = ys.length) : xs < ys ↔ ofBe xs < ofBe ys := by
  induction xs generalizing ys with
  | nil =>
    obtain rfl := List.length_eq_zero_iff.1 h.symm
    simp
  | cons x xs ih =>
    obtain ⟨y, ys, rfl⟩ := List.exists_cons_of_length_eq_add_one h.symm
    have hlen : xs.length = ys.length := by simpa using h
    have hx := ofBe_lt xs
    have hy := ofBe_lt ys
    rw [List.cons_lt_cons_iff, ofBe_cons, ofBe_cons, ih hlen]
    rw [hlen] at hx ⊢
    generalize 256 ^ ys.length = w at hx hy ⊢
    have hle := fun {a b} hab => by
      calc a * w + w = (a + 1) * w := by ring
        _ ≤ b * w := Nat.mul_le_mul_right w hab
    rcases Nat.lt_trichotomy x.toNat y.toNat with hxy | hxy | hxy
    · have := hle hxy
      exact iff_of_true (.inl (UInt8.lt_iff_toNat_lt.2 hxy)) (by omega)
    · obtain rfl := UInt8.toNat_inj.1 hxy
      simp
    · have := hle hxy
      refine iff_of_false ?_ (by omega)
      rintro (hlt | ⟨rfl, -⟩)
      · have := UInt8.lt_iff_toNat_lt.1 hlt
        omega
      · omega

end Robinhood.Lib.Numeral
