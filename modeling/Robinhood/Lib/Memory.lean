/-
# Lib.Memory — reading a block of bytes at offsets

A block is a list of bytes.  A read that reaches past its end has no result, so a lemma that gives a result
also says that the read stays inside.  Flag words are bit vectors; what a mask keeps and drops of them is
here too, because offsets are computed from masked words.
-/
import Mathlib
import Robinhood.Lib.Numeral

namespace Robinhood.Lib.Memory

open Numeral

/-! ## §1 — reads -/

def bytesAt (mem : List UInt8) (off width : ℕ) : Option (List UInt8) :=
  if off + width ≤ mem.length then some ((mem.drop off).take width) else none

def numberAt (mem : List UInt8) (off width : ℕ) : Option ℕ := (bytesAt mem off width).map ofLe

/-- `CStr::from_ptr`: the bytes up to the first NUL. -/
def cstrAt (mem : List UInt8) (off : ℕ) : Option (List UInt8) :=
  if 0 ∈ mem.drop off then some ((mem.drop off).takeWhile (· ≠ 0)) else none

section
variable {off width n : ℕ} {mem pre mid post : List UInt8}

theorem bytesAt_append (hmem : mem = pre ++ (mid ++ post)) (hoff : off = pre.length)
    (hwidth : width = mid.length) : bytesAt mem off width = some mid := by
  subst hmem hoff hwidth
  rw [bytesAt, if_pos (by simp), List.drop_left, List.take_left]

theorem numberAt_append (hmem : mem = pre ++ (toLe width n ++ post)) (hoff : off = pre.length)
    (hn : n < 256 ^ width) : numberAt mem off width = some n := by
  rw [numberAt, bytesAt_append hmem hoff (length_toLe width n).symm, Option.map_some, ofLe_toLe hn]

theorem takeWhile_ne_zero (h : 0 ∉ mid) : (mid ++ 0 :: post).takeWhile (· ≠ 0) = mid := by
  have hall : ∀ b ∈ mid, decide (b ≠ 0) = true := by
    intro b hb
    exact decide_eq_true fun e => h (e ▸ hb)
  rw [List.takeWhile_append_of_pos hall, List.takeWhile_cons_of_neg (by simp), List.append_nil]

theorem cstrAt_append (hmem : mem = pre ++ (mid ++ 0 :: post)) (hoff : off = pre.length) (h : 0 ∉ mid) :
    cstrAt mem off = some mid := by
  subst hmem hoff
  rw [cstrAt, List.drop_left, if_pos (by simp), takeWhile_ne_zero h]

end

/-! ## §2 — masks -/

section
variable {w : ℕ} {x m n f : BitVec w}

theorem and_ne_zero_iff_of_keeps (h : m &&& f = f) : (x &&& m) &&& f ≠ 0 ↔ x &&& f ≠ 0 := by
  rw [BitVec.and_assoc, h]

theorem and_eq_zero_of_drops (h : m &&& f = 0) : (x &&& m) &&& f = 0 := by
  rw [BitVec.and_assoc, h]
  exact BitVec.and_zero

theorem or_and_distrib (m n f : BitVec w) : (m ||| n) &&& f = (m &&& f) ||| (n &&& f) := by
  ext i hi
  simp [Bool.and_or_distrib_right]

theorem keeps_or_left (h : m &&& f = f) (hn : n &&& f = 0) : (m ||| n) &&& f = f := by
  rw [or_and_distrib, h, hn]
  exact BitVec.or_zero

theorem keeps_or_right (hm : m &&& f = 0) (h : n &&& f = f) : (m ||| n) &&& f = f := by
  rw [or_and_distrib, hm, h]
  exact BitVec.zero_or

theorem drops_or (hm : m &&& f = 0) (hn : n &&& f = 0) : (m ||| n) &&& f = 0 := by
  rw [or_and_distrib, hm, hn]
  exact BitVec.or_zero

end

end Robinhood.Lib.Memory
