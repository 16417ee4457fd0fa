/-
# Lib.Base64 — the standard base64 encoding

Three bytes are written as four characters of the standard alphabet, and a rest of one or two bytes is padded
with `=`.  The decoder is strict: it takes padding only at the end, and none of the bits that padding leaves over
may be set.  What was encoded is decoded: `decode_encode`.
-/
import Mathlib

namespace Robinhood.Lib.Base64

/-! ## §1 — The alphabet -/

/-- The character of six bits. -/
def sextet (n : ℕ) : Char :=
  if n < 26 then Char.ofNat (65 + n)
  else if n < 52 then Char.ofNat (71 + n)
  else if n < 62 then Char.ofNat (n - 4)
  else if n = 62 then '+' else '/'

/-- The six bits of a character. -/
def value (c : Char) : Option ℕ :=
  if 65 ≤ c.toNat ∧ c.toNat < 91 then some (c.toNat - 65)
  else if 97 ≤ c.toNat ∧ c.toNat < 123 then some (c.toNat - 71)
  else if 48 ≤ c.toNat ∧ c.toNat < 58 then some (c.toNat + 4)
  else if c = '+' then some 62 else if c = '/' then some 63 else none

theorem value_sextet {n : ℕ} (h : n < 64) : value (sextet n) = some n := by
  revert n
  decide

theorem sextet_ne_pad {n : ℕ} (h : n < 64) : sextet n ≠ '=' := by
  intro hpad
  have hvalue := value_sextet h
  rw [hpad] at hvalue
  revert hvalue
  decide +revert

/-! ## §2 — Both directions -/

def encode : List UInt8 → List Char
  | [] => []
  | [a] => [sextet (a.toNat / 4), sextet (a.toNat % 4 * 16), '=', '=']
  | [a, b] => [sextet (a.toNat / 4), sextet (a.toNat % 4 * 16 + b.toNat / 16), sextet (b.toNat % 16 * 4), '=']
  | a :: b :: c :: rest =>
    sextet (a.toNat / 4) :: sextet (a.toNat % 4 * 16 + b.toNat / 16) ::
      sextet (b.toNat % 16 * 4 + c.toNat / 64) :: sextet (c.toNat % 64) :: encode rest

/-- One byte before two characters of padding. -/
def decodeOne (w x : Char) : Option (List UInt8) := do
  let w ← value w
  let x ← value x
  if x % 16 = 0 then some [.ofNat (w * 4 + x / 16)] else none

/-- Two bytes before one character of padding. -/
def decodeTwo (w x y : Char) : Option (List UInt8) := do
  let w ← value w
  let x ← value x
  let y ← value y
  if y % 4 = 0 then some [.ofNat (w * 4 + x / 16), .ofNat (x % 16 * 16 + y / 4)] else none

def decode : List Char → Option (List UInt8)
  | [] => some []
  | w :: x :: y :: z :: rest =>
    if y = '=' ∧ z = '=' ∧ rest = [] then decodeOne w x
    else if z = '=' ∧ rest = [] then decodeTwo w x y
    else do
      let w ← value w
      let x ← value x
      let y ← value y
      let z ← value z
      let bytes ← decode rest
      some (.ofNat (w * 4 + x / 16) :: .ofNat (x % 16 * 16 + y / 4) :: .ofNat (y % 4 * 64 + z) :: bytes)
  | _ => none

theorem ofNat_eq {a : UInt8} {n : ℕ} (h : n = a.toNat) : UInt8.ofNat n = a := by
  rw [h, UInt8.ofNat_toNat]

/-- **What was encoded is decoded.** -/
theorem decode_encode (bytes : List UInt8) : decode (encode bytes) = some bytes := by
  induction bytes using encode.induct with
  | case1 => rfl
  | case2 a =>
    have ha := a.toNat_lt
    have hfirst : value (sextet (a.toNat / 4)) = some _ := value_sextet (by omega)
    have hsecond : value (sextet (a.toNat % 4 * 16)) = some _ := value_sextet (by omega)
    rw [encode, decode, if_pos ⟨rfl, rfl, rfl⟩, decodeOne, hfirst, hsecond]
    simp only [Option.bind_eq_bind, Option.bind_some]
    rw [if_pos (by omega), ofNat_eq (a := a) (by omega)]
  | case3 a b =>
    have ha := a.toNat_lt
    have hb := b.toNat_lt
    have hfirst : value (sextet (a.toNat / 4)) = some _ := value_sextet (by omega)
    have hsecond : value (sextet (a.toNat % 4 * 16 + b.toNat / 16)) = some _ := value_sextet (by omega)
    have hthird : value (sextet (b.toNat % 16 * 4)) = some _ := value_sextet (by omega)
    have hpad : sextet (b.toNat % 16 * 4) ≠ '=' := sextet_ne_pad (by omega)
    rw [encode, decode, if_neg (fun h => hpad h.1), if_pos ⟨rfl, rfl⟩, decodeTwo, hfirst, hsecond, hthird]
    simp only [Option.bind_eq_bind, Option.bind_some]
    rw [if_pos (by omega), ofNat_eq (a := a) (by omega), ofNat_eq (a := b) (by omega)]
  | case4 a b c rest ih =>
    have ha := a.toNat_lt
    have hb := b.toNat_lt
    have hc := c.toNat_lt
    have hfirst : value (sextet (a.toNat / 4)) = some _ := value_sextet (by omega)
    have hsecond : value (sextet (a.toNat % 4 * 16 + b.toNat / 16)) = some _ := value_sextet (by omega)
    have hthird : value (sextet (b.toNat % 16 * 4 + c.toNat / 64)) = some _ := value_sextet (by omega)
    have hfourth : value (sextet (c.toNat % 64)) = some _ := value_sextet (by omega)
    have hpad : sextet (c.toNat % 64) ≠ '=' := sextet_ne_pad (by omega)
    rw [encode, decode, if_neg (fun h => hpad h.2.1), if_neg (fun h => hpad h.1), hfirst, hsecond, hthird, hfourth, ih]
    simp only [Option.bind_eq_bind, Option.bind_some]
    rw [ofNat_eq (a := a) (by omega), ofNat_eq (a := b) (by omega), ofNat_eq (a := c) (by omega)]

example : encode [255] = "/w==".toList := by decide

end Robinhood.Lib.Base64
