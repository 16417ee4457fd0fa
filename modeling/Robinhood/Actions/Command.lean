/-
# Actions.Command — the message of a failed command

`CmdExecutor` reports what a failed tool wrote to its standard error: decoded, trimmed, and cut to 4096
bytes.  `String::truncate` cuts between characters only and panics otherwise, so the report depends on where
the characters of the text fall: `stderr_reported_iff`.
-/
import Mathlib
import Robinhood.Agent.Cursor
import Robinhood.Changelog.Parse
import Robinhood.Lib.Text
import Robinhood.Policy.Dispatch

namespace Robinhood.Actions

open Lib
open Changelog (lossyText)
open Policy (ActionOutcome)

def utf8Len (cs : List Char) : ℕ := (cs.map Char.utf8Size).sum

/-- `String::truncate`, which panics (`none`) where the new end is inside a character. -/
def truncate : ℕ → List Char → Option (List Char)
  | 0, _ => some []
  | _ + 1, [] => some []
  | n + 1, c :: cs => if c.utf8Size ≤ n + 1 then (truncate (n + 1 - c.utf8Size) cs).map (c :: ·) else none

/-- `{:?}` of an exit code. -/
def exitText : Option Int → String
  | some code => "Some(" ++ toString code ++ ")"
  | none => "None"

def stderrText (stderr : List UInt8) : List Char := trimSpace (lossyText stderr).toList

/-- **The outcome of a command that failed** (`CmdExecutor::execute`); `none` is a panic. -/
def failedOutcome (code : Option Int) (stderr : List UInt8) : Option ActionOutcome := do
  let text := stderrText stderr
  let text ← if utf8Len text > 4096 then truncate 4096 text else some text
  pure (.failed ("exit " ++ exitText code ++ ": " ++ String.ofList text))

@[simp] theorem utf8Len_cons (c : Char) (cs : List Char) : utf8Len (c :: cs) = c.utf8Size + utf8Len cs := rfl

theorem utf8Len_eq_zero {cs : List Char} : utf8Len cs = 0 ↔ cs = [] := by
  cases cs with
  | nil => exact iff_of_true rfl rfl
  | cons c cs =>
    have := c.utf8Size_pos
    simp
    omega

/-- **A cut between characters** is a part of the text of just that length. -/
theorem truncate_eq_some {n : ℕ} {cs cut : List Char} (h : n ≤ utf8Len cs) :
    truncate n cs = some cut ↔ cut <+: cs ∧ utf8Len cut = n := by
  induction n, cs using truncate.induct generalizing cut with
  | case1 cs =>
    rw [truncate, Option.some_inj, utf8Len_eq_zero, eq_comm]
    exact ⟨fun hcut => ⟨hcut ▸ List.nil_prefix, hcut⟩, And.right⟩
  | case2 n => cases h
  | case3 n c cs hfits ih =>
    rw [utf8Len_cons] at h
    simp only [truncate, if_pos hfits, Option.map_eq_some_iff, ih (by omega)]
    constructor
    · rintro ⟨rest, ⟨hrest, hlen⟩, rfl⟩
      exact ⟨List.cons_prefix_cons.2 ⟨rfl, hrest⟩, by rw [utf8Len_cons, hlen]; omega⟩
    · rintro ⟨hcut, hlen⟩
      cases cut with
      | nil => cases hlen
      | cons d rest =>
        obtain ⟨rfl, hrest⟩ := List.cons_prefix_cons.1 hcut
        rw [utf8Len_cons] at hlen
        exact ⟨rest, ⟨hrest, by omega⟩, rfl⟩
  | case4 n c cs hfits =>
    simp only [truncate, if_neg hfits, reduceCtorEq, false_iff, not_and]
    intro hcut hlen
    cases cut with
    | nil => cases hlen
    | cons d rest =>
      obtain ⟨rfl, -⟩ := List.cons_prefix_cons.1 hcut
      rw [utf8Len_cons] at hlen
      omega

/-- **A failure is reported, with a part of at most 4096 bytes of its text, exactly when** the text is not
longer or one of its characters begins at byte 4096; else there is no outcome at all. -/
theorem stderr_reported_iff (code : Option Int) (stderr : List UInt8) :
    (∃ cut, cut <+: stderrText stderr ∧ utf8Len cut ≤ 4096 ∧
      failedOutcome code stderr = some (.failed ("exit " ++ exitText code ++ ": " ++ String.ofList cut))) ↔
    utf8Len (stderrText stderr) ≤ 4096 ∨ ∃ cut, cut <+: stderrText stderr ∧ utf8Len cut = 4096 := by
  by_cases hlong : utf8Len (stderrText stderr) > 4096
  · have hcut : ∀ cut, truncate 4096 (stderrText stderr) = some cut ↔ cut <+: stderrText stderr ∧ utf8Len cut = 4096 :=
      fun cut => truncate_eq_some (by omega)
    rw [or_iff_right (by omega)]
    constructor
    · rintro ⟨_, _, _, hrun⟩
      simp only [failedOutcome, if_pos hlong, Option.bind_eq_bind, Option.bind_eq_some_iff] at hrun
      obtain ⟨cut, hrun, -⟩ := hrun
      exact ⟨cut, (hcut cut).1 hrun⟩
    · rintro ⟨cut, hpart, hlen⟩
      refine ⟨cut, hpart, hlen.le, ?_⟩
      simp only [failedOutcome, if_pos hlong, (hcut cut).2 ⟨hpart, hlen⟩]
      rfl
  · refine iff_of_true ⟨_, List.prefix_rfl, by omega, ?_⟩ (.inl (by omega))
    simp only [failedOutcome, if_neg hlong]
    rfl

theorem lossyText_of_bytes {bytes : List UInt8} {s : String} (h : Scan.toStringLossy bytes = s.toUTF8.toList) :
    lossyText bytes = s := by
  have hbytes : (⟨(Scan.toStringLossy bytes).toArray⟩ : ByteArray) = s.toUTF8 := by
    rw [h, toList_byteArray]
  have hvalid : s.toUTF8.IsValidUTF8 := s.isValidUTF8
  rw [lossyText, hbytes, String.fromUTF8?, dif_pos hvalid]
  rfl

/-- Letters and one `é`. -/
def accented (n : ℕ) : List Char := List.replicate n 'a' ++ ['é']

def accentedBytes (n : ℕ) : List UInt8 := List.replicate n 97 ++ [0xC3, 0xA9]

theorem stderrText_accentedBytes (n : ℕ) : stderrText (accentedBytes (n + 1)) = accented (n + 1) := by
  have hlossy : ∀ n, Scan.toStringLossy (accentedBytes n) = accentedBytes n := by
    intro n
    induction n with
    | zero => decide
    | succ n ih => exact congrArg (97 :: ·) ih
  have hbytes : ∀ n, (String.ofList (accented n)).toUTF8.toList = accentedBytes n := by
    intro n
    rw [toList_byteArray]
    induction n with
    | zero => decide
    | succ n ih =>
      have hcons : (accented (n + 1)).utf8Encode = ['a'].utf8Encode ++ (accented n).utf8Encode := by
        rw [← List.utf8Encode_append]
        rfl
      have hfirst : ['a'].utf8Encode.data.toList = [97] := by decide
      change (accented (n + 1)).utf8Encode.data.toList = _
      rw [hcons, ByteArray.data_append, Array.toList_append, hfirst]
      exact congrArg (97 :: ·) ih
  have htext : lossyText (accentedBytes (n + 1)) = String.ofList (accented (n + 1)) :=
    lossyText_of_bytes ((hlossy _).trans (hbytes _).symm)
  rw [stderrText, htext, String.toList_ofList]
  refine trim_eq_self (fun c hc => ?_) fun c hc => ?_
  · obtain rfl : 'a' = c := by simpa [accented, List.replicate_succ] using hc
    decide
  · obtain rfl : 'é' = c := by simpa only [accented, List.getLast?_concat, Option.mem_some_iff] using hc
    decide

theorem truncate_accented (n : ℕ) : truncate (n + 1) (accented n) = none := by
  induction n with
  | zero => decide
  | succ n ih => exact congrArg (Option.map ('a' :: ·)) ih

/-- **Byte 4096 is inside the last character**, and the worker panics. -/
theorem accented_stderr_panics : failedOutcome (some 1) (accentedBytes 4095) = none := by
  have hlen : ∀ n, utf8Len (accented n) = n + 2 := by
    intro n
    induction n with
    | zero => decide
    | succ n ih => exact (congrArg (1 + ·) ih).trans (by omega)
  have hlong : utf8Len (stderrText (accentedBytes 4095)) > 4096 := by
    rw [stderrText_accentedBytes 4094, hlen]
    omega
  have hcut : truncate 4096 (stderrText (accentedBytes 4095)) = none := by
    rw [stderrText_accentedBytes 4094]
    exact truncate_accented 4095
  simp only [failedOutcome, if_pos hlong, hcut]
  rfl

end Robinhood.Actions
