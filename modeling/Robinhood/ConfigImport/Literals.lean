/-
# ConfigImport.Literals — globs and intervals

Two small translations of the importer.  A glob becomes a LIKE pattern: `glob_to_sql_like` escapes what LIKE
would take for a wildcard, but not the escape itself.  An interval becomes a text that the daemon reads again
with `parse_trigger`.
-/
import Mathlib
import Robinhood.ConfigImport.Import
import Robinhood.Lib.Wildcard
import Robinhood.Policy.Trigger

namespace Robinhood.ConfigImport

open Lib
open Predicate (TextLibrary)
open Policy (intervalLiteral naturalValue parseTrigger tryParseInterval_eq_some)

/-! ## §1 — Globs -/

def globToken (c : Char) : Wild Char := if c = '*' then .run else if c = '?' then .one else .letter c

def likeToken (c : Char) : Wild Char := if c = '%' then .run else if c = '_' then .one else .letter c

/-- **A pattern as LIKE reads it**: a backslash takes the next character as it is; at the end it stands for
itself. -/
def likeTokens (pattern : List Char) : List (Wild Char) := Wild.escaped '\\' likeToken pattern

theorem likeTokens_cons {c : Char} (h : c ≠ '\\') (rest : List Char) :
    likeTokens (c :: rest) = likeToken c :: likeTokens rest :=
  Wild.escaped_cons h ..

theorem likeTokens_backslash (d : Char) (rest : List Char) :
    likeTokens ('\\' :: d :: rest) = .letter d :: likeTokens rest :=
  Wild.escaped_escape ..

theorem likeTokens_glob_cons {c : Char} (h : c ≠ '\\') (rest : List Char) :
    likeTokens (globToSqlLike (c :: rest)) = globToken c :: likeTokens (globToSqlLike rest) := by
  simp only [globToSqlLike, List.flatMap_cons, globToken]
  split_ifs with hstar hone hspecial
  · exact likeTokens_cons (by decide) _
  · exact likeTokens_cons (by decide) _
  · rw [List.cons_append, List.cons_append, likeTokens_backslash, List.nil_append]
  · rw [not_or] at hspecial
    rw [List.singleton_append, likeTokens_cons h, likeToken, if_neg hspecial.1, if_neg hspecial.2]

theorem likeTokens_glob_singleton (c : Char) : likeTokens (globToSqlLike [c]) = [globToken c] := by
  by_cases hc : c = '\\'
  · subst hc
    decide
  · exact likeTokens_glob_cons hc []

def afterBackslash (d : Char) : List (Wild Char) :=
  if d = '*' then [.letter '%'] else if d = '?' then [.letter '_']
  else if d = '%' then [.letter '\\', .run] else if d = '_' then [.letter '\\', .one] else [.letter d]

theorem likeTokens_glob_escape (d : Char) (rest : List Char) :
    likeTokens (globToSqlLike ('\\' :: d :: rest)) = afterBackslash d ++ likeTokens (globToSqlLike rest) := by
  have hspecial : ∀ c, c ≠ '\\' → likeTokens ('\\' :: '\\' :: c :: globToSqlLike rest) =
      .letter '\\' :: likeToken c :: likeTokens (globToSqlLike rest) := by
    intro c hc
    rw [likeTokens_backslash, likeTokens_cons hc]
  simp only [globToSqlLike, List.flatMap_cons, afterBackslash]
  split_ifs with hstar hone hor hpercent hunder hpercent hunder <;> subst_vars
  all_goals first
    | rfl
    | exact hspecial _ (by decide)
    | simp_all

def charWeight (c : Char) : ℕ := if c = '\\' ∨ c = '_' then 2 else 1

theorem weight_likeTokens_glob (glob : List Char) :
    ((likeTokens (globToSqlLike glob)).map (Wild.weight charWeight)).sum +
        (if '\\' ∈ glob.dropLast then 1 else 0) ≤ ((glob.map globToken).map (Wild.weight charWeight)).sum := by
  induction glob using List.twoStepInduction with
  | nil => decide
  | singleton c => simp [likeTokens_glob_singleton]
  | cons_cons c d rest ih ih' =>
    by_cases hc : c = '\\'
    · subst hc
      have hless : ((afterBackslash d).map (Wild.weight charWeight)).sum + 1 ≤
          2 + Wild.weight charWeight (globToken d) := by
        unfold afterBackslash globToken
        split_ifs <;> simp_all [Wild.weight, charWeight]
      have hslash : Wild.weight charWeight (globToken '\\') = 2 := by decide
      rw [likeTokens_glob_escape, List.map_append, List.sum_append]
      simp only [List.map_cons, List.sum_cons, hslash, List.dropLast_cons_cons, List.mem_cons_self, if_true]
      have hrest := Nat.le_of_add_right_le ih
      omega
    · have hmem : '\\' ∈ (c :: d :: rest).dropLast ↔ '\\' ∈ (d :: rest).dropLast := by
        simp [List.dropLast_cons_cons, Ne.symm hc]
      have hrest := ih' d
      rw [likeTokens_glob_cons hc]
      simp only [hmem, List.map_cons, List.sum_cons] at hrest ⊢
      omega

/-- **The translation of a glob is exact if and only if the glob has no backslash before its last
character.** -/
theorem glob_translation_exact_iff (glob : List Char) :
    (∀ name, Wild.Matches (likeTokens (globToSqlLike glob)) name ↔ Wild.Matches (glob.map globToken) name) ↔
      '\\' ∉ glob.dropLast := by
  constructor
  · intro h hmem
    -- the lightest name that LIKE takes is too light for the glob
    have hlight := ((h _).1 (Wild.matches_shortest 'a' _)).weight_le (w := charWeight)
      fun c => by unfold charWeight; split_ifs <;> decide
    have hless := weight_likeTokens_glob glob
    rw [Wild.weight_shortest (by decide)] at hlight
    rw [if_pos hmem] at hless
    omega
  · intro h
    have hsame : likeTokens (globToSqlLike glob) = glob.map globToken := by
      induction glob with
      | nil => rfl
      | cons c rest ih =>
        cases rest with
        | nil => exact likeTokens_glob_singleton c
        | cons d rest =>
          rw [List.dropLast_cons_cons, List.mem_cons, not_or] at h
          rw [likeTokens_glob_cons (Ne.symm h.1), ih h.2]
          rfl
    intro name
    rw [hsame]

/-- **A glob for the names that start with a backslash** becomes a pattern for the one name `%`. -/
theorem backslash_star_translated_wrongly :
    globToSqlLike ['\\', '*'] = ['\\', '%'] ∧
      Wild.Matches (['\\', '*'].map globToken) ['\\', 'x'] ∧
      ¬ Wild.Matches (likeTokens (globToSqlLike ['\\', '*'])) ['\\', 'x'] := by
  decide

/-! ## §2 — Intervals -/

def KeepsSmall (lib : TextLibrary) : Prop :=
  ∀ s : String, (∀ c ∈ s.toList, c.isDigit ∨ c ∈ ['h', 'm', 's']) → lib.toLowercase s = s

section Interval

variable {lib : TextLibrary}

theorem intervalLiteral_repr (hlib : KeepsSmall lib) {unit : Char} {factor : ℕ}
    (hunit : (unit, factor) ∈ [('h', 3600), ('m', 60), ('s', 1)]) (n : ℕ) :
    intervalLiteral lib (Nat.toDigits 10 n ++ [unit]) = some (n, factor) := by
  have hdigit : ∀ c ∈ Nat.toDigits 10 n, c.isDigit = true := fun c hc =>
    Nat.isDigit_of_mem_toDigits (by decide) (by decide) hc
  have hspace : ∀ c ∈ Nat.toDigits 10 n, isSpace c = false := fun c hc => isSpace_of_isDigit (hdigit c hc)
  have htrim : trimSpace (Nat.toDigits 10 n) = Nat.toDigits 10 n :=
    trim_eq_self (fun c hc => hspace c (List.mem_of_mem_head? hc)) fun c hc =>
      hspace c (List.mem_of_mem_getLast? hc)
  have hvalue : naturalValue (Nat.toDigits 10 n) = some n := by
    dsimp only [naturalValue]
    split
    · next ds hplus => exact absurd (hdigit '+' (by rw [hplus]; exact List.mem_cons_self)) (by decide)
    · rw [if_neg Nat.toDigits_ne_nil, parseDigits_toDigits]
  have hlower : lib.toLowercase (String.ofList (Nat.toDigits 10 n ++ [unit])) =
      String.ofList (Nat.toDigits 10 n ++ [unit]) := by
    refine hlib _ fun c hc => ?_
    rw [String.toList_ofList, List.mem_append, List.mem_singleton] at hc
    rcases hc with hc | rfl
    · exact .inl (hdigit c hc)
    · simp only [List.mem_cons, Prod.mk.injEq, List.not_mem_nil, or_false] at hunit
      rcases hunit with ⟨rfl, -⟩ | ⟨rfl, -⟩ | ⟨rfl, -⟩ <;> exact .inr (by decide)
  have hfound : unitOf [("h", 3600), ("m", 60), ("s", 1)] (Nat.toDigits 10 n ++ [unit]) =
      some (Nat.toDigits 10 n, factor) := by
    simp only [List.mem_cons, Prod.mk.injEq, List.not_mem_nil, or_false] at hunit
    rcases hunit with ⟨rfl, rfl⟩ | ⟨rfl, rfl⟩ | ⟨rfl, rfl⟩ <;>
      simp [unitOf, stripSuffix]
  rw [intervalLiteral, hlower, String.toList_ofList, hfound, Option.bind_some]
  simp only [htrim, hvalue, Option.map_some]

theorem parseTrigger_repr (hlib : KeepsSmall lib) {unit : Char} {factor n : ℕ}
    (hunit : (unit, factor) ∈ [('h', 3600), ('m', 60), ('s', 1)]) (hn : n < 2 ^ 64) :
    parseTrigger lib (String.ofList (Nat.toDigits 10 n ++ [unit])) =
      .ok (.interval (n.toUInt64 * factor.toUInt64)) := by
  have hread := tryParseInterval_eq_some.2 ⟨n, factor, intervalLiteral_repr hlib hunit n, hn, rfl⟩
  have htrim : trimSpace (Nat.toDigits 10 n ++ [unit]) = Nat.toDigits 10 n ++ [unit] := by
    refine trim_eq_self (fun c hc => ?_) fun c hc => ?_
    · rw [List.head?_append_of_ne_nil _ Nat.toDigits_ne_nil] at hc
      exact isSpace_of_isDigit
        (Nat.isDigit_of_mem_toDigits (by decide) (by decide) (List.mem_of_mem_head? hc))
    · simp only [List.getLast?_concat, Option.mem_some_iff] at hc
      subst hc
      simp only [List.mem_cons, Prod.mk.injEq, List.not_mem_nil, or_false] at hunit
      rcases hunit with ⟨rfl, -⟩ | ⟨rfl, -⟩ | ⟨rfl, -⟩ <;> decide
  rw [parseTrigger, String.toList_ofList, htrim, hread]
  simp [bind, Except.bind]

theorem triggersToString_interval (secs : UInt64) :
    ∃ unit factor, (unit, factor) ∈ [('h', 3600), ('m', 60), ('s', 1)] ∧ factor ∣ secs.toNat ∧
      (triggersToString [.interval secs]).1 =
        String.ofList (Nat.toDigits 10 (secs.toNat / factor) ++ [unit]) := by
  have htext : ∀ (n : UInt64) (unit : Char), toString n ++ String.singleton unit =
      String.ofList (Nat.toDigits 10 n.toNat ++ [unit]) := by
    intro n unit
    rw [String.ofList_append, ← Nat.toList_repr, String.ofList_toList]
    rfl
  have hdvd : ∀ k : UInt64, secs % k = 0 → k.toNat ∣ secs.toNat := by
    intro k hk
    rw [← UInt64.toNat_inj, UInt64.toNat_mod] at hk
    exact Nat.dvd_of_mod_eq_zero hk
  dsimp only [triggersToString]
  split_ifs with hhours hminutes
  · exact ⟨'h', 3600, by simp, hdvd 3600 hhours, htext (secs / 3600) 'h'⟩
  · exact ⟨'m', 60, by simp, hdvd 60 hminutes, htext (secs / 60) 'm'⟩
  · exact ⟨'s', 1, by simp, one_dvd _, by rw [Nat.div_one]; exact htext secs 's'⟩

/-- **Imported intervals are read back**: the text that stands for an interval is read as that interval, and
the product of the number and the unit in it does not overflow. -/
theorem imported_interval_reads_back (hlib : KeepsSmall lib) (secs : UInt64) :
    parseTrigger lib (triggersToString [.interval secs]).1 = .ok (.interval secs) ∧
      ∃ n factor, intervalLiteral lib (triggersToString [.interval secs]).1.toList = some (n, factor) ∧
        n * factor = secs.toNat := by
  have hread : ∀ unit factor, (unit, factor) ∈ [('h', 3600), ('m', 60), ('s', 1)] → factor ∣ secs.toNat →
      parseTrigger lib (String.ofList (Nat.toDigits 10 (secs.toNat / factor) ++ [unit])) =
        .ok (.interval secs) := by
    intro unit factor hunit hdvd
    have hproduct : (secs.toNat / factor).toUInt64 * factor.toUInt64 = secs := by
      rw [← UInt64.toNat_inj, Policy.toNat_toUInt64_mul, Nat.div_mul_cancel hdvd, Nat.mod_eq_of_lt secs.toNat_lt]
    rw [parseTrigger_repr hlib hunit ((Nat.div_le_self _ _).trans_lt secs.toNat_lt), hproduct]
  obtain ⟨unit, factor, hunit, hdvd, htext⟩ := triggersToString_interval secs
  rw [htext, String.toList_ofList, intervalLiteral_repr hlib hunit]
  exact ⟨hread unit factor hunit hdvd, _, _, rfl, Nat.div_mul_cancel hdvd⟩

/-- Ninety seconds are written in seconds. -/
theorem ninety_seconds_read_back :
    (triggersToString [.interval 90]).1 = "90s" ∧
      parseTrigger Policy.Sample.ascii (triggersToString [.interval 90]).1 = .ok (.interval 90) := by
  refine ⟨by decide +kernel, (imported_interval_reads_back ?_ 90).1⟩
  intro s hs
  have hlower : ∀ c ∈ s.toList, c.toLower = c := by
    intro c hc
    rcases hs c hc with hdigit | hunit
    · simp only [Char.isDigit, Bool.and_eq_true, decide_eq_true_eq, UInt32.le_iff_toNat_le, ge_iff_le] at hdigit
      have hnine : '9'.val.toNat = 57 := rfl
      have hA : 'A'.val.toNat = 65 := rfl
      rw [Char.toLower, dif_neg]
      simp only [UInt32.le_iff_toNat_le, ge_iff_le]
      omega
    · simp only [List.mem_cons, List.not_mem_nil, or_false] at hunit
      rcases hunit with rfl | rfl | rfl <;> rfl
  show s.map Char.toLower = s
  rw [← String.toList_inj, String.toList_map, List.map_congr_left hlower, List.map_id']

end Interval

end Robinhood.ConfigImport
