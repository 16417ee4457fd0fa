/-
# Policy.Trigger — what a trigger's text spells

`parse_trigger` tries three grammars in turn: a number with a unit, `cron:` with an expression, and a measure
with a bound.  The first one takes every text that ends in one of its units, lower-cased, whatever stands
before it.  So `cron:0 0 2 * * Thurs` is an interval without a number.

The numbers are read in 64 bits and multiplied by their units in 64 bits, and a product that is too large
wraps.  `triggerLiteral` reads the same texts without a bound; what the parser makes of them is the product
modulo `2 ^ 64`.
-/
import Mathlib
import Robinhood.Lib.Text
import Robinhood.Policy.Reconcile

namespace Robinhood.Policy

open Lib
open Predicate (TextLibrary)

/-! ## §1 — units -/

section Units

variable {α β : Type}

theorem stripSuffix_eq_none {suffix cs : List Char} : stripSuffix suffix cs = none ↔ ¬ suffix <:+ cs := by
  unfold stripSuffix
  split <;> simp_all

theorem unitOf_eq_none {units : List (String × α)} {cs : List Char} :
    unitOf units cs = none ↔ ∀ unit ∈ units, ¬ unit.1.toList <:+ cs := by
  simp only [unitOf, List.findSome?_eq_none_iff, Option.map_eq_none_iff, stripSuffix_eq_none]

theorem unitOf_map (f : α → β) (units : List (String × α)) (cs : List Char) :
    unitOf (units.map fun unit => (unit.1, f unit.2)) cs =
      (unitOf units cs).map fun read => (read.1, f read.2) := by
  induction units with
  | nil => rfl
  | cons unit units ih =>
    obtain ⟨name, factor⟩ := unit
    rw [unitOf, unitOf] at ih
    rw [unitOf, unitOf, List.map_cons, List.findSome?_cons, List.findSome?_cons, ih]
    cases h : stripSuffix name.toList cs <;> simp [h]

end Units

/-! ## §2 — cron -/

def cronExpression (expr : List Char) : String :=
  if (splitWhitespace expr).length = 5 then "0 " ++ String.ofList expr else String.ofList expr

/-- A text that starts with `cron:` after white space, trimmed. -/
theorem trimSpace_cron {ws expr : List Char} (hws : ∀ c ∈ ws, isSpace c = true)
    (hexpr : ∃ c ∈ expr, isSpace c = false) :
    ∃ rest, trimSpace (ws ++ ("cron:".toList ++ expr)) = "cron:".toList ++ rest ∧
      trimSpace rest = trimSpace expr := by
  obtain ⟨pre, post, hpad, hpre, hpost⟩ := exists_pad isSpace expr
  have hne : trim isSpace expr ≠ [] := trim_ne_nil hexpr
  refine ⟨pre ++ trim isSpace expr, ?_, ?_⟩
  · calc trim isSpace (ws ++ ("cron:".toList ++ expr))
        = trim isSpace ("cron:".toList ++ expr) := trim_append_left hws
      _ = trim isSpace ("cron:".toList ++ (pre ++ trim isSpace expr) ++ post) := by
          rw [List.append_assoc, ← hpad]
      _ = trim isSpace ("cron:".toList ++ (pre ++ trim isSpace expr)) := trim_append_right hpost
      _ = "cron:".toList ++ (pre ++ trim isSpace expr) := by
          apply trim_eq_self
          · intro c hc
            obtain rfl : 'c' = c := by simpa using hc
            decide
          · intro c hc
            -- the last character is the last one of the trimmed expression
            rw [← List.append_assoc, List.getLast?_append_of_ne_nil _ hne] at hc
            exact getLast_trim c hc
  · calc trim isSpace (pre ++ trim isSpace expr) = trim isSpace (trim isSpace expr) := trim_append_left hpre
      _ = trim isSpace expr := trim_trim

section Cron

variable {lib : TextLibrary} {s : List Char}

theorem tryParseInterval_of_unitless
    (h : ∀ unit ∈ ["h", "m", "s"], ¬ unit.toList <:+ (lib.toLowercase (String.ofList s)).toList) :
    tryParseInterval lib s = .ok none := by
  have hnone : unitOf [("h", (3600 : UInt64)), ("m", 60), ("s", 1)]
      (lib.toLowercase (String.ofList s)).toList = none := by
    rw [unitOf_eq_none]
    simpa using h
  rw [tryParseInterval, hnone]

theorem tryParseInterval_of_unit
    (h : ¬ ∀ unit ∈ ["h", "m", "s"], ¬ unit.toList <:+ (lib.toLowercase (String.ofList s)).toList) :
    (∃ e, tryParseInterval lib s = .error e) ∨ ∃ secs, tryParseInterval lib s = .ok (some (.interval secs)) := by
  have hsome : unitOf [("h", (3600 : UInt64)), ("m", 60), ("s", 1)]
      (lib.toLowercase (String.ofList s)).toList ≠ none := by
    rw [Ne, unitOf_eq_none]
    simpa using h
  obtain ⟨⟨digits, mult⟩, hunit⟩ := Option.ne_none_iff_exists'.1 hsome
  cases hn : parseUnsigned 64 (trimSpace digits) with
  | none =>
    left
    simp only [tryParseInterval, hunit, hn]
    exact ⟨_, rfl⟩
  | some =>
    right
    simp only [tryParseInterval, hunit, hn]
    exact ⟨_, rfl⟩

end Cron

/-- **A cron trigger is read as one exactly when it does not end in a unit of intervals**, lower-cased: an
`h`, an `m` or an `s`. -/
theorem cron_trigger_iff (lib : TextLibrary) {ws expr : List Char} (hws : ∀ c ∈ ws, isSpace c = true)
    (hexpr : ∃ c ∈ expr, isSpace c = false) :
    parseTrigger lib (String.ofList (ws ++ ("cron:".toList ++ expr))) =
        .ok (.cron (cronExpression (trimSpace expr))) ↔
      ∀ unit ∈ ["h", "m", "s"], ¬ unit.toList <:+
        (lib.toLowercase (String.ofList (trimSpace (ws ++ ("cron:".toList ++ expr))))).toList := by
  obtain ⟨rest, htrim, hrest⟩ := trimSpace_cron hws hexpr
  have hne : trimSpace rest ≠ [] := by
    rw [hrest]
    exact trim_ne_nil hexpr
  have hdrop : ("cron:".toList ++ rest).drop 5 = rest := rfl
  rw [parseTrigger, String.toList_ofList, htrim]
  constructor
  · intro hparse
    by_contra hunit
    obtain ⟨e, he⟩ | ⟨secs, hsecs⟩ := tryParseInterval_of_unit hunit
    · rw [he] at hparse
      simp [bind, Except.bind] at hparse
    · rw [hsecs] at hparse
      simp [bind, Except.bind] at hparse
  · intro hunitless
    rw [tryParseInterval_of_unitless hunitless, cronExpression, ← hrest]
    have hfull : "cron:".toList ++ rest ≠ [] := by simp
    simp only [bind, Except.bind, List.prefix_append, if_true, hdrop, if_neg hne, if_neg hfull]
    split <;> rfl

/-- Twice an hour, written with white space around it. -/
theorem half_hours_read_as_cron :
    parseTrigger Sample.ascii (String.ofList (" ".toList ++ ("cron:".toList ++ " */30 * * * * ".toList))) =
        .ok (.cron (cronExpression (trimSpace " */30 * * * * ".toList))) ∧
      cronExpression (trimSpace " */30 * * * * ".toList) = "0 */30 * * * *" :=
  ⟨(cron_trigger_iff Sample.ascii (by simp [isSpace]) ⟨'*', by decide +kernel⟩).2 (by decide +kernel),
    by decide +kernel⟩

/-- **A schedule for Thursdays is refused**, as an interval whose number is not one. -/
theorem thursdays_refused :
    parseTrigger Sample.ascii "cron:0 0 2 * * Thurs" = .error (.badNumber "cron:0 0 2 * * Thurs") ∧
      cronExpression "0 0 2 * * Thurs".toList = "0 0 2 * * Thurs" := by
  decide +kernel

/-! ## §3 — numbers and units, without a bound -/

/-- The number a text of digits stands for; a plus sign may come first. -/
def naturalValue (cs : List Char) : Option ℕ :=
  let digits := match cs with
    | '+' :: ds => ds
    | ds => ds
  if digits = [] then none else parseDigits digits

theorem parseUnsigned_eq (bits : ℕ) (cs : List Char) :
    parseUnsigned bits cs = (naturalValue cs).filter fun n => n < 2 ^ bits := by
  have hfilter : ∀ digits : List Char, (if digits = [] then none else (parseDigits digits).filter
      fun n => n < 2 ^ bits) = (if digits = [] then none else parseDigits digits).filter
      fun n => n < 2 ^ bits := by
    intro digits
    split <;> rfl
  exact hfilter _

theorem parseUnsigned_eq_some {bits n : ℕ} {cs : List Char} :
    parseUnsigned bits cs = some n ↔ naturalValue cs = some n ∧ n < 2 ^ bits := by
  simp [parseUnsigned_eq, Option.filter_eq_some_iff]

def intervalLiteral (lib : TextLibrary) (s : List Char) : Option (ℕ × ℕ) :=
  (unitOf [("h", 3600), ("m", 60), ("s", 1)] (lib.toLowercase (String.ofList s)).toList).bind
    fun (digits, unit) => (naturalValue (trimSpace digits)).map fun n => (n, unit)

def sizeLiteral (lib : TextLibrary) (s : List Char) : Option (ℕ × ℕ) :=
  let upper := (lib.toUppercase (String.ofList (trimSpace s))).toList
  let (digits, unit) := (unitOf [("TB", 2 ^ 40), ("GB", 2 ^ 30), ("MB", 2 ^ 20), ("KB", 2 ^ 10)] upper).getD
    (upper, 1)
  (naturalValue (trimSpace digits)).map fun n => (n, unit)

/-- The number of a percentage. -/
def pctLiteral (s : List Char) : Option (ℕ × ℕ) :=
  (naturalValue (trimSpace ((trimSpace s).reverse.dropWhile (· = '%')).reverse)).map fun n => (n, 1)

def thresholdLiteral (lib : TextLibrary) (s : List Char) : Option (ℕ × ℕ) :=
  match splitAtFirst ['>'] s with
  | none => none
  | some (lhs, rhs) =>
    match lib.toLowercase (String.ofList (trimSpace lhs)) with
    | "fs" => pctLiteral (trimSpace rhs)
    | "ost" => pctLiteral (trimSpace rhs)
    | "count" => (naturalValue (trimSpace rhs)).map fun n => (n, 1)
    | "volume" => sizeLiteral lib (trimSpace rhs)
    | _ => none

/-- **The number and the unit a trigger's text spells.** -/
def triggerLiteral (lib : TextLibrary) (text : String) : Option (ℕ × ℕ) :=
  let s := trimSpace text.toList
  if s = [] then none
  else if ∀ unit ∈ ["h", "m", "s"], ¬ unit.toList <:+ (lib.toLowercase (String.ofList s)).toList then
    if "cron:".toList <+: s then none else thresholdLiteral lib s
  else intervalLiteral lib s

def Threshold.high : Threshold → ℕ
  | count highCount => highCount.toNat
  | volume highBytes => highBytes.toNat
  | ostPct highPct => highPct.toNat
  | fsPct highPct => highPct.toNat

def TriggerSpec.value : TriggerSpec → Option ℕ
  | interval secs => some secs.toNat
  | threshold measure => some measure.high
  | _ => none

/-! ## §4 — the parsers compute the products modulo `2 ^ 64` -/

section Literals

variable {lib : TextLibrary} {s orig : List Char} {text : String} {spec : TriggerSpec} {n k : ℕ}

theorem toNat_toUInt64_mul (n k : ℕ) : (n.toUInt64 * k.toUInt64).toNat = n * k % 2 ^ 64 := by
  simp [UInt64.toNat_mul]

theorem product_eq_ok {ε β : Type} {digits : List Char} {unit : ℕ} {fail : ε} {g : UInt64 → β} {r : β} :
    ((match parseUnsigned 64 digits with
      | none => .error fail
      | some n => .ok (g (n.toUInt64 * unit.toUInt64)) : Except ε β) = .ok r) ↔
      ∃ n k, (naturalValue digits).map (fun n => (n, unit)) = some (n, k) ∧ n < 2 ^ 64 ∧
        r = g (n.toUInt64 * k.toUInt64) := by
  cases hn : parseUnsigned 64 digits with
  | none =>
    constructor
    · rintro ⟨⟩
    · rintro ⟨n, k, hlit, hlt, -⟩
      obtain ⟨m, hm, hpair⟩ := Option.map_eq_some_iff.1 hlit
      cases hpair
      rw [parseUnsigned_eq_some.2 ⟨hm, hlt⟩] at hn
      cases hn
  | some n =>
    obtain ⟨hval, hlt⟩ := parseUnsigned_eq_some.1 hn
    rw [hval]
    constructor
    · rintro ⟨⟩
      exact ⟨n, unit, rfl, hlt, rfl⟩
    · rintro ⟨n', k, hpair, -, rfl⟩
      cases hpair
      rfl

theorem tryParseInterval_eq_some :
    tryParseInterval lib s = .ok (some spec) ↔
      ∃ n k, intervalLiteral lib s = some (n, k) ∧ n < 2 ^ 64 ∧
        spec = .interval (n.toUInt64 * k.toUInt64) := by
  have hunits : unitOf [("h", (3600 : UInt64)), ("m", 60), ("s", 1)]
      (lib.toLowercase (String.ofList s)).toList = _ :=
    unitOf_map Nat.toUInt64 [("h", 3600), ("m", 60), ("s", 1)] _
  rw [tryParseInterval, intervalLiteral, hunits]
  cases unitOf [("h", 3600), ("m", 60), ("s", 1)] (lib.toLowercase (String.ofList s)).toList with
  | none => simp
  | some read =>
    have hread := @product_eq_ok _ _ (trimSpace read.1) read.2 (TriggerParseError.badNumber (String.ofList s))
      (fun secs => some (TriggerSpec.interval secs)) (some spec)
    simp only [Option.some.injEq] at hread
    exact hread

theorem parseSize_eq_ok {bytes : UInt64} :
    parseSize lib s orig = .ok bytes ↔
      ∃ n k, sizeLiteral lib s = some (n, k) ∧ n < 2 ^ 64 ∧ bytes = n.toUInt64 * k.toUInt64 := by
  have hfactors : [("TB", (1 : UInt64) <<< 40), ("GB", (1 : UInt64) <<< 30), ("MB", (1 : UInt64) <<< 20),
      ("KB", (1 : UInt64) <<< 10)] =
      [("TB", 2 ^ 40), ("GB", 2 ^ 30), ("MB", 2 ^ 20), ("KB", 2 ^ 10)].map
        fun unit => (unit.1, Nat.toUInt64 unit.2) := by decide
  rw [parseSize, sizeLiteral, hfactors, unitOf_map]
  cases unitOf [("TB", 2 ^ 40), ("GB", 2 ^ 30), ("MB", 2 ^ 20), ("KB", 2 ^ 10)]
      (lib.toUppercase (String.ofList (trimSpace s))).toList with
  | none => exact product_eq_ok (g := fun bytes => bytes)
  | some => exact product_eq_ok (g := fun bytes => bytes)

theorem parsePct_ok {pct : UInt32} (h : parsePct s orig = .ok pct) :
    ∃ n, pctLiteral s = some (n, 1) ∧ n < 2 ^ 32 ∧ pct.toNat = n := by
  unfold parsePct at h
  dsimp only at h
  split at h
  · cases h
  · next n hn =>
    obtain ⟨hval, hlt⟩ := parseUnsigned_eq_some.1 hn
    refine ⟨n, by rw [pctLiteral, hval]; rfl, hlt, ?_⟩
    split at h
    · cases h
    · cases h
      exact Nat.mod_eq_of_lt hlt

theorem tryParseThreshold_ok (h : tryParseThreshold lib s = .ok (some spec)) :
    ∃ n k, thresholdLiteral lib s = some (n, k) ∧ n < 2 ^ 64 ∧ spec.value = some (n * k % 2 ^ 64) := by
  unfold tryParseThreshold at h
  unfold thresholdLiteral
  cases hsplit : splitAtFirst ['>'] s with
  | none => rw [hsplit] at h; cases h
  | some parts =>
  obtain ⟨lhs, rhs⟩ := parts
  rw [hsplit] at h
  have hpct : ∀ measure : UInt32 → Threshold, (∀ pct, (measure pct).high = pct.toNat) →
      (parsePct (trimSpace rhs) s).map (fun pct => some (TriggerSpec.threshold (measure pct))) = .ok (some spec) →
      ∃ n k, pctLiteral (trimSpace rhs) = some (n, k) ∧ n < 2 ^ 64 ∧ spec.value = some (n * k % 2 ^ 64) := by
    intro measure hhigh hmap
    cases hpct : parsePct (trimSpace rhs) s with
    | error => rw [hpct] at hmap; cases hmap
    | ok =>
      rw [hpct] at hmap
      cases hmap
      obtain ⟨n, hlit, hlt, hn⟩ := parsePct_ok hpct
      refine ⟨n, 1, hlit, by omega, ?_⟩
      rw [TriggerSpec.value, hhigh, hn, Nat.mul_one, Nat.mod_eq_of_lt (by omega)]
  dsimp only at h ⊢
  generalize lib.toLowercase (String.ofList (trimSpace lhs)) = word at h ⊢
  split at h
  · exact hpct .fsPct (fun _ => rfl) h
  · exact hpct .ostPct (fun _ => rfl) h
  · split at h
    · cases h
    · next n hn =>
      cases h
      obtain ⟨hval, hlt⟩ := parseUnsigned_eq_some.1 hn
      refine ⟨n, 1, by rw [hval]; rfl, hlt, ?_⟩
      rw [Nat.mul_one]
      rfl
  · cases hsize : parseSize lib (trimSpace rhs) s with
    | error => rw [hsize] at h; cases h
    | ok =>
      rw [hsize] at h
      cases h
      obtain ⟨n, k, hlit, hlt, rfl⟩ := parseSize_eq_ok.1 hsize
      exact ⟨n, k, hlit, hlt, congrArg some (toNat_toUInt64_mul n k)⟩
  · cases h

theorem tryParseThreshold_of_literal (h : thresholdLiteral lib s = some (n, k)) (hn : n < 2 ^ 64) :
    k = 1 ∨ ∃ spec, tryParseThreshold lib s = .ok (some spec) := by
  unfold thresholdLiteral at h
  unfold tryParseThreshold
  cases hsplit : splitAtFirst ['>'] s with
  | none => rw [hsplit] at h; cases h
  | some parts =>
  obtain ⟨lhs, rhs⟩ := parts
  rw [hsplit] at h
  have hpct : ∀ cs, pctLiteral cs = some (n, k) → k = 1 := by
    intro cs hlit
    obtain ⟨m, -, hpair⟩ := Option.map_eq_some_iff.1 hlit
    cases hpair
    rfl
  dsimp only at h ⊢
  generalize lib.toLowercase (String.ofList (trimSpace lhs)) = word at h ⊢
  split at h
  · exact .inl (hpct _ h)
  · exact .inl (hpct _ h)
  · obtain ⟨m, -, hpair⟩ := Option.map_eq_some_iff.1 h
    cases hpair
    exact .inl rfl
  · right
    rw [parseSize_eq_ok.2 ⟨n, k, h, hn, rfl⟩]
    exact ⟨_, rfl⟩
  · cases h

/-- **What is accepted is the product modulo `2 ^ 64`**, of a number that fits. -/
theorem parseTrigger_ok (h : parseTrigger lib text = .ok spec) :
    spec.value = (triggerLiteral lib text).map (fun l => l.1 * l.2 % 2 ^ 64) ∧
      ∀ l ∈ triggerLiteral lib text, l.1 < 2 ^ 64 := by
  rw [parseTrigger] at h
  split at h
  · cases h
  next hfull =>
  rw [triggerLiteral, if_neg hfull]
  split
  · next hunitless =>
    rw [tryParseInterval_of_unitless hunitless] at h
    split
    · next hcron =>
      simp only [bind, Except.bind, if_pos hcron] at h
      have hnone : spec.value = none := by
        split at h
        · cases h
        · split at h <;> cases h <;> rfl
      exact ⟨hnone, by rintro _ ⟨⟩⟩
    · next hcron =>
      simp only [bind, Except.bind, if_neg hcron] at h
      split at h
      · cases h
      next result hresult =>
      split at h
      · cases h
        obtain ⟨n, k, hlit, hlt, hvalue⟩ := tryParseThreshold_ok hresult
        rw [hlit, hvalue]
        exact ⟨rfl, by rintro _ ⟨⟩; exact hlt⟩
      · cases h
  · next hunit =>
    obtain ⟨e, he⟩ | ⟨secs, hsecs⟩ := tryParseInterval_of_unit hunit
    · rw [he] at h
      cases h
    · rw [hsecs] at h
      cases h
      obtain ⟨n, k, hlit, hlt, hinterval⟩ := tryParseInterval_eq_some.1 hsecs
      cases hinterval
      rw [hlit]
      exact ⟨congrArg some (toNat_toUInt64_mul n k), by rintro _ ⟨⟩; exact hlt⟩

theorem parseTrigger_of_literal (h : triggerLiteral lib text = some (n, k)) (hn : n < 2 ^ 64) :
    k = 1 ∨ ∃ spec, parseTrigger lib text = .ok spec := by
  rw [triggerLiteral] at h
  split at h
  · cases h
  next hfull =>
  rw [parseTrigger, if_neg hfull]
  split at h
  · next hunitless =>
    split at h
    · cases h
    · next hcron =>
      rw [tryParseInterval_of_unitless hunitless]
      obtain hone | ⟨spec, hspec⟩ := tryParseThreshold_of_literal h hn
      · exact .inl hone
      · right
        refine ⟨spec, ?_⟩
        simp only [bind, Except.bind, if_neg hcron, hspec]
  · right
    rw [tryParseInterval_eq_some.2 ⟨n, k, h, hn, rfl⟩]
    exact ⟨_, rfl⟩

/-! ## §5 — exact triggers -/

/-- **The number in the trigger is the one its text spells**: a trigger that is accepted has exactly the
product, a product that is too large is refused, and the multiplication does not wrap. -/
structure ExactTrigger (lib : TextLibrary) (text : String) : Prop where
  value : ∀ spec, parseTrigger lib text = .ok spec →
    spec.value = (triggerLiteral lib text).map fun l => l.1 * l.2
  refused : ∀ l ∈ triggerLiteral lib text, 2 ^ 64 ≤ l.1 * l.2 → ∀ spec, parseTrigger lib text ≠ .ok spec
  noWrap : ∀ l ∈ triggerLiteral lib text, l.1 < 2 ^ 64 →
    (l.1.toUInt64 * l.2.toUInt64).toNat = l.1 * l.2

/-- A number that fits in 64 bits does so multiplied by its unit as well. -/
def FitsTrigger (lib : TextLibrary) (text : String) : Prop :=
  ∀ l ∈ triggerLiteral lib text, l.1 < 2 ^ 64 → l.1 * l.2 < 2 ^ 64

theorem exactTrigger_iff : ExactTrigger lib text ↔ FitsTrigger lib text := by
  constructor
  · rintro hexact ⟨n, k⟩ hl hlt
    obtain rfl | ⟨spec, hspec⟩ := parseTrigger_of_literal hl hlt
    · simpa using hlt
    · -- the value that is read is below the bound, and it is the product
      have hread := hexact.value spec hspec
      have hl : triggerLiteral lib text = some (n, k) := hl
      rw [(parseTrigger_ok hspec).1, hl] at hread
      have hmod : n * k % 2 ^ 64 = n * k := Option.some.inj hread
      rw [← hmod]
      exact Nat.mod_lt _ (by decide)
  · intro hfits
    refine ⟨fun spec hspec => ?_, fun l hl hle spec hspec => ?_, fun l hl hlt => ?_⟩
    · obtain ⟨hvalue, hnumber⟩ := parseTrigger_ok hspec
      rw [hvalue]
      apply Option.map_congr
      intro l hl
      exact Nat.mod_eq_of_lt (hfits l hl (hnumber l hl))
    · have hlt := hfits l hl ((parseTrigger_ok hspec).2 l hl)
      omega
    · rw [toNat_toUInt64_mul]
      exact Nat.mod_eq_of_lt (hfits l hl hlt)

end Literals

end Robinhood.Policy
