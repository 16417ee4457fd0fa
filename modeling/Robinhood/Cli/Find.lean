/-
# Cli.Find — the query of `rbh find`

`build_query` turns the options of the command line into a predicate and a sort key.  A size or a time is a
sign, a decimal number and a unit of one letter; the number is read after the sign has been taken off, so it
may bring a sign of its own.  Times count back from now, which turns the comparison round.

`Quantity` is the grammar of these arguments, with the number each of them stands for.  The options are
accepted exactly if every one of them is well formed and its number fits.
-/
import Mathlib
import Robinhood.Policy.Conditions
import Robinhood.Predicate.Query

namespace Robinhood.Cli

open Store
open Lib (parseInt checkedMul)
open Predicate (TextLibrary Field CmpOp Value SortKey OrderDir matchesEntry likeMatch cmpOrd)
open Policy (FitsI64 FieldsFit Compares decimalValue parseInt_eq_some cmpOrd_iff)

/-! ## §1 — the arguments -/

/-- `FindArgs`: the options that `build_query` reads. -/
structure FindArgs where
  user : Option UInt32 := none
  group : Option UInt32 := none
  projid : Option UInt32 := none
  pool : Option String := none
  type : Option Char := none
  name : Option String := none
  size : Option String := none
  hsmState : Option String := none
  mtime : Option String := none
  atime : Option String := none
  ctime : Option String := none
  sort : Option String := none
  desc : Bool := false

/-- Why an argument is refused, with the text the message quotes. -/
inductive FindError
  | invalidType (c : Char)
  | emptyNumber
  | notAnInteger (numPart : List Char)
  | unknownSizeUnit (c : Char)
  | unknownTimeUnit (c : Char)
  | sizeOverflow (s : String)
  | timeOverflow (s : String)
  | unknownSortField (name : String)
  deriving DecidableEq, Repr

def eqNum (field : Field) (n : Int64) : Predicate := .cmp field .eq (.num n)

def typeCharToKind (c : Char) : Except FindError UInt8 :=
  match c with
  | 'f' => .ok 0
  | 'd' => .ok 1
  | 'l' => .ok 2
  | 'c' => .ok 3
  | 'b' => .ok 4
  | 'p' => .ok 5
  | 's' => .ok 6
  | _ => .error (.invalidType c)

def splitSign (s : List Char) : CmpOp × List Char :=
  match s with
  | '+' :: rest => (.gt, rest)
  | '-' :: rest => (.lt, rest)
  | s => (.eq, s)

/-- The last letter is the unit; `_` stands for none. -/
def splitUnit (s : List Char) : List Char × Char :=
  match s.getLast? with
  | some c => if c.isAlpha then (s.dropLast, c) else (s, '_')
  | none => (s, '_')

def splitNumberUnit (s : List Char) : Except FindError (Int64 × Char) :=
  if s = [] then .error .emptyNumber else
    match parseInt (splitUnit s).1 with
    | some num => .ok (num, (splitUnit s).2)
    | none => .error (.notAnInteger (splitUnit s).1)

def sizeUnitMultiplier (c : Char) : Except FindError Int64 :=
  match c.toUpper with
  | '_' | 'B' => .ok 1
  | 'K' => .ok 1024
  | 'M' => .ok (1024 * 1024)
  | 'G' => .ok (1024 * 1024 * 1024)
  | 'T' => .ok (1024 * 1024 * 1024 * 1024)
  | other => .error (.unknownSizeUnit other)

def timeUnitSeconds (c : Char) : Except FindError Int64 :=
  match c with
  | '_' | 'd' => .ok 86400
  | 'h' => .ok 3600
  | 'm' => .ok 60
  | 's' => .ok 1
  | 'y' => .ok (365 * 86400)
  | other => .error (.unknownTimeUnit other)

def amount (units : Char → Except FindError Int64) (overflow : FindError) (body : List Char) :
    Except FindError Int64 := do
  let (num, unit) ← splitNumberUnit body
  let factor ← units unit
  match checkedMul num factor with
  | some product => .ok product
  | none => .error overflow

def parseSizeFilter (s : String) : Except FindError Predicate := do
  let (cmp, body) := splitSign s.toList
  let bytes ← amount sizeUnitMultiplier (.sizeOverflow s) body
  .ok (.cmp .size cmp (.num bytes))

/-- A later time is a larger number, so the sign is turned round. -/
def timeCmp : CmpOp → CmpOp
  | .gt => .lt
  | .lt => .gt
  | _ => .le

def parseTimeFilter (field : Field) (s : String) (now : Int64) : Except FindError Predicate := do
  let (signCmp, body) := splitSign s.toList
  let secs ← amount timeUnitSeconds (.timeOverflow s) body
  .ok (.cmp field (timeCmp signCmp) (.num (now - secs)))

def parseSortField (name : String) : Except FindError Field :=
  match name with
  | "size" => .ok .size
  | "mtime" => .ok .mtime
  | "atime" => .ok .atime
  | "ctime" => .ok .ctime
  | "uid" => .ok .uid
  | "gid" => .ok .gid
  | "nlink" => .ok .nlink
  | other => .error (.unknownSortField other)

namespace FindArgs

/-- The predicates `build_query` pushes, one for each option given, in its order. -/
def filters (args : FindArgs) (now : Int64) : List (Except FindError Predicate) :=
  [args.user.map fun uid => .ok (eqNum .uid (Int64.ofNat uid.toNat)),
   args.group.map fun gid => .ok (eqNum .gid (Int64.ofNat gid.toNat)),
   args.projid.map fun pid => .ok (eqNum .projid (Int64.ofNat pid.toNat)),
   args.pool.map fun pool => .ok (.inPool pool),
   args.type.map fun c => (typeCharToKind c).map fun kind => eqNum .kind (Int64.ofNat kind.toNat),
   args.name.map fun pattern => .ok (.nameLike pattern),
   args.size.map parseSizeFilter,
   args.hsmState.map fun state => .ok (.hsmStateEq state),
   args.mtime.map fun t => parseTimeFilter .mtime t now,
   args.atime.map fun t => parseTimeFilter .atime t now,
   args.ctime.map fun t => parseTimeFilter .ctime t now].reduceOption

def orderBy (args : FindArgs) : Except FindError (List SortKey) :=
  match args.sort with
  | some name => (parseSortField name).map fun field => [⟨field, if args.desc then .desc else .asc⟩]
  | none => .ok []

end FindArgs

def conjoin : List Predicate → Predicate
  | [] => .true
  | [p] => p
  | preds => .and preds

def buildQuery (args : FindArgs) (now : Int64) : Except FindError (Predicate × List SortKey) := do
  let preds ← (args.filters now).mapM id
  let orderBy ← args.orderBy
  .ok (conjoin preds, orderBy)

/-! ## §2 — the grammar of sizes and times -/

section
variable (units : Char → Except FindError Int64)

/-- **A number and a unit**, and their product. -/
inductive Amount : List Char → ℤ → Prop
  | plain {ds : List Char} {v : ℤ} {factor : Int64} : decimalValue ds = some v → units '_' = .ok factor →
      Amount ds (v * factor.toInt)
  | withUnit {ds : List Char} {v : ℤ} {c : Char} {factor : Int64} : decimalValue ds = some v →
      c.isAlpha = true → units c = .ok factor → Amount (ds ++ [c]) (v * factor.toInt)

/-- **A sign and an amount.**  Only the first sign says how to compare. -/
inductive Quantity : List Char → CmpOp → ℤ → Prop
  | more {s : List Char} {n : ℤ} : Amount units s n → Quantity ('+' :: s) .gt n
  | less {s : List Char} {n : ℤ} : Amount units s n → Quantity ('-' :: s) .lt n
  | bare {s : List Char} {n : ℤ} : s.head? ≠ some '+' → s.head? ≠ some '-' → Amount units s n →
      Quantity s .eq n

end

theorem splitUnit_concat {ds : List Char} {c : Char} (hc : c.isAlpha = true) :
    splitUnit (ds ++ [c]) = (ds, c) := by
  simp [splitUnit, hc]

theorem isDigit_eq_false_of_isAlpha {c : Char} (hc : c.isAlpha = true) :
    c ∉ "+-".toList ∧ c.isDigit = false := by
  constructor
  · intro hmem
    have hsign : c = '+' ∨ c = '-' := by simpa using hmem
    rcases hsign with rfl | rfl <;> exact absurd hc (by decide)
  · simp only [Char.isAlpha, Char.isUpper, Char.isLower, Char.isDigit, Bool.or_eq_true, Bool.and_eq_true,
      decide_eq_true_eq, Bool.and_eq_false_iff, decide_eq_false_iff_not] at hc ⊢
    grind

theorem splitUnit_decimal {ds : List Char} {v : ℤ} (h : decimalValue ds = some v) :
    splitUnit ds = (ds, '_') := by
  unfold splitUnit
  cases hlast : ds.getLast? with
  | none => rfl
  | some c =>
    have hc : ¬c.isAlpha = true := by
      intro hc
      have hnone := Policy.decimalValue_eq_none (List.mem_of_getLast? hlast) (isDigit_eq_false_of_isAlpha hc)
      rw [hnone] at h
      cases h
    simp [hc]

theorem splitUnit_cases (s : List Char) :
    splitUnit s = (s, '_') ∨ ∃ ds c, s = ds ++ [c] ∧ c.isAlpha = true ∧ splitUnit s = (ds, c) := by
  rcases List.eq_nil_or_concat s with rfl | ⟨ds, c, rfl⟩
  · exact .inl rfl
  · by_cases hc : c.isAlpha = true
    · exact .inr ⟨ds, c, by simp, hc, by simp [splitUnit, hc]⟩
    · exact .inl (by simp [splitUnit, hc])

variable {units : Char → Except FindError Int64}

theorem amount_iff_split {s : List Char} {n : ℤ} :
    Amount units s n ↔ ∃ v factor, decimalValue (splitUnit s).1 = some v ∧
      units (splitUnit s).2 = .ok factor ∧ n = v * factor.toInt := by
  constructor
  · rintro (⟨hv, hunit⟩ | ⟨hv, hc, hunit⟩)
    · rw [splitUnit_decimal hv]
      exact ⟨_, _, hv, hunit, rfl⟩
    · rw [splitUnit_concat hc]
      exact ⟨_, _, hv, hunit, rfl⟩
  · rintro ⟨v, factor, hv, hunit, rfl⟩
    rcases splitUnit_cases s with hs | ⟨ds, c, rfl, hc, hs⟩
    · rw [hs] at hv hunit
      exact .plain hv hunit
    · rw [hs] at hv hunit
      exact .withUnit hv hc hunit

theorem splitNumberUnit_eq_ok {s : List Char} {num : Int64} {unit : Char} :
    splitNumberUnit s = .ok (num, unit) ↔
      decimalValue (splitUnit s).1 = some num.toInt ∧ (splitUnit s).2 = unit := by
  rw [← parseInt_eq_some, splitNumberUnit]
  split
  · next hs =>
    subst hs
    simp [splitUnit, parseInt]
  · cases hnum : parseInt (splitUnit s).1 <;> simp

theorem checkedMul_eq_some {a b c : Int64} : checkedMul a b = some c ↔ a.toInt * b.toInt = c.toInt := by
  simp only [checkedMul]
  split
  · next hfits =>
    rw [Option.some.injEq, ← Int64.toInt_inj, Int64.toInt_ofInt_of_le hfits.1 hfits.2]
  · next hfits =>
    constructor
    · rintro ⟨⟩
    · intro h
      exact absurd (h ▸ Policy.fitsI64_toInt c) hfits

def Positive (units : Char → Except FindError Int64) : Prop :=
  ∀ c factor, units c = .ok factor → 0 < factor.toInt

theorem positive_sizeUnitMultiplier : Positive sizeUnitMultiplier := by
  intro c factor h
  unfold sizeUnitMultiplier at h
  split at h <;> cases h <;> decide

theorem positive_timeUnitSeconds : Positive timeUnitSeconds := by
  intro c factor h
  unfold timeUnitSeconds at h
  split at h <;> cases h <;> decide

theorem fits_of_fits_mul {v : ℤ} {factor : Int64} (hpos : 0 < factor.toInt) (h : FitsI64 (v * factor.toInt)) :
    FitsI64 v := by
  unfold FitsI64 at h ⊢
  constructor
  · by_contra hlow
    nlinarith [h.1]
  · by_contra hhigh
    nlinarith [h.2]

/-- **An amount is read exactly when it fits.** -/
theorem amount_eq_ok (hpos : Positive units) {overflow : FindError}
    {s : List Char} {n : Int64} : amount units overflow s = .ok n ↔ Amount units s n.toInt := by
  rw [amount_iff_split]
  constructor
  · intro h
    unfold amount at h
    cases hsplit : splitNumberUnit s with
    | error e => simp [hsplit, bind, Except.bind] at h
    | ok p =>
      obtain ⟨num, unit⟩ := p
      cases hunit : units unit with
      | error e => simp [hsplit, hunit, bind, Except.bind] at h
      | ok factor =>
        have hread := splitNumberUnit_eq_ok.1 hsplit
        refine ⟨num.toInt, factor, hread.1, hread.2 ▸ hunit, ?_⟩
        cases hmul : checkedMul num factor with
        | none => simp [hsplit, hunit, hmul, bind, Except.bind] at h
        | some product =>
          have hn : product = n := by simpa [hsplit, hunit, hmul, bind, Except.bind] using h
          rw [← hn, checkedMul_eq_some.1 hmul]
  · rintro ⟨v, factor, hv, hunit, hn⟩
    have hfits : FitsI64 v := fits_of_fits_mul (hpos _ _ hunit) (hn ▸ Policy.fitsI64_toInt n)
    have hnum : (Int64.ofInt v).toInt = v := Int64.toInt_ofInt_of_le hfits.1 hfits.2
    have hsplit : splitNumberUnit s = .ok (Int64.ofInt v, (splitUnit s).2) :=
      splitNumberUnit_eq_ok.2 ⟨by rw [hnum, hv], rfl⟩
    have hmul : checkedMul (Int64.ofInt v) factor = some n := checkedMul_eq_some.2 (by rw [hnum, hn])
    simp [amount, hsplit, hunit, hmul, bind, Except.bind]

theorem quantity_iff_split {s : List Char} {op : CmpOp} {n : ℤ} :
    Quantity units s op n ↔ op = (splitSign s).1 ∧ Amount units (splitSign s).2 n := by
  constructor
  · rintro (h | h | ⟨hplus, hminus, h⟩)
    · exact ⟨rfl, h⟩
    · exact ⟨rfl, h⟩
    · have hs : splitSign s = (.eq, s) := by
        unfold splitSign
        split <;> simp_all
      rw [hs]
      exact ⟨rfl, h⟩
  · rintro ⟨rfl, h⟩
    unfold splitSign at h ⊢
    split at h
    · exact .more h
    · exact .less h
    · next hplus hminus =>
      refine .bare ?_ ?_ h
      · intro hhead
        obtain ⟨t, rfl⟩ := List.head?_eq_some_iff.1 hhead
        exact hplus t rfl
      · intro hhead
        obtain ⟨t, rfl⟩ := List.head?_eq_some_iff.1 hhead
        exact hminus t rfl

/-! ## §3 — what is accepted -/

def typeLetter : EntryKind → Char
  | .file => 'f'
  | .directory => 'd'
  | .symlink => 'l'
  | .charDevice => 'c'
  | .blockDevice => 'b'
  | .fifo => 'p'
  | .socket => 's'

namespace FindArgs

@[mk_iff]
structure WellFormed (args : FindArgs) : Prop where
  type : ∀ c ∈ args.type, ∃ kind, typeLetter kind = c
  size : ∀ s ∈ args.size, ∃ op n, Quantity sizeUnitMultiplier s.toList op n ∧ FitsI64 n
  times : ∀ s, s ∈ args.mtime ∨ s ∈ args.atime ∨ s ∈ args.ctime →
    ∃ op n, Quantity timeUnitSeconds s.toList op n ∧ FitsI64 n
  sort : ∀ name ∈ args.sort, name ∈ ["size", "mtime", "atime", "ctime", "uid", "gid", "nlink"]

end FindArgs

theorem typeCharToKind_eq_ok {c : Char} {k : UInt8} :
    typeCharToKind c = .ok k ↔ ∃ kind, typeLetter kind = c ∧ k.toNat = kind.toNat := by
  constructor
  · intro h
    unfold typeCharToKind at h
    split at h <;> cases h
    · exact ⟨.file, rfl, rfl⟩
    · exact ⟨.directory, rfl, rfl⟩
    · exact ⟨.symlink, rfl, rfl⟩
    · exact ⟨.charDevice, rfl, rfl⟩
    · exact ⟨.blockDevice, rfl, rfl⟩
    · exact ⟨.fifo, rfl, rfl⟩
    · exact ⟨.socket, rfl, rfl⟩
  · rintro ⟨kind, rfl, hk⟩
    have hkind : typeCharToKind (typeLetter kind) = .ok (UInt8.ofNat kind.toNat) := by cases kind <;> rfl
    rw [hkind, ← hk, UInt8.ofNat_toNat]

theorem filter_eq_ok (hpos : Positive units) {overflow : FindError}
    (build : CmpOp → Int64 → Predicate) {s : List Char} {p : Predicate} :
    (amount units overflow (splitSign s).2).bind (fun n => .ok (build (splitSign s).1 n)) = .ok p ↔
      ∃ op, ∃ n : Int64, Quantity units s op n.toInt ∧ p = build op n := by
  constructor
  · intro h
    cases hn : amount units overflow (splitSign s).2 with
    | error e =>
      rw [hn] at h
      cases h
    | ok n =>
      rw [hn] at h
      cases h
      exact ⟨_, n, quantity_iff_split.2 ⟨rfl, (amount_eq_ok hpos).1 hn⟩, rfl⟩
  · rintro ⟨op, n, hquantity, rfl⟩
    obtain ⟨rfl, hread⟩ := quantity_iff_split.1 hquantity
    rw [(amount_eq_ok hpos).2 hread]
    rfl

theorem parseSizeFilter_eq_ok {s : String} {p : Predicate} :
    parseSizeFilter s = .ok p ↔
      ∃ op, ∃ n : Int64, Quantity sizeUnitMultiplier s.toList op n.toInt ∧ p = .cmp .size op (.num n) :=
  filter_eq_ok positive_sizeUnitMultiplier fun op n => .cmp .size op (.num n)

theorem parseTimeFilter_eq_ok {field : Field} {s : String} {now : Int64} {p : Predicate} :
    parseTimeFilter field s now = .ok p ↔
      ∃ op, ∃ n : Int64, Quantity timeUnitSeconds s.toList op n.toInt ∧
        p = .cmp field (timeCmp op) (.num (now - n)) :=
  filter_eq_ok positive_timeUnitSeconds fun op n => .cmp field (timeCmp op) (.num (now - n))

theorem mapM_id_eq_ok {ε α : Type} {fs : List (Except ε α)} {xs : List α} :
    fs.mapM id = .ok xs ↔ List.Forall₂ (fun f x => f = .ok x) fs xs := by
  induction fs generalizing xs with
  | nil => cases xs <;> simp [pure, Except.pure]
  | cons f fs ih =>
    cases f with
    | error e => simp [bind, Except.bind, List.forall₂_cons_left_iff]
    | ok x =>
      cases hrest : fs.mapM id with
      | error e =>
        have hno : ∀ xs, ¬List.Forall₂ (fun f x => f = Except.ok x) fs xs := by
          intro xs hxs
          rw [← ih, hrest] at hxs
          cases hxs
        simp [hrest, bind, Except.bind, List.forall₂_cons_left_iff, hno]
      | ok ys =>
        have hys : ∀ xs, List.Forall₂ (fun f x => f = Except.ok x) fs xs ↔ xs = ys := by
          intro xs
          rw [← ih, hrest, Except.ok.injEq, eq_comm]
        simp [hrest, bind, Except.bind, pure, Except.pure, List.forall₂_cons_left_iff, hys, eq_comm]

theorem exists_ok_of_mapM {ε α : Type} {fs : List (Except ε α)} {xs : List α} (h : fs.mapM id = .ok xs)
    {f : Except ε α} (hf : f ∈ fs) : ∃ x, f = .ok x := by
  obtain ⟨i, hi, rfl⟩ := List.getElem_of_mem hf
  have hread := mapM_id_eq_ok.1 h
  exact ⟨_, hread.get hi (hread.length_eq ▸ hi)⟩

theorem buildQuery_eq_ok {args : FindArgs} {now : Int64} {p : Predicate} {keys : List SortKey} :
    buildQuery args now = .ok (p, keys) ↔
      ∃ preds, (args.filters now).mapM id = .ok preds ∧ p = conjoin preds ∧ args.orderBy = .ok keys := by
  unfold buildQuery
  cases hpreds : (args.filters now).mapM id with
  | error e => simp [bind, Except.bind]
  | ok preds =>
    cases hkeys : args.orderBy with
    | error e => simp [bind, Except.bind]
    | ok keys' => simp [bind, Except.bind, eq_comm]

theorem forall_mem_filters {args : FindArgs} {now : Int64} {Q : Except FindError Predicate → Prop} :
    (∀ f ∈ args.filters now, Q f) ↔
      (∀ uid ∈ args.user, Q (.ok (eqNum .uid (Int64.ofNat uid.toNat)))) ∧
      (∀ gid ∈ args.group, Q (.ok (eqNum .gid (Int64.ofNat gid.toNat)))) ∧
      (∀ pid ∈ args.projid, Q (.ok (eqNum .projid (Int64.ofNat pid.toNat)))) ∧
      (∀ pool ∈ args.pool, Q (.ok (.inPool pool))) ∧
      (∀ c ∈ args.type, Q ((typeCharToKind c).map fun kind => eqNum .kind (Int64.ofNat kind.toNat))) ∧
      (∀ pattern ∈ args.name, Q (.ok (.nameLike pattern))) ∧
      (∀ s ∈ args.size, Q (parseSizeFilter s)) ∧
      (∀ state ∈ args.hsmState, Q (.ok (.hsmStateEq state))) ∧
      (∀ t ∈ args.mtime, Q (parseTimeFilter .mtime t now)) ∧
      (∀ t ∈ args.atime, Q (parseTimeFilter .atime t now)) ∧
      (∀ t ∈ args.ctime, Q (parseTimeFilter .ctime t now)) := by
  have hmap : ∀ {α : Type} (o : Option α) (g : α → Except FindError Predicate),
      (∀ f, o.map g = some f → Q f) ↔ ∀ a ∈ o, Q (g a) := by
    intro α o g
    cases o <;> simp
  simp only [FindArgs.filters, List.reduceOption_mem_iff, List.mem_cons, List.not_mem_nil, or_false,
    @eq_comm _ (some _), or_imp, forall_and, hmap]

theorem parseSortField_eq_ok {name : String} :
    (∃ field, parseSortField name = .ok field) ↔
      name ∈ ["size", "mtime", "atime", "ctime", "uid", "gid", "nlink"] := by
  unfold parseSortField
  split <;> simp_all

theorem exists_mapM_eq_ok {ε α : Type} {fs : List (Except ε α)} (h : ∀ f ∈ fs, ∃ x, f = .ok x) :
    ∃ xs, fs.mapM id = .ok xs := by
  induction fs with
  | nil => exact ⟨[], rfl⟩
  | cons f fs ih =>
    obtain ⟨x, rfl⟩ := h f (by simp)
    obtain ⟨xs, hxs⟩ := ih fun f hf => h f (List.mem_cons_of_mem _ hf)
    exact ⟨x :: xs, mapM_id_eq_ok.2 (.cons rfl (mapM_id_eq_ok.1 hxs))⟩

theorem exists_word_iff (units : Char → Except FindError Int64) (s : List Char)
    (build : CmpOp → Int64 → Predicate) :
    (∃ p op, ∃ n : Int64, Quantity units s op n.toInt ∧ p = build op n) ↔
      ∃ op n, Quantity units s op n ∧ FitsI64 n := by
  constructor
  · rintro ⟨p, op, n, h, -⟩
    exact ⟨op, n.toInt, h, Policy.fitsI64_toInt n⟩
  · rintro ⟨op, n, h, hfits⟩
    refine ⟨_, op, Int64.ofInt n, ?_, rfl⟩
    rwa [Int64.toInt_ofInt_of_le hfits.1 hfits.2]

theorem exists_type_iff (c : Char) :
    (∃ p, (typeCharToKind c).map (fun kind => eqNum .kind (Int64.ofNat kind.toNat)) = .ok p) ↔
      ∃ kind, typeLetter kind = c := by
  constructor
  · rintro ⟨p, hp⟩
    cases hk : typeCharToKind c with
    | error e => simp [hk, Except.map] at hp
    | ok k =>
      obtain ⟨kind, hkind, -⟩ := typeCharToKind_eq_ok.1 hk
      exact ⟨kind, hkind⟩
  · rintro ⟨kind, rfl⟩
    cases kind <;> exact ⟨_, rfl⟩

theorem exists_orderBy_iff (args : FindArgs) :
    (∃ keys, args.orderBy = .ok keys) ↔
      ∀ name ∈ args.sort, name ∈ ["size", "mtime", "atime", "ctime", "uid", "gid", "nlink"] := by
  unfold FindArgs.orderBy
  cases args.sort with
  | none => simp
  | some name =>
    simp only [Option.mem_some_iff, forall_eq', ← parseSortField_eq_ok]
    cases parseSortField name <;> simp [Except.map]

/-- **What is accepted**: the query is built exactly when every option that is parsed is well formed and its
number fits. -/
theorem find_accepts_iff (args : FindArgs) (now : Int64) :
    (∃ q, buildQuery args now = .ok q) ↔ args.WellFormed := by
  have hfilters : (∃ q, buildQuery args now = .ok q) ↔
      (∀ f ∈ args.filters now, ∃ p, f = .ok p) ∧ ∃ keys, args.orderBy = .ok keys := by
    constructor
    · rintro ⟨⟨p, keys⟩, h⟩
      obtain ⟨preds, hpreds, -, hkeys⟩ := buildQuery_eq_ok.1 h
      exact ⟨fun f hf => exists_ok_of_mapM hpreds hf, keys, hkeys⟩
    · rintro ⟨hall, keys, hkeys⟩
      obtain ⟨preds, hpreds⟩ := exists_mapM_eq_ok hall
      exact ⟨(_, keys), buildQuery_eq_ok.2 ⟨preds, hpreds, rfl, hkeys⟩⟩
  have hsize := fun s : String => exists_word_iff sizeUnitMultiplier s.toList fun op n => .cmp .size op (.num n)
  have htime := fun (field : Field) (t : String) => exists_word_iff timeUnitSeconds t.toList
    fun op n => .cmp field (timeCmp op) (.num (now - n))
  rw [hfilters, forall_mem_filters, FindArgs.wellFormed_iff]
  simp only [Except.ok.injEq, exists_eq', implies_true, true_and, parseSizeFilter_eq_ok, parseTimeFilter_eq_ok,
    exists_type_iff, hsize, htime, exists_orderBy_iff, or_imp, forall_and, and_assoc]

end Robinhood.Cli
