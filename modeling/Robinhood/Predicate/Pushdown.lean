/-
# Predicate.Pushdown — the database and the memory on one entry

A predicate is evaluated in two places: by the server, on the row stored from an entry, and by `matches`, on
the entry itself.  The server has a third truth value and no default for a missing stripe count, pool or
HSM state; the evaluation in memory reads a missing stripe value as zero and clamps a size.  So the two
agree on all predicates over a set of atoms exactly where no atom of the set meets such a value (`Exact`).

Tags are looked up by a path whose text contains the key.  The path leads to the member of that name
exactly if the key is a plain name, and the comparison of texts is the server's.
-/
import Mathlib
import Robinhood.Predicate.Sql

namespace Robinhood.Predicate

open Store Lib.Sql

/-! ## §1 — both sides -/

section sides

variable (db : MariaDb) (tables : Tables) (e : ScopedEntryRow)

def onRow (c : Cond SqlValue) : Option Truth := c.eval db.server tables.rows [("entries", storedRow e)]

/-- **The stored row satisfies the WHERE clause of the predicate.** -/
def Satisfies (p : Predicate) : Prop :=
  ∃ c, condition (toSql p).1 ((toSql p).2.map SqlParam.value) = some c ∧ onRow db tables e c = some .true

theorem satisfies_iff {p : Predicate} : Satisfies db tables e p ↔ onRow db tables e p.tree = some .true := by
  simp [Satisfies, condition_toSql]

end sides

theorem matchesAll_eq_all {lib : TextLibrary} {e : ScopedEntryRow} (cs : List Predicate) :
    matchesAll lib e cs = (cs.map (matchesEntry lib e)).all id := by
  induction cs with
  | nil => rfl
  | cons c cs ih => simp [matchesAll, ih]

theorem matchesAny_eq_any {lib : TextLibrary} {e : ScopedEntryRow} (cs : List Predicate) :
    matchesAny lib e cs = (cs.map (matchesEntry lib e)).any id := by
  induction cs with
  | nil => rfl
  | cons c cs ih => simp [matchesAny, ih]

/-! ## §2 — atoms -/

inductive Atom
  | cmp (field : Field) (op : CmpOp) (n : Int64)
  | inPool (pool : String)
  | hsmStateEq (state : String)

def Atom.toPredicate : Atom → Predicate
  | cmp field op n => .cmp field op (.num n)
  | inPool pool => .inPool pool
  | hsmStateEq state => .hsmStateEq state

inductive Built (atoms : Set Atom) : Predicate → Prop
  | true : Built atoms .true
  | false : Built atoms .false
  | atom (a : Atom) (h : a ∈ atoms) : Built atoms a.toPredicate
  | not (p : Predicate) (h : Built atoms p) : Built atoms (.not p)
  | and (cs : List Predicate) (h : ∀ c ∈ cs, Built atoms c) : Built atoms (.and cs)
  | or (cs : List Predicate) (h : ∀ c ∈ cs, Built atoms c) : Built atoms (.or cs)

/-- A clamped size compares with the number as the size does: the number is not the bound of the clamp, or
the operator does not tell above it from at it. -/
def ClampExact (v : UInt64) (op : CmpOp) (n : Int64) : Prop :=
  v.toNat < 2 ^ 63 ∨ n ≠ Int64.maxValue ∨ op = .ge ∨ op = .lt

/-- **The entry gives the atom a value that both sides read alike.** -/
def Exact (db : MariaDb) (e : ScopedEntryRow) : Atom → Prop
  | .cmp .size op n => ClampExact e.size op n
  | .cmp .blocks op n => ClampExact e.blocks op n
  | .cmp .stripeCount _ _ => e.stripeCount ≠ none
  | .cmp .stripeSize _ _ => e.stripeSize ≠ none
  | .cmp _ _ _ => True
  | .inPool pool => ∃ own, e.poolName = some own ∧ (db.collate .column own pool = .eq → own = pool)
  | .hsmStateEq state => ∃ j, e.smStatus.get "hsm_state" = some j ∧
      (db.collate .json (j.unquote db.float) state = .eq → j = .str state)

section numbers

variable {a b : ℤ}

theorem holds_compare (op : CmpOp) : holds op.comparison (Ord.compare a b) = cmpOrd a op b := by
  rcases lt_trichotomy a b with h | rfl | h
  · rw [compare_lt_iff_lt.2 h]
    cases op <;> simp [holds, CmpOp.comparison, cmpOrd] <;> omega
  · rw [compare_eq_iff_eq.2 rfl]
    cases op <;> simp [holds, CmpOp.comparison, cmpOrd]
  · rw [compare_gt_iff_gt.2 h]
    cases op <;> simp [holds, CmpOp.comparison, cmpOrd] <;> omega

theorem cmpOrd_toInt (a b : Int64) (op : CmpOp) : cmpOrd a.toInt op b.toInt = cmpOrd a op b := by
  cases op <;> simp [cmpOrd, Int64.toInt_inj, Int64.lt_iff_toInt_lt, Int64.le_iff_toInt_le]

end numbers

section values

variable {db : MariaDb} {tables : Tables} {lib : TextLibrary} {e : ScopedEntryRow}

theorem onRow_cmp_int {field : Field} {op : CmpOp} {n : Int64} {x : ℤ}
    (h : storedRow e field.columnName = some (.int x)) :
    onRow db tables e (Atom.cmp field op n).toPredicate.tree = some (.ofBool (cmpOrd x op n.toInt)) := by
  have hcol : (col field.columnName).eval db.server [("entries", storedRow e)] = some (.int x) := by
    simp [col, Scalar.eval, Scope.column, h]
  have hparam : (param (.num n)).eval db.server [("entries", storedRow e)] = some (.int n.toInt) := rfl
  rw [← holds_compare]
  exact Cond.eval_test hcol hparam

theorem onRow_cmp_null {field : Field} {op : CmpOp} {n : Int64}
    (h : storedRow e field.columnName = some .null) :
    onRow db tables e (Atom.cmp field op n).toPredicate.tree = some .unknown := by
  have hcol : (col field.columnName).eval db.server [("entries", storedRow e)] = some .null := by
    simp [col, Scalar.eval, Scope.column, h]
  exact Cond.eval_test hcol rfl

theorem onRow_cmp_extract (lib : TextLibrary) {field : Field} {op : CmpOp} {n v : Int64}
    (hv : extractField field e = .num v) (h : storedRow e field.columnName = some (.int v.toInt)) :
    onRow db tables e (Atom.cmp field op n).toPredicate.tree =
      some (.ofBool (matchesEntry lib e (Atom.cmp field op n).toPredicate)) := by
  rw [onRow_cmp_int h, cmpOrd_toInt]
  simp [Atom.toPredicate, matchesEntry, hv, compare]

/-- The unclamped columns. -/
def Field.direct : Field → Bool
  | .size | .blocks | .stripeCount | .stripeSize => .false
  | _ => .true

theorem exists_extract_of_direct {field : Field} (h : field.direct = .true) :
    ∃ v : Int64, extractField field e = .num v ∧ storedRow e field.columnName = some (.int v.toInt) := by
  have hu : ∀ u : UInt32, (Int64.ofNat u.toNat).toInt = u.toNat := fun u =>
    Int64.toInt_ofNat_of_lt (lt_of_lt_of_le u.toNat_lt (by decide))
  have hk : (Int64.ofNat e.kind.toNat).toInt = e.kind.toNat := by cases e.kind <;> rfl
  cases field with
  | size | blocks | stripeCount | stripeSize => exact absurd h (by decide)
  | kind => exact ⟨_, rfl, congrArg (some ∘ SqlValue.int) hk.symm⟩
  | mtime | atime | ctime | lastSeen => exact ⟨_, rfl, rfl⟩
  | _ => exact ⟨_, rfl, congrArg (some ∘ SqlValue.int) (hu _).symm⟩

theorem onRow_cmp_direct {field : Field} {op : CmpOp} {n : Int64} (h : field.direct = .true) :
    onRow db tables e (Atom.cmp field op n).toPredicate.tree =
      some (.ofBool (matchesEntry lib e (Atom.cmp field op n).toPredicate)) := by
  obtain ⟨v, hv, hint⟩ := exists_extract_of_direct (e := e) h
  exact onRow_cmp_extract lib hv hint

theorem cmpOrd_clamp_iff {v : UInt64} {op : CmpOp} {n : Int64} :
    cmpOrd (v.toNat : ℤ) op n.toInt = cmpOrd (clampU64 v) op n ↔ ClampExact v op n := by
  by_cases hv : v.toNat < 2 ^ 63
  · have hclamp : (clampU64 v).toInt = v.toNat := by
      rw [clampU64, if_pos hv, Int64.toInt_ofNat_of_lt hv]
    have hexact : ClampExact v op n := .inl hv
    simp [← cmpOrd_toInt, hclamp, hexact]
  · have hclamp : clampU64 v = Int64.maxValue := by rw [clampU64, if_neg hv]
    have hmax : Int64.maxValue.toInt = 2 ^ 63 - 1 := rfl
    have hle : n.toInt ≤ 2 ^ 63 - 1 := by
      have := n.toInt_lt
      omega
    rw [← cmpOrd_toInt, hclamp]
    by_cases hn : n = Int64.maxValue
    · subst hn
      cases op <;> simp [cmpOrd, ClampExact, hmax] <;> omega
    · have hlt : n.toInt < 2 ^ 63 - 1 := by
        refine lt_of_le_of_ne hle fun heq => hn ?_
        rw [← Int64.toInt_inj, heq, hmax]
      cases op <;> simp [cmpOrd, ClampExact, hn, hmax] <;> omega

theorem ofBool_eq_ofBool {a b : Bool} : Truth.ofBool a = .ofBool b ↔ a = b := by
  cases a <;> cases b <;> simp [Truth.ofBool]

def textOf (db : MariaDb) : Option Json → SqlValue
  | some j => .text .json (j.unquote db.float)
  | none => .null

/-- **The server's reading of a status**, along the text of a path. -/
theorem eval_statusAt (path : Scalar SqlValue) {source : TextSource} {text : String}
    (h : path.eval db.server [("entries", storedRow e)] = some (.text source text)) :
    (statusAt path).eval db.server [("entries", storedRow e)] =
      some (textOf db (jsonExtract db.toPathSyntax e.smStatus text)) := by
  have hstatus : (col "sm_status").eval db.server [("entries", storedRow e)] = some (.json e.smStatus) := rfl
  have hcall : (statusAt path).eval db.server [("entries", storedRow e)] =
      (db.call₂ "JSON_EXTRACT" (.json e.smStatus) (.text source text)).bind (db.call "JSON_UNQUOTE") := by
    simp only [statusAt, Scalar.eval, hstatus, h]
    rfl
  have hextract : db.call₂ "JSON_EXTRACT" (.json e.smStatus) (.text source text) =
      match jsonExtract db.toPathSyntax e.smStatus text with
      | some j => some (.json j)
      | none => some .null := rfl
  rw [hcall, hextract]
  cases jsonExtract db.toPathSyntax e.smStatus text <;> rfl

theorem onRow_inPool (pool : String) :
    ∃ x, onRow db tables e (inPool pool).tree = some x ∧
      (x = .ofBool (matchesEntry lib e (inPool pool)) ↔ Exact db e (.inPool pool)) := by
  cases hown : e.poolName with
  | none =>
    have hcol : (col "pool_name").eval db.server [("entries", storedRow e)] = some .null := by
      simp [col, Scalar.eval, Scope.column, storedRow, hown, nullable]
    refine ⟨.unknown, Cond.eval_test hcol rfl, ?_⟩
    simp [matchesEntry, hown, Exact, Truth.ofBool]
  | some own =>
    have hcol : (col "pool_name").eval db.server [("entries", storedRow e)] =
        some (.text .column own) := by
      simp [col, Scalar.eval, Scope.column, storedRow, hown, nullable]
    refine ⟨_, Cond.eval_test hcol rfl, ?_⟩
    have htest : db.server.test (.compare .eq) (.text .column own) (SqlParam.str pool).value =
        .ofBool (db.collate .column own pool).isEq := rfl
    rw [htest, ofBool_eq_ofBool]
    simp only [matchesEntry, hown, Option.some.injEq, Exact, exists_eq_left']
    by_cases heq : own = pool
    · subst heq
      simp [db.collate_self]
    · simp [heq]

theorem jsonExtract_hsmState (syn : PathSyntax) (j : Json) :
    jsonExtract syn j "$.hsm_state" = j.get "hsm_state" := by
  have hplain : syn.Plain "hsm_state".toList :=
    plain_of_isAlphanum (List.cons_ne_nil _ _) (by simp)
  exact jsonExtract_member hplain j

/-- **An equality of a text read from a status**: unknown where there is none, and otherwise what the
server's collation says. -/
def readsAs (db : MariaDb) (s : String) : Option Json → Truth
  | some j => .ofBool (db.collate .json (j.unquote db.float) s).isEq
  | none => .unknown

theorem test_textOf (j : Option Json) (s : String) :
    db.server.test (.compare .eq) (textOf db j) (SqlParam.str s).value = readsAs db s j := by
  cases j <;> rfl

theorem asStr_eq_some {j : Json} {s : String} : j.asStr = some s ↔ j = .str s := by
  cases j <;> simp [Json.asStr]

theorem readsAs_eq_iff {j : Option Json} {s : String} :
    readsAs db s j = .ofBool (decide (j.bind Json.asStr = some s)) ↔
      ∃ k, j = some k ∧ (db.collate .json (k.unquote db.float) s = .eq → k = .str s) := by
  cases j with
  | none => simp [readsAs, Truth.ofBool]
  | some k =>
    simp only [readsAs, Option.bind_some, asStr_eq_some, ofBool_eq_ofBool, Option.some.injEq,
      exists_eq_left']
    by_cases hk : k = .str s
    · subst hk
      simp [Json.unquote, db.collate_self]
    · simp [hk]

theorem onRow_hsmStateEq (state : String) :
    ∃ x, onRow db tables e (hsmStateEq state).tree = some x ∧
      (x = .ofBool (matchesEntry lib e (hsmStateEq state)) ↔ Exact db e (.hsmStateEq state)) := by
  have hstatus : (statusAt (.text "$.hsm_state")).eval db.server [("entries", storedRow e)] = some _ :=
    eval_statusAt (.text "$.hsm_state") rfl
  rw [jsonExtract_hsmState] at hstatus
  refine ⟨readsAs db state (e.smStatus.get "hsm_state"), ?_, readsAs_eq_iff⟩
  rw [← test_textOf]
  exact Cond.eval_test hstatus rfl

/-- **One atom**: the server's value is the one of memory exactly where the entry is `Exact` for it. -/
theorem onRow_atom (db : MariaDb) (tables : Tables) (lib : TextLibrary) (e : ScopedEntryRow) (a : Atom) :
    ∃ x, onRow db tables e a.toPredicate.tree = some x ∧
      (x = .ofBool (matchesEntry lib e a.toPredicate) ↔ Exact db e a) := by
  cases a with
  | inPool pool => exact onRow_inPool pool
  | hsmStateEq state => exact onRow_hsmStateEq state
  | cmp field op n =>
    cases field with
    | size | blocks =>
      refine ⟨_, onRow_cmp_int rfl, ?_⟩
      rw [ofBool_eq_ofBool]
      exact cmpOrd_clamp_iff
    | stripeCount =>
      cases hcount : e.stripeCount with
      | none =>
        have hnull : storedRow e Field.stripeCount.columnName = some .null := by
          simp [storedRow, Field.columnName, hcount, nullable]
        refine ⟨_, onRow_cmp_null hnull, ?_⟩
        cases matchesEntry lib e (Atom.cmp .stripeCount op n).toPredicate <;>
          simp [Truth.ofBool, Exact, hcount]
      | some count =>
        have hint : storedRow e Field.stripeCount.columnName =
            some (.int (Int64.ofNat count.toNat).toInt) := by
          rw [Int64.toInt_ofNat_of_lt (lt_of_lt_of_le count.toNat_lt (by decide))]
          simp [storedRow, Field.columnName, hcount, nullable]
        refine ⟨_, onRow_cmp_extract lib (by simp [extractField, hcount]) hint, ?_⟩
        simp [Exact, hcount]
    | stripeSize =>
      cases hsize : e.stripeSize with
      | none =>
        have hnull : storedRow e Field.stripeSize.columnName = some .null := by
          simp [storedRow, Field.columnName, hsize, nullable]
        refine ⟨_, onRow_cmp_null hnull, ?_⟩
        cases matchesEntry lib e (Atom.cmp .stripeSize op n).toPredicate <;>
          simp [Truth.ofBool, Exact, hsize]
      | some size =>
        have hint : storedRow e Field.stripeSize.columnName =
            some (.int (Int64.ofNat size.toNat).toInt) := by
          rw [Int64.toInt_ofNat_of_lt (lt_of_lt_of_le size.toNat_lt (by decide))]
          simp [storedRow, Field.columnName, hsize, nullable]
        refine ⟨_, onRow_cmp_extract lib (by simp [extractField, hsize]) hint, ?_⟩
        simp [Exact, hsize]
    | _ => exact ⟨_, onRow_cmp_direct rfl, iff_of_true rfl trivial⟩

end values

/-! ## §3 — trees -/

section trees

variable {db : MariaDb} {tables : Tables} {lib : TextLibrary} {e : ScopedEntryRow}

theorem forall₂_onRow {cs : List Predicate}
    (h : ∀ c ∈ cs, onRow db tables e c.tree = some (.ofBool (matchesEntry lib e c))) :
    List.Forall₂ (fun d y => d.eval db.server tables.rows [("entries", storedRow e)] = some y)
      (cs.map tree) ((cs.map (matchesEntry lib e)).map Truth.ofBool) := by
  induction cs with
  | nil => exact .nil
  | cons c cs ih => exact .cons (h c (by simp)) (ih fun d hd => h d (by simp [hd]))

/-- **Where every atom is exact, the server's value of the tree is the one of memory.** -/
theorem onRow_built (lib : TextLibrary) {atoms : Set Atom} (hexact : ∀ a ∈ atoms, Exact db e a) {p : Predicate}
    (hp : Built atoms p) : onRow db tables e p.tree = some (.ofBool (matchesEntry lib e p)) := by
  induction hp with
  | true | false => rfl
  | atom a ha =>
    obtain ⟨x, hx, hiff⟩ := onRow_atom db tables lib e a
    rw [hx, hiff.2 (hexact a ha)]
  | not p _ ih =>
    have hnot := Cond.eval_not (show p.tree.eval _ _ _ = _ from ih)
    rw [matchesEntry, Truth.ofBool_not]
    exact hnot
  | and cs _ ih =>
    cases cs with
    | nil => rfl
    | cons c cs =>
      have hcs : ∀ d ∈ cs, onRow db tables e d.tree = some (.ofBool (matchesEntry lib e d)) :=
        fun d hd => ih d (by simp [hd])
      have hconj := Cond.eval_conj (ih c (by simp)) (forall₂_onRow hcs)
      rw [Truth.foldl_and_ofBool] at hconj
      rw [matchesEntry, matchesAll, matchesAll_eq_all, tree, trees_eq_map]
      exact hconj
  | or cs _ ih =>
    cases cs with
    | nil => rfl
    | cons c cs =>
      have hcs : ∀ d ∈ cs, onRow db tables e d.tree = some (.ofBool (matchesEntry lib e d)) :=
        fun d hd => ih d (by simp [hd])
      have hdisj := Cond.eval_disj (ih c (by simp)) (forall₂_onRow hcs)
      rw [Truth.foldl_or_ofBool] at hdisj
      rw [matchesEntry, matchesAny, matchesAny_eq_any, tree, trees_eq_map]
      exact hdisj

theorem eq_ofBool_of_iffs {x : Truth} {b : Bool} (h : x = .true ↔ b = Bool.true)
    (hnot : x.not = .true ↔ (!b) = Bool.true) : x = .ofBool b := by
  cases x <;> cases b <;> simp_all [Truth.ofBool, Truth.not]

end trees

/-- **The database and the memory agree on every predicate over a set of atoms exactly if the entry is
exact for each of them.** -/
theorem pushdown_agrees_iff (db : MariaDb) (tables : Tables) (lib : TextLibrary) (e : ScopedEntryRow)
    (atoms : Set Atom) :
    (∀ p, Built atoms p → (Satisfies db tables e p ↔ matchesEntry lib e p = Bool.true)) ↔
      ∀ a ∈ atoms, Exact db e a := by
  constructor
  · intro h a ha
    obtain ⟨x, hx, hiff⟩ := onRow_atom db tables lib e a
    refine hiff.1 (eq_ofBool_of_iffs ?_ ?_)
    · simpa [satisfies_iff, hx] using h _ (.atom a ha)
    · have hnot : onRow db tables e (Predicate.not a.toPredicate).tree = some x.not := Cond.eval_not hx
      simpa [satisfies_iff, hnot, matchesEntry] using h _ (.not _ (.atom a ha))
  · intro hexact p hp
    rw [satisfies_iff, onRow_built lib hexact hp]
    simp

namespace Sample

def unstriped : ScopedEntryRow where
  key := ⟨⟨"jfs", FileSystemId.jfs_valid⟩, .juiceFs 7⟩
  parent := none
  name := [97]
  kind := .file
  size := 0
  blocks := 0
  uid := 0
  gid := 0
  projid := 0
  mode := 0
  nlink := 1
  atime := 0
  mtime := 0
  ctime := 0
  stripeCount := none
  stripeSize := none
  stripeItems := []
  poolName := none
  smStatus := .null
  lastSeen := 0
  depth := 0

end Sample

/-- A file without a stripe count matches `stripe_count < 2` in memory and is not selected by the server. -/
theorem unstriped_matches_not_selected :
    (∀ lib, matchesEntry lib Sample.unstriped (.cmp .stripeCount .lt (.num 2)) = Bool.true) ∧
      ¬ Satisfies .generalCi ⟨[], []⟩ Sample.unstriped (.cmp .stripeCount .lt (.num 2)) := by
  constructor
  · exact fun _ => rfl
  · have hnull : onRow .generalCi ⟨[], []⟩ Sample.unstriped
        (Atom.cmp .stripeCount .lt 2).toPredicate.tree = some .unknown := onRow_cmp_null rfl
    rw [satisfies_iff]
    exact fun h => absurd (hnull.symm.trans h) (by decide)

/-! ## §4 — tags -/

/-- **The entry has the tag**: a member of that name under `sm_status.xattr`, with that string. -/
def HasTag (e : ScopedEntryRow) (key value : String) : Prop :=
  (e.smStatus.get "xattr").bind (Json.get key) = some (.str value)

/-- The server takes only the string itself for the text. -/
def Distinct (db : MariaDb) (value : String) : Prop :=
  ∀ j : Json, db.collate .json (j.unquote db.float) value = .eq → j = .str value

section tags

variable {db : MariaDb} {tables : Tables} {lib : TextLibrary} {e : ScopedEntryRow} {key value : String}

theorem matchesEntry_xattr :
    matchesEntry lib e (xattr key .eq (.str value)) = Bool.true ↔ HasTag e key value := by
  unfold matchesEntry HasTag
  cases (e.smStatus.get "xattr").bind (Json.get key) with
  | none => simp
  | some j => cases j <;> simp [compare, cmpOrd]

theorem matchesEntry_tags {m : TagMap} :
    matchesEntry lib e (tags m) = Bool.true ↔ ∀ t ∈ m.toList, HasTag e t.1 t.2 := by
  have hempty : m.isEmpty = m.toList.isEmpty := by simp
  unfold matchesEntry HasTag
  cases hm : m.toList with
  | nil => simp [hempty, hm]
  | cons =>
    simp only [hempty, hm, List.isEmpty_cons, Bool.false_or, List.all_eq_true, decide_eq_true_eq,
      Option.bind_eq_some_iff, asStr_eq_some]
    simp

theorem xattrPath_eq (key : String) :
    "$.xattr." ++ key = String.ofList ('$' :: '.' :: ("xattr".toList ++ '.' :: key.toList)) :=
  String.toList_inj.1 (by simp)

/-- What the path to a tag leads to: the key is read as a path inside `xattr`. -/
theorem jsonExtract_xattr (syn : PathSyntax) (j : Json) (key : String) :
    jsonExtract syn j ("$.xattr." ++ key) =
      (pathSteps syn .key key.toList).bind fun steps => (j.get "xattr").bind (extractSteps steps) := by
  have hplain : syn.Plain "xattr".toList := plain_of_isAlphanum (List.cons_ne_nil _ _) (by simp)
  rw [xattrPath_eq]
  exact jsonExtract_member_dot hplain key.toList j

theorem jsonExtract_xattr_of_plain {syn : PathSyntax} (h : syn.Plain key.toList) (j : Json) :
    jsonExtract syn j ("$.xattr." ++ key) = (j.get "xattr").bind (Json.get key) := by
  rw [jsonExtract_xattr, pathSteps_key_plain h, Option.bind_some, String.ofList_toList]
  cases j.get "xattr" with
  | none => rfl
  | some x =>
    rw [Option.bind_some, Option.bind_some, extractSteps_member_cons]
    cases x.get key <;> rfl

theorem onRow_xattr :
    onRow db tables e (xattrCond key .eq (.str value)) =
      some (readsAs db value (jsonExtract db.toPathSyntax e.smStatus ("$.xattr." ++ key))) := by
  have hstatus : (statusAt (param (.str ("$.xattr." ++ key)))).eval db.server [("entries", storedRow e)] =
      some _ := eval_statusAt (param (.str ("$.xattr." ++ key))) rfl
  rw [← test_textOf]
  exact Cond.eval_test hstatus rfl

theorem readsAs_eq_true {j : Option Json} :
    readsAs db value j = .true ↔ ∃ k, j = some k ∧ db.collate .json (k.unquote db.float) value = .eq := by
  cases j <;> simp [readsAs]

theorem onRow_xattr_iff (hkey : db.toPathSyntax.Plain key.toList) (hvalue : Distinct db value) :
    onRow db tables e (xattrCond key .eq (.str value)) = some .true ↔ HasTag e key value := by
  rw [onRow_xattr, jsonExtract_xattr_of_plain hkey, Option.some.injEq, readsAs_eq_true, HasTag]
  constructor
  · rintro ⟨j, hj, heq⟩
    rw [hj, hvalue j heq]
  · intro h
    exact ⟨_, h, db.collate_self _ _⟩

def withXattr (key : String) (j : Json) : ScopedEntryRow :=
  { Sample.unstriped with smStatus := .obj [("xattr", .obj [(key, j)])] }

theorem get_withXattr (key : String) (j : Json) :
    (withXattr key j).smStatus.get "xattr" = some (.obj [(key, j)]) := by
  simp [withXattr, Json.get, Json.lookup_cons]

theorem hasTag_withXattr {k : String} {j : Json} :
    HasTag (withXattr k j) key value ↔ k = key ∧ j = .str value := by
  rw [HasTag, get_withXattr, Option.bind_some, Json.get, Json.lookup_cons]
  by_cases h : k = key <;> simp [h]

/-- **A key that is not plain is looked up elsewhere.** -/
theorem plain_of_onRow_iff
    (h : ∀ e, onRow db tables e (xattrCond key .eq (.str value)) = some .true ↔ HasTag e key value) :
    db.toPathSyntax.Plain key.toList := by
  by_contra hplain
  simp only [onRow_xattr, Option.some.injEq, readsAs_eq_true, jsonExtract_xattr] at h
  obtain ⟨j, hj, heq⟩ := (h (withXattr key (.str value))).2 (hasTag_withXattr.2 ⟨rfl, rfl⟩)
  obtain ⟨steps, hsteps, hextract⟩ := Option.bind_eq_some_iff.1 hj
  rw [get_withXattr, Option.bind_some] at hextract
  obtain ⟨s, ss, rfl, rfl | ⟨m, rfl, hm⟩⟩ := first_of_not_plain hplain hsteps
  · -- all members: another name with the same value is found as well
    have hother : HasTag (withXattr (key ++ "x") (.str value)) key value := by
      refine (h _).1 ⟨j, ?_, heq⟩
      rw [hsteps, Option.bind_some, get_withXattr, Option.bind_some]
      exact hextract
    have hkey : key ++ "x" = key := (hasTag_withXattr.1 hother).1
    have hlen := congrArg String.length hkey
    simp at hlen
  · -- a member of another name: nothing is found
    rw [String.ofList_toList] at hm
    rw [extractSteps_member_cons] at hextract
    simp [Json.get, Json.lookup_cons, hm.symm] at hextract

theorem distinct_of_onRow_iff
    (h : ∀ e, onRow db tables e (xattrCond key .eq (.str value)) = some .true ↔ HasTag e key value) :
    Distinct db value := by
  have hplain := plain_of_onRow_iff h
  simp only [onRow_xattr, Option.some.injEq, readsAs_eq_true, jsonExtract_xattr_of_plain hplain] at h
  intro j hj
  refine (hasTag_withXattr.1 ((h (withXattr key j)).1 ⟨j, ?_, hj⟩)).2
  rw [get_withXattr, Option.bind_some, Json.get, Json.lookup_cons, if_pos rfl]

theorem onRow_tags {m : TagMap} :
    onRow db tables e (tags m).tree = some .true ↔
      ∀ t ∈ m.toList, onRow db tables e (xattrCond t.1 .eq (.str t.2)) = some .true := by
  rw [tree]
  cases m.toList with
  | nil => simp [tagsTree, onRow, always, Cond.eval, Scalar.eval, MariaDb.server, MariaDb.test, holds]
  | cons =>
    rw [tagsTree, onRow, Cond.eval_conj_eq_true, List.forall_mem_cons, List.forall_mem_map,
      List.forall_mem_cons]
    rfl

end tags

/-- **Tags are looked up by name exactly if their keys are plain names and their values distinct**, as
`matches` always looks them up. -/
theorem tags_address_members_iff (db : MariaDb) (tables : Tables) (lib : TextLibrary)
    (pairs : Set (String × String)) :
    ((∀ m : TagMap, (∀ t ∈ m.toList, t ∈ pairs) → ∀ e,
        (Satisfies db tables e (tags m) ↔ ∀ t ∈ m.toList, HasTag e t.1 t.2)) ↔
      ∀ t ∈ pairs, db.toPathSyntax.Plain t.1.toList ∧ Distinct db t.2) ∧
    (∀ key value, (∀ e, Satisfies db tables e (xattr key .eq (.str value)) ↔ HasTag e key value) ↔
      db.toPathSyntax.Plain key.toList ∧ Distinct db value) ∧
    (∀ e (m : TagMap), matchesEntry lib e (tags m) = Bool.true ↔ ∀ t ∈ m.toList, HasTag e t.1 t.2) ∧
    (∀ e key value, matchesEntry lib e (xattr key .eq (.str value)) = Bool.true ↔ HasTag e key value) := by
  simp only [satisfies_iff]
  refine ⟨⟨fun h t ht => ?_, fun h m hm e => ?_⟩, fun key value => ⟨fun h => ?_, fun h e => ?_⟩,
    fun e m => matchesEntry_tags, fun e key value => matchesEntry_xattr⟩
  · -- the map of one tag
    have hone : ∀ u, u ∈ ((∅ : TagMap).insert t.1 t.2).toList ↔ u = t := by
      intro u
      rw [Std.ExtTreeMap.mem_toList_iff_getElem?_eq_some, Std.ExtTreeMap.getElem?_insert]
      obtain ⟨k, v⟩ := u
      by_cases hk : k = t.1
      · subst hk
        simp [Prod.ext_iff, eq_comm]
      · simp [Prod.ext_iff, hk, Ne.symm hk]
    have htag : ∀ e, onRow db tables e (xattrCond t.1 .eq (.str t.2)) = some .true ↔ HasTag e t.1 t.2 := by
      intro e
      have := h ((∅ : TagMap).insert t.1 t.2) (by simpa [hone] using ht) e
      simpa only [onRow_tags, hone, forall_eq] using this
    exact ⟨plain_of_onRow_iff htag, distinct_of_onRow_iff htag⟩
  · rw [onRow_tags]
    exact forall₂_congr fun t ht => onRow_xattr_iff (h t (hm t ht)).1 (h t (hm t ht)).2
  · exact ⟨plain_of_onRow_iff h, distinct_of_onRow_iff h⟩
  · exact onRow_xattr_iff h.1 h.2

/-- A key with a point in it: the entry has the tag, and the server does not find it. -/
theorem dotted_key_not_selected :
    HasTag (withXattr "user.tier" (.str "hot")) "user.tier" "hot" ∧
      ¬ Satisfies .generalCi ⟨[], []⟩ (withXattr "user.tier" (.str "hot"))
        (.tags ((∅ : TagMap).insert "user.tier" "hot")) := by
  refine ⟨hasTag_withXattr.2 ⟨rfl, rfl⟩, ?_⟩
  rw [satisfies_iff, onRow_tags]
  intro h
  have hmem : ("user.tier", "hot") ∈ ((∅ : TagMap).insert "user.tier" "hot").toList := by
    simp [Std.ExtTreeMap.mem_toList_iff_getElem?_eq_some]
  have htag := h _ hmem
  have hpath : pathSteps MariaDb.generalCi.toPathSyntax .key "user.tier".toList =
      some [.member "user", .member "tier"] := rfl
  rw [onRow_xattr, jsonExtract_xattr, hpath, Option.bind_some, get_withXattr, Option.bind_some,
    extractSteps_member_cons] at htag
  simp [Json.get, Json.lookup_cons, readsAs] at htag

end Robinhood.Predicate
