/-
# JuiceFs.Subtree — the totals below an object

`scoped_subtree_totals` collects the descendants of an object by a recursive query: each round takes the rows
whose stored parent is in the round before, and the query ends with the first round that is empty.  Rounds
are not compared with earlier ones (`UNION ALL`), so below an object with a row it ends exactly when the object
is not among its own ancestors, and below one without a row it finds nothing, whatever rows name it.  A baseline that crosses two moves can store a cycle: `moved_during_scan_never_ends`.
-/
import Mathlib
import Robinhood.JuiceFs.Replay

namespace Robinhood.JuiceFs

open Lib Store Scan Ingest

/-! ## §1 — The query -/

variable (c : Catalog) (root : ObjectId)

def parentObject (object : ObjectId) : Option ObjectId :=
  (c.row object).bind fun entry => entry.parent.map EntryKey.object

def children (round : List ObjectId) : List ObjectId :=
  round.flatMap fun parent => c.entries.keys.filter fun object => parentObject c object = some parent

/-- **The recursive query**: all rounds up to the first empty one, if it comes within `fuel` rounds. -/
def descendants : ℕ → List ObjectId → List ObjectId → Option (List ObjectId)
  | 0, _, _ => none
  | fuel + 1, round, seen => if round = [] then some seen else descendants fuel (children c round) (seen ++ round)

/-- `EntryStore::scoped_subtree_totals`: the number and the total size of the descendants. -/
def scopedSubtreeTotals (fuel : ℕ) : Option (ℕ × ℕ) :=
  (descendants c fuel (c.entries.keys.filter (· = root)) []).map fun found =>
    let rows := c.entries.toList.filter fun row => row.1 ∈ found
    (rows.length, (rows.map fun row => row.2.size.toNat).sum)

/-! ## §2 — Rounds are steps of the climb -/

/-- The object `n` parents above an object. -/
def climb : ℕ → ObjectId → Option ObjectId
  | 0, object => some object
  | n + 1, object => (parentObject c object).bind (climb n)

def rounds : ℕ → List ObjectId
  | 0 => c.entries.keys.filter (· = root)
  | n + 1 => children c (rounds n)

variable {c root}

theorem climb_add (m n : ℕ) (object : ObjectId) : climb c (m + n) object = (climb c m object).bind (climb c n) := by
  induction m generalizing object with
  | zero => rw [Nat.zero_add, climb, Option.bind_some]
  | succ m ih =>
    rw [Nat.succ_add, climb, climb, Option.bind_assoc]
    exact congrArg _ (funext ih)

theorem mem_keys {object : ObjectId} : object ∈ c.entries.keys ↔ (c.row object).isSome := by
  rw [Std.ExtTreeMap.mem_keys]
  exact Std.ExtTreeMap.isSome_getElem?_iff_mem.symm

theorem isSome_row_of_parent {object parent : ObjectId} (h : parentObject c object = some parent) :
    (c.row object).isSome := by
  obtain ⟨entry, hrow, -⟩ := Option.bind_eq_some_iff.1 h
  rw [hrow]
  rfl

/-- **The round of an object** is the number of steps it climbs to the root. -/
theorem mem_rounds (hroot : (c.row root).isSome) {n : ℕ} {object : ObjectId} :
    object ∈ rounds c root n ↔ climb c n object = some root := by
  induction n generalizing object with
  | zero =>
    simp only [rounds, List.mem_filter, mem_keys, decide_eq_true_eq, climb, Option.some.injEq]
    exact ⟨And.right, fun h => ⟨h ▸ hroot, h⟩⟩
  | succ n ih =>
    simp only [rounds, children, List.mem_flatMap, List.mem_filter, mem_keys, decide_eq_true_eq, climb,
      Option.bind_eq_some_iff, ih]
    constructor
    · rintro ⟨parent, hparent, -, hchild⟩
      exact ⟨parent, hchild, hparent⟩
    · rintro ⟨parent, hchild, hparent⟩
      exact ⟨parent, hparent, isSome_row_of_parent hchild, hchild⟩

def OnCycle (c : Catalog) (root : ObjectId) : Prop := ∃ n, climb c (n + 1) root = some root

theorem climb_ne (hcycle : ¬ OnCycle c root) {n i j : ℕ} {object : ObjectId} (h : climb c n object = some root)
    (hij : i < j) (hj : j ≤ n) : climb c i object ≠ climb c j object := by
  intro heq
  refine hcycle ⟨j - i - 1, ?_⟩
  calc climb c (j - i - 1 + 1) root = (climb c n object).bind (climb c (j - i)) := by
        rw [h, Option.bind_some, Nat.sub_add_cancel (by omega)]
    _ = climb c (j + (n - i)) object := by rw [← climb_add, show n + (j - i) = j + (n - i) by omega]
    _ = (climb c i object).bind (climb c (n - i)) := by rw [climb_add, heq]
    _ = some root := by rw [← climb_add, show i + (n - i) = n by omega, h]

/-- **Without a cycle** there are no more rounds than rows. -/
theorem rounds_size (hroot : (c.row root).isSome) (hcycle : ¬ OnCycle c root) :
    rounds c root c.entries.size = [] := by
  refine List.eq_nil_iff_forall_not_mem.2 fun object hobject => ?_
  have hclimb := (mem_rounds hroot).1 hobject
  have hpassed : ∀ i ≤ c.entries.size, ∃ passed, climb c i object = some passed ∧ (c.row passed).isSome := by
    intro i hi
    have hsplit : (climb c i object).bind (climb c (c.entries.size - i)) = some root := by
      rw [← climb_add, show i + (c.entries.size - i) = c.entries.size by omega, hclimb]
    obtain ⟨passed, hpassed, hrest⟩ := Option.bind_eq_some_iff.1 hsplit
    refine ⟨passed, hpassed, ?_⟩
    cases hn : c.entries.size - i with
    | zero =>
      rw [hn, climb, Option.some.injEq] at hrest
      exact hrest ▸ hroot
    | succ n =>
      rw [hn, climb] at hrest
      obtain ⟨parent, hparent, -⟩ := Option.bind_eq_some_iff.1 hrest
      exact isSome_row_of_parent hparent
  have : Nonempty ObjectId := ⟨root⟩
  choose! passed hpassed hrow using hpassed
  have hnodup : ((List.range (c.entries.size + 1)).map passed).Nodup := by
    refine List.Nodup.map_on (fun i hi j hj heq => ?_) List.nodup_range
    have hi := Nat.le_of_lt_succ (List.mem_range.1 hi)
    have hj := Nat.le_of_lt_succ (List.mem_range.1 hj)
    have hsame : climb c i object = climb c j object := by rw [hpassed i hi, hpassed j hj, heq]
    rcases lt_trichotomy i j with hlt | rfl | hlt
    · exact absurd hsame (climb_ne hcycle hclimb hlt hj)
    · rfl
    · exact absurd hsame.symm (climb_ne hcycle hclimb hlt hi)
  have hle := c.length_le_size hnodup fun v hv => by
    obtain ⟨i, hi, rfl⟩ := List.mem_map.1 hv
    exact hrow i (Nat.le_of_lt_succ (List.mem_range.1 hi))
  simp at hle

/-- **On a cycle** no round is empty. -/
theorem rounds_ne_nil (hroot : (c.row root).isSome) (hcycle : OnCycle c root) (n : ℕ) : rounds c root n ≠ [] := by
  obtain ⟨k, hk⟩ := hcycle
  have hturns : ∀ m, climb c (m * (k + 1)) root = some root := by
    intro m
    induction m with
    | zero => rw [Nat.zero_mul, climb]
    | succ m ih => rw [Nat.succ_mul, climb_add, ih, Option.bind_some, hk]
  -- `n` turns of the cycle are `n * k` steps up to an object that is `n` steps below the root
  have hsplit : (climb c (n * k) root).bind (climb c n) = some root := by
    rw [← climb_add, ← Nat.mul_succ, hturns]
  obtain ⟨object, -, hobject⟩ := Option.bind_eq_some_iff.1 hsplit
  exact List.ne_nil_of_mem ((mem_rounds hroot).2 hobject)

/-! ## §3 — What the query answers -/

theorem rounds_nil_of_le {m n : ℕ} (h : rounds c root m = []) (hmn : m ≤ n) : rounds c root n = [] := by
  induction n, hmn using Nat.le_induction with
  | base => exact h
  | succ n _ ih => rw [rounds, ih]; rfl

theorem isSome_descendants {fuel n : ℕ} {seen : List ObjectId} :
    (descendants c fuel (rounds c root n) seen).isSome ↔ ∃ m < fuel, rounds c root (n + m) = [] := by
  induction fuel generalizing n seen with
  | zero => simp [descendants]
  | succ fuel ih =>
    rw [descendants]
    split_ifs with hround
    · exact iff_of_true rfl ⟨0, Nat.succ_pos _, hround⟩
    · change (descendants c fuel (rounds c root (n + 1)) (seen ++ rounds c root n)).isSome ↔ _
      rw [ih]
      constructor
      · rintro ⟨m, hm, hnil⟩
        exact ⟨m + 1, by omega, by rwa [show n + (m + 1) = n + 1 + m by omega]⟩
      · rintro ⟨m, hm, hnil⟩
        cases m with
        | zero => exact absurd hnil hround
        | succ m => exact ⟨m, by omega, by rwa [show n + 1 + m = n + (m + 1) by omega]⟩

theorem mem_descendants {fuel n : ℕ} {seen found : List ObjectId}
    (h : descendants c fuel (rounds c root n) seen = some found) {object : ObjectId} :
    object ∈ found ↔ object ∈ seen ∨ ∃ m, object ∈ rounds c root (n + m) := by
  induction fuel generalizing n seen with
  | zero => cases h
  | succ fuel ih =>
    rw [descendants] at h
    split_ifs at h with hround
    · cases h
      have hnone : ∀ m, object ∉ rounds c root (n + m) := fun m => by
        rw [rounds_nil_of_le hround (Nat.le_add_right n m)]
        exact List.not_mem_nil
      simp [hnone]
    · rw [ih (n := n + 1) h, List.mem_append, or_assoc]
      refine or_congr_right ⟨?_, ?_⟩
      · rintro (hobject | ⟨m, hobject⟩)
        · exact ⟨0, hobject⟩
        · exact ⟨m + 1, by rwa [show n + (m + 1) = n + 1 + m by omega]⟩
      · rintro ⟨_ | m, hobject⟩
        · exact .inl hobject
        · exact .inr ⟨m, by rwa [show n + 1 + m = n + (m + 1) by omega]⟩

theorem isSome_totals_iff (hroot : (c.row root).isSome) :
    (∃ fuel, (scopedSubtreeTotals c root fuel).isSome) ↔ ¬ OnCycle c root := by
  simp only [scopedSubtreeTotals, Option.isSome_map]
  constructor
  · rintro ⟨fuel, h⟩ hcycle
    obtain ⟨m, -, hnil⟩ := (isSome_descendants (n := 0)).1 h
    exact rounds_ne_nil hroot hcycle _ hnil
  · intro hcycle
    refine ⟨c.entries.size + 1, (isSome_descendants (n := 0)).2 ⟨c.entries.size, Nat.lt_succ_self _, ?_⟩⟩
    rw [Nat.zero_add]
    exact rounds_size hroot hcycle

/-- **The totals of a subtree**: the number and the total size of the rows that climb to the root, each once. -/
def Totals (c : Catalog) (root : ObjectId) (totals : ℕ × ℕ) : Prop :=
  ∃ below : List (ObjectId × ScopedEntryRow), (below.map Prod.fst).Nodup ∧
    (∀ object entry, (object, entry) ∈ below ↔ c.row object = some entry ∧ ∃ n, climb c n object = some root) ∧
    totals = (below.length, (below.map fun row => row.2.size.toNat).sum)

theorem totals_of_cataloged (hroot : (c.row root).isSome) {fuel : ℕ} {totals : ℕ × ℕ}
    (h : scopedSubtreeTotals c root fuel = some totals) : Totals c root totals := by
  obtain ⟨found, hfound, rfl⟩ := Option.map_eq_some_iff.1 h
  refine ⟨_, ?_, fun object entry => ?_, rfl⟩
  · have hkeys : (c.entries.toList.map Prod.fst).Nodup := by
      rw [Std.ExtTreeMap.map_fst_toList_eq_keys]
      exact Std.ExtTreeMap.nodup_keys
    exact hkeys.sublist (List.filter_sublist.map _)
  · rw [List.mem_filter, decide_eq_true_eq, mem_descendants (n := 0) hfound,
      Std.ExtTreeMap.mem_toList_iff_getElem?_eq_some]
    simp only [List.not_mem_nil, false_or, Nat.zero_add, mem_rounds hroot]
    rfl

/-- An object without a row starts the query with an empty round: it ends at once, with nothing found. -/
theorem totals_of_uncataloged (hroot : c.row root = none) (fuel : ℕ) :
    scopedSubtreeTotals c root (fuel + 1) = some (0, 0) := by
  have hround : c.entries.keys.filter (fun object => decide (object = root)) = [] := by
    refine List.filter_eq_nil_iff.2 fun object hobject hsame => ?_
    obtain rfl := of_decide_eq_true hsame
    have hrow := mem_keys.1 hobject
    rw [hroot] at hrow
    cases hrow
  rw [scopedSubtreeTotals, hround, descendants, if_pos rfl]
  simp

theorem climb_succ_last {n : ℕ} {object : ObjectId} (h : climb c (n + 1) object = some root) :
    ∃ child, parentObject c child = some root := by
  rw [climb_add, Option.bind_eq_some_iff] at h
  obtain ⟨child, -, hchild⟩ := h
  obtain ⟨parent, hparent, hsame⟩ := Option.bind_eq_some_iff.1 hchild
  exact ⟨child, hparent.trans hsame⟩

/-- **Nothing climbs to an object without a row** exactly when no row names it as its parent. -/
theorem totals_zero_iff (hroot : c.row root = none) :
    Totals c root (0, 0) ↔ ∀ object, parentObject c object ≠ some root := by
  constructor
  · rintro ⟨below, -, hmem, htotals⟩ object hparent
    have hnil : below = [] := List.length_eq_zero_iff.1 (congrArg Prod.fst htotals).symm
    obtain ⟨entry, hrow⟩ := Option.isSome_iff_exists.1 (isSome_row_of_parent hparent)
    have hin := (hmem object entry).2 ⟨hrow, 1, by rw [climb, hparent, Option.bind_some, climb]⟩
    rw [hnil] at hin
    cases hin
  · intro hnone
    refine ⟨[], List.nodup_nil, fun object entry => iff_of_false List.not_mem_nil ?_, rfl⟩
    rintro ⟨hrow, n, hn⟩
    cases n with
    | zero =>
      rw [climb, Option.some.injEq] at hn
      rw [hn, hroot] at hrow
      cases hrow
    | succ n =>
      obtain ⟨child, hchild⟩ := climb_succ_last hn
      exact hnone child hchild

/-- **The totals below an object**, whether it is cataloged or not.  The query ends and answers nothing but the
totals of the subtree exactly when the object has a row and is on no cycle of stored parents, or has none and
is the stored parent of no row: for an object that only other rows name the answer is `(0, 0)`. -/
theorem subtree_totals_iff (c : Catalog) (root : ObjectId) :
    ((∃ fuel, (scopedSubtreeTotals c root fuel).isSome) ∧
      ∀ fuel totals, scopedSubtreeTotals c root fuel = some totals → Totals c root totals) ↔
    ((c.row root).isSome ∧ ¬ OnCycle c root) ∨
      (c.row root = none ∧ ∀ object, parentObject c object ≠ some root) := by
  cases hrow : c.row root with
  | some entry =>
    have hroot : (c.row root).isSome := by rw [hrow]; rfl
    rw [isSome_totals_iff hroot]
    constructor
    · rintro ⟨hcycle, -⟩
      exact .inl ⟨rfl, hcycle⟩
    · rintro (⟨-, hcycle⟩ | ⟨hnone, -⟩)
      · exact ⟨hcycle, fun fuel totals => totals_of_cataloged hroot⟩
      · cases hnone
  | none =>
    constructor
    · rintro ⟨-, hanswer⟩
      exact .inr ⟨rfl, (totals_zero_iff hrow).1 (hanswer 1 _ (totals_of_uncataloged hrow 0))⟩
    · rintro (⟨hsome, -⟩ | ⟨-, hnone⟩)
      · cases hsome
      refine ⟨⟨1, by rw [totals_of_uncataloged hrow]; rfl⟩, fun fuel totals h => ?_⟩
      cases fuel with
      | zero => cases h
      | succ fuel =>
        rw [totals_of_uncataloged hrow] at h
        cases h
        exact (totals_zero_iff hrow).2 hnone

namespace Sample

/-- A scan that reads `a/b`, then, after `b` has been moved to the root and `a` into it, `b/a`. -/
def crossedScan : List PosixWalkEvent :=
  [walked 1 none [] .directory 0, walked 10 (some 1) a .directory 1, walked 11 (some 10) b .directory 2,
    walked 10 (some 11) a .directory 2]

def crossedCatalog : Catalog := ((runJuicefsBaseline jfs crossedScan 0 0 0).run registered).2

/-- **The totals of `a` are never answered** after that scan. -/
theorem moved_during_scan_never_ends :
    (runJuicefsBaseline jfs crossedScan 0 0 0).run registered = (.ok (), crossedCatalog) ∧
      ¬ ∃ fuel, (scopedSubtreeTotals crossedCatalog (.juiceFs 10) fuel).isSome := by
  have hroot : (crossedCatalog.row (.juiceFs 10)).isSome := by decide +kernel
  have hcycle : OnCycle crossedCatalog (.juiceFs 10) := ⟨1, by decide +kernel⟩
  refine ⟨by decide +kernel, ?_⟩
  rintro ⟨fuel, h⟩
  rw [scopedSubtreeTotals, Option.isSome_map] at h
  obtain ⟨m, -, hnil⟩ := (isSome_descendants (n := 0)).1 h
  exact rounds_ne_nil hroot hcycle _ hnil

end Sample

end Robinhood.JuiceFs
