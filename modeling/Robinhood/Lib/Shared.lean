/-
# Lib.Shared — tables that several owners share

A table whose primary key begins with the owner of the row: the slice of one owner is a table of its
own, and putting a slice back touches the rows of that owner only.  The three laws of §2 (what was put
is read, the last put wins, putting back what was read changes nothing) make a slice a part of the
store in the sense of `Proc.zoom`; the frame law says that the slices of other owners do not move.
-/
import Mathlib
import Robinhood.Lib.Table

namespace Robinhood.Lib

open Std (TransOrd LawfulEqOrd ExtTreeMap)

/-- **A key that begins with the owner of its row.** -/
structure Owned (ρ κ : Type*) where
  owner : ρ
  key : κ
deriving DecidableEq, Repr

section Order

variable {ρ κ : Type*} [Ord ρ] [Ord κ]

instance : Ord (Owned ρ κ) := ⟨compareLex (compareOn Owned.owner) (compareOn Owned.key)⟩

instance [TransOrd ρ] [TransOrd κ] : TransOrd (Owned ρ κ) :=
  inferInstanceAs (Std.TransCmp (compareLex (compareOn Owned.owner) (compareOn Owned.key)))

instance [TransOrd ρ] [LawfulEqOrd ρ] [TransOrd κ] [LawfulEqOrd κ] : LawfulEqOrd (Owned ρ κ) where
  eq_of_compare {a b} h := by
    obtain ⟨howner, hkey⟩ := compareLex_eq_eq.1
      (show compareLex (compareOn Owned.owner) (compareOn Owned.key) a b = .eq from h)
    cases a
    cases b
    exact congrArg₂ Owned.mk (LawfulEqOrd.eq_of_compare howner) (LawfulEqOrd.eq_of_compare hkey)

end Order

namespace Table

/-! ## §1 — Rows from a list -/

section OfList

variable {κ α : Type*} [Ord κ] [TransOrd κ] [LawfulEqOrd κ]

theorem getElem?_insertMany_of_nodup {l : List (κ × α)} (hnodup : (l.map Prod.fst).Nodup)
    (t : Table κ α) (k : κ) {v : α} :
    (t.insertMany l)[k]? = some v ↔
      (k, v) ∈ l ∨ (k ∉ l.map Prod.fst ∧ t[k]? = some v) := by
  classical
  have hdistinct : l.Pairwise fun a b => ¬ compare a.1 b.1 = .eq := by
    refine (List.pairwise_map.1 hnodup).imp fun {a b} hab h => hab ?_
    exact LawfulEqOrd.eq_of_compare h
  by_cases hk : k ∈ l.map Prod.fst
  · obtain ⟨⟨a, w⟩, hmem, rfl⟩ := List.mem_map.1 hk
    rw [ExtTreeMap.getElem?_insertMany_list_of_mem Std.ReflCmp.compare_self hdistinct hmem]
    simp only [Option.some.injEq, hk, not_true_eq_false, false_and, or_false]
    refine ⟨fun h => h ▸ hmem, fun h => ?_⟩
    exact congrArg Prod.snd (List.inj_on_of_nodup_map hnodup hmem h rfl)
  · rw [ExtTreeMap.getElem?_insertMany_list_of_contains_eq_false (by simpa using hk)]
    simp only [hk, not_false_eq_true, true_and, iff_or_self]
    exact fun h => absurd (List.mem_map_of_mem h) hk

end OfList

/-! ## §2 — Slices -/

section Slices

variable {ρ κ α : Type*} [Ord ρ] [TransOrd ρ] [LawfulEqOrd ρ] [DecidableEq ρ]
  [Ord κ] [TransOrd κ] [LawfulEqOrd κ]

/-- **The slice of an owner**: its rows, by the rest of their keys. -/
def slice (t : Table (Owned ρ κ) α) (owner : ρ) : Table κ α :=
  (∅ : Table κ α).insertMany
    ((t.toList.filter fun row => row.1.owner = owner).map fun row => (row.1.key, row.2))

/-- **A slice put back**: the owner's rows are replaced by those of `rows`. -/
def putSlice (t : Table (Owned ρ κ) α) (owner : ρ) (rows : Table κ α) : Table (Owned ρ κ) α :=
  (t.deleteWhere fun k _ => k.owner = owner).insertMany
    (rows.toList.map fun row => (⟨owner, row.1⟩, row.2))

theorem getElem?_slice (t : Table (Owned ρ κ) α) (owner : ρ) (k : κ) :
    (t.slice owner)[k]? = t[(⟨owner, k⟩ : Owned ρ κ)]? := by
  have hnodup : (((t.toList.filter fun row => row.1.owner = owner).map
      fun row => (row.1.key, row.2)).map Prod.fst).Nodup := by
    have hkeys : (t.toList.map Prod.fst).Nodup := by
      rw [ExtTreeMap.map_fst_toList_eq_keys]
      exact ExtTreeMap.nodup_keys
    rw [List.map_map]
    refine (List.nodup_map_iff_inj_on ((hkeys.of_map _).filter _)).2 fun a ha b hb hab => ?_
    have hab' : a.1 = b.1 := by
      have h1 : a.1.owner = owner := by simpa using (List.mem_filter.1 ha).2
      have h2 : b.1.owner = owner := by simpa using (List.mem_filter.1 hb).2
      exact congrArg₂ Owned.mk (h1.trans h2.symm) hab
    exact List.inj_on_of_nodup_map hkeys (List.mem_filter.1 ha).1 (List.mem_filter.1 hb).1 hab'
  refine Option.ext fun v => ?_
  rw [slice, getElem?_insertMany_of_nodup hnodup]
  simp only [List.mem_map, List.mem_filter, decide_eq_true_eq, Prod.mk.injEq, Prod.exists,
    ExtTreeMap.mem_toList_iff_getElem?_eq_some, ExtTreeMap.getElem?_empty, reduceCtorEq, and_false,
    or_false]
  constructor
  · rintro ⟨⟨o, a⟩, w, ⟨hrow, rfl⟩, rfl, rfl⟩
    exact hrow
  · exact fun h => ⟨⟨owner, k⟩, v, ⟨h, rfl⟩, rfl, rfl⟩

theorem getElem?_putSlice (t : Table (Owned ρ κ) α) (owner : ρ) (rows : Table κ α)
    (k : Owned ρ κ) :
    (t.putSlice owner rows)[k]? = if k.owner = owner then rows[k.key]? else t[k]? := by
  have hnodup : ((rows.toList.map fun row => ((⟨owner, row.1⟩ : Owned ρ κ), row.2)).map
      Prod.fst).Nodup := by
    have hkeys : (rows.toList.map Prod.fst).Nodup := by
      rw [ExtTreeMap.map_fst_toList_eq_keys]
      exact ExtTreeMap.nodup_keys
    rw [List.map_map]
    have hinj : Function.Injective (Owned.mk (κ := κ) owner) := fun a b h => (Owned.mk.inj h).2
    simpa only [Function.comp_def, List.map_map] using hkeys.map hinj
  refine Option.ext fun v => ?_
  rw [putSlice, getElem?_insertMany_of_nodup hnodup, getElem?_deleteWhere]
  obtain ⟨o, a⟩ := k
  by_cases ho : o = owner
  · subst ho
    simp [ExtTreeMap.mem_toList_iff_getElem?_eq_some]
  · simp [ho, Ne.symm ho, Option.filter_eq_some_iff]

@[simp]
theorem slice_putSlice_self (t : Table (Owned ρ κ) α) (owner : ρ) (rows : Table κ α) :
    (t.putSlice owner rows).slice owner = rows := by
  refine ExtTreeMap.ext_getElem? fun k => ?_
  rw [getElem?_slice, getElem?_putSlice, if_pos rfl]

/-- **The frame law**: the slices of other owners do not move. -/
theorem slice_putSlice_of_ne (t : Table (Owned ρ κ) α) {owner other : ρ} (h : other ≠ owner)
    (rows : Table κ α) : (t.putSlice owner rows).slice other = t.slice other := by
  refine ExtTreeMap.ext_getElem? fun k => ?_
  rw [getElem?_slice, getElem?_putSlice, if_neg h, getElem?_slice]

@[simp]
theorem putSlice_putSlice (t : Table (Owned ρ κ) α) (owner : ρ) (rows rows' : Table κ α) :
    (t.putSlice owner rows).putSlice owner rows' = t.putSlice owner rows' := by
  refine ExtTreeMap.ext_getElem? fun k => ?_
  simp only [getElem?_putSlice]
  split_ifs <;> rfl

@[simp]
theorem putSlice_slice (t : Table (Owned ρ κ) α) (owner : ρ) :
    t.putSlice owner (t.slice owner) = t := by
  refine ExtTreeMap.ext_getElem? fun k => ?_
  rw [getElem?_putSlice]
  split_ifs with h
  · subst h
    exact getElem?_slice ..
  · rfl

/-! Statements that name an owner are changes of its slice. -/

@[simp]
theorem putSlice_upsert [DecidableEq κ] (t : Table (Owned ρ κ) α) (owner : ρ) (k : κ) (v : α) :
    t.putSlice owner ((t.slice owner).insert k v) = t.insert ⟨owner, k⟩ v := by
  refine ExtTreeMap.ext_getElem? fun a => ?_
  obtain ⟨o, a⟩ := a
  rw [getElem?_putSlice, getElem?_upsert, getElem?_upsert, getElem?_slice]
  by_cases ho : o = owner
  · simp [ho]
  · simp [ho, Ne.symm ho]

@[simp]
theorem putSlice_delete [DecidableEq κ] (t : Table (Owned ρ κ) α) (owner : ρ) (k : κ) :
    t.putSlice owner ((t.slice owner).erase k) = t.erase ⟨owner, k⟩ := by
  refine ExtTreeMap.ext_getElem? fun a => ?_
  obtain ⟨o, a⟩ := a
  rw [getElem?_putSlice, getElem?_delete, getElem?_delete, getElem?_slice]
  by_cases ho : o = owner
  · simp [ho]
  · simp [ho, Ne.symm ho]

@[simp]
theorem putSlice_deleteWhere (t : Table (Owned ρ κ) α) (owner : ρ) (p : κ → α → Bool) :
    t.putSlice owner ((t.slice owner).deleteWhere p) =
      t.deleteWhere fun k v => k.owner = owner && p k.key v := by
  refine ExtTreeMap.ext_getElem? fun a => ?_
  obtain ⟨o, a⟩ := a
  rw [getElem?_putSlice, getElem?_deleteWhere, getElem?_deleteWhere, getElem?_slice]
  by_cases ho : o = owner
  · simp [ho]
  · cases t[(⟨o, a⟩ : Owned ρ κ)]? <;> simp [ho, Option.filter]

@[simp]
theorem putSlice_empty (t : Table (Owned ρ κ) α) (owner : ρ) :
    t.putSlice owner ∅ = t.deleteWhere fun k _ => k.owner = owner := by
  refine ExtTreeMap.ext_getElem? fun a => ?_
  rw [getElem?_putSlice, getElem?_deleteWhere]
  by_cases ho : a.owner = owner
  · simp [ho]
  · cases t[a]? <;> simp [ho, Option.filter]

end Slices

/-! ## §3 — A table with one row for each owner -/

section Cells

variable {ρ α : Type*} [Ord ρ] [TransOrd ρ] [LawfulEqOrd ρ]

def putCell (t : Table ρ α) (owner : ρ) : Option α → Table ρ α
  | some row => t.insert owner row
  | none => t.erase owner

omit [LawfulEqOrd ρ] in
@[simp] theorem putCell_some (t : Table ρ α) (owner : ρ) (row : α) :
    t.putCell owner (some row) = t.insert owner row := rfl

theorem getElem?_putCell [DecidableEq ρ] (t : Table ρ α) (owner : ρ) (row : Option α) (k : ρ) :
    (t.putCell owner row)[k]? = if owner = k then row else t[k]? := by
  cases row with
  | some row => exact getElem?_upsert ..
  | none => exact getElem?_delete ..

@[simp]
theorem getElem?_putCell_self (t : Table ρ α) (owner : ρ) (row : Option α) :
    (t.putCell owner row)[owner]? = row := by
  classical rw [getElem?_putCell, if_pos rfl]

theorem getElem?_putCell_of_ne (t : Table ρ α) {owner other : ρ} (h : other ≠ owner)
    (row : Option α) : (t.putCell owner row)[other]? = t[other]? := by
  classical rw [getElem?_putCell, if_neg h.symm]

@[simp]
theorem putCell_putCell (t : Table ρ α) (owner : ρ) (row row' : Option α) :
    (t.putCell owner row).putCell owner row' = t.putCell owner row' := by
  classical
  refine ExtTreeMap.ext_getElem? fun k => ?_
  simp only [getElem?_putCell]
  split_ifs <;> rfl

@[simp]
theorem putCell_getElem? (t : Table ρ α) (owner : ρ) : t.putCell owner t[owner]? = t := by
  classical
  refine ExtTreeMap.ext_getElem? fun k => ?_
  rw [getElem?_putCell]
  split_ifs with h
  · rw [h]
  · rfl

end Cells

end Table

end Robinhood.Lib
