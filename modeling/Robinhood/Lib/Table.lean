/-
# Lib.Table — keyed tables

A database table with a primary key is a finite map that can be listed in key order.  The carrier is
`Std.ExtTreeMap`, so two tables with the same rows are equal; this module adds what a reader of SQL
expects of it: lookups after an upsert, a delete and a conditional delete, stated with equality of
keys, and `keysWith`, the keys of the rows holding one value, with its length under updates.
-/
import Mathlib

namespace Robinhood.Lib

open Std (TransOrd LawfulEqOrd ExtTreeMap)

/-- **A table** with primary key `κ`: a finite map, listed in the order of `compare`. -/
abbrev Table (κ : Type*) (α : Type*) [Ord κ] := ExtTreeMap κ α compare

namespace Table

variable {κ α : Type*} [Ord κ] [TransOrd κ] [LawfulEqOrd κ]

/-! ## §1 — Lookups -/

@[simp]
theorem getElem?_upsert [DecidableEq κ] (t : Table κ α) (k a : κ) (v : α) :
    (t.insert k v)[a]? = if k = a then some v else t[a]? := by
  rw [ExtTreeMap.getElem?_insert]
  simp only [LawfulEqOrd.compare_eq_iff_eq]

@[simp]
theorem getElem?_delete [DecidableEq κ] (t : Table κ α) (k a : κ) :
    (t.erase k)[a]? = if k = a then none else t[a]? := by
  rw [ExtTreeMap.getElem?_erase]
  simp only [LawfulEqOrd.compare_eq_iff_eq]

/-- **A conditional delete**: the rows for which `p` holds go, the others stay as they are. -/
def deleteWhere (t : Table κ α) (p : κ → α → Bool) : Table κ α :=
  t.filter fun k v => !p k v

@[simp]
theorem getElem?_deleteWhere (t : Table κ α) (p : κ → α → Bool) (a : κ) :
    (t.deleteWhere p)[a]? = t[a]?.filter fun v => !p a v := by
  rw [deleteWhere, ExtTreeMap.getElem?_filter']

theorem upsert_eq_self {t : Table κ α} {k : κ} {v : α} (h : t[k]? = some v) :
    t.insert k v = t := by
  classical
  refine ExtTreeMap.ext_getElem? fun a => ?_
  rw [getElem?_upsert]
  split_ifs with hk
  · rw [← hk, h]
  · rfl

theorem delete_eq_self {t : Table κ α} {k : κ} (h : t[k]? = none) : t.erase k = t := by
  classical
  refine ExtTreeMap.ext_getElem? fun a => ?_
  rw [getElem?_delete]
  split_ifs with hk
  · rw [← hk, h]
  · rfl

theorem upsert_upsert (t : Table κ α) (k : κ) (v w : α) :
    (t.insert k v).insert k w = t.insert k w := by
  classical
  refine ExtTreeMap.ext_getElem? fun a => ?_
  simp only [getElem?_upsert]
  split_ifs <;> rfl

theorem getElem?_foldl_upsert [DecidableEq κ] {β : Type*} {rows : List (κ × β)}
    (hnodup : (rows.map Prod.fst).Nodup) (f : κ × β → α) (t : Table κ α) {k : κ} {v : Option β}
    (hv : ∀ b, (k, b) ∈ rows ↔ v = some b) :
    (rows.foldl (fun t row => t.insert row.1 (f row)) t)[k]? = (v.map fun b => f (k, b)).or t[k]? := by
  induction rows generalizing t v with
  | nil =>
    cases v with
    | none => simp
    | some b => simp at hv
  | cons row rows ih =>
    obtain ⟨key, b⟩ := row
    rw [List.map_cons, List.nodup_cons] at hnodup
    by_cases hk : key = k
    · subst hk
      have hrest : ∀ b', (key, b') ∈ rows ↔ (none : Option β) = some b' := fun b' =>
        iff_of_false (fun hmem => hnodup.1 (List.mem_map.2 ⟨_, hmem, rfl⟩)) (by simp)
      rw [List.foldl_cons, ih hnodup.2 _ hrest, (hv b).1 List.mem_cons_self]
      simp
    · have hrest : ∀ b', (k, b') ∈ rows ↔ v = some b' := fun b' => by
        rw [← hv b', List.mem_cons, or_iff_right (by simp [Ne.symm hk])]
      rw [List.foldl_cons, ih hnodup.2 _ hrest, getElem?_upsert, if_neg hk]

/-! ## §2 — The keys that hold one value -/

section KeysWith

variable [DecidableEq α]

/-- **The keys of the rows that hold `v`**, in key order. -/
def keysWith (t : Table κ α) (v : α) : List κ :=
  (t.toList.filter fun row => row.2 = v).map Prod.fst

@[simp]
theorem mem_keysWith {t : Table κ α} {v : α} {k : κ} : k ∈ t.keysWith v ↔ t[k]? = some v := by
  simp only [keysWith, List.mem_map, List.mem_filter, decide_eq_true_eq, Prod.exists,
    exists_and_right, exists_eq_right, ExtTreeMap.mem_toList_iff_getElem?_eq_some]

omit [LawfulEqOrd κ] in
theorem length_keysWith_le_size (t : Table κ α) (v : α) : (t.keysWith v).length ≤ t.size := by
  rw [keysWith, List.length_map, ← ExtTreeMap.length_toList]
  exact List.length_filter_le ..

omit [LawfulEqOrd κ] in
theorem nodup_keysWith (t : Table κ α) (v : α) : (t.keysWith v).Nodup := by
  have hkeys : (t.toList.map Prod.fst).Nodup := by
    rw [ExtTreeMap.map_fst_toList_eq_keys]
    exact ExtTreeMap.nodup_keys
  exact hkeys.sublist (List.filter_sublist.map _)

/-- The keys holding `v` depend only on which lookups answer `v`. -/
theorem keysWith_perm {t u : Table κ α} {v : α} (h : ∀ k : κ, t[k]? = some v ↔ u[k]? = some v) :
    (t.keysWith v).Perm (u.keysWith v) := by
  rw [List.perm_ext_iff_of_nodup (nodup_keysWith t v) (nodup_keysWith u v)]
  intro k
  rw [mem_keysWith, mem_keysWith, h]

theorem keysWith_congr {t u : Table κ α} {v : α} (h : ∀ k : κ, t[k]? = some v ↔ u[k]? = some v) :
    t.keysWith v = u.keysWith v := by
  have hsorted : ∀ t : Table κ α, (t.keysWith v).Pairwise fun a b => compare a b = .lt := by
    intro t
    have hkeys : (t.toList.map Prod.fst).Pairwise fun a b => compare a b = .lt := by
      rw [ExtTreeMap.map_fst_toList_eq_keys]
      exact ExtTreeMap.ordered_keys
    exact hkeys.sublist (List.filter_sublist.map _)
  refine List.Perm.eq_of_pairwise ?_ (hsorted t) (hsorted u) (keysWith_perm h)
  intro a b _ _ hab hba
  exact absurd hba (Std.OrientedCmp.not_lt_of_lt hab)

theorem length_keysWith_congr {t u : Table κ α} {v : α}
    (h : ∀ k : κ, t[k]? = some v ↔ u[k]? = some v) :
    (t.keysWith v).length = (u.keysWith v).length :=
  (keysWith_perm h).length_eq

theorem length_keysWith_le {t u : Table κ α} {v : α}
    (h : ∀ k : κ, t[k]? = some v → u[k]? = some v) :
    (t.keysWith v).length ≤ (u.keysWith v).length :=
  (List.subperm_of_subset (nodup_keysWith t v) fun k hk =>
    mem_keysWith.2 (h k (mem_keysWith.1 hk))).length_le

/-- One more key holds `v` in `u` than in `t`. -/
theorem length_keysWith_add_one {t u : Table κ α} {v : α} {k : κ} (hk : t[k]? ≠ some v)
    (h : ∀ a : κ, u[a]? = some v ↔ a = k ∨ t[a]? = some v) :
    (u.keysWith v).length = (t.keysWith v).length + 1 := by
  have hnodup : (k :: t.keysWith v).Nodup :=
    List.nodup_cons.2 ⟨by rwa [mem_keysWith], nodup_keysWith t v⟩
  have hperm : (u.keysWith v).Perm (k :: t.keysWith v) := by
    rw [List.perm_ext_iff_of_nodup (nodup_keysWith u v) hnodup]
    intro a
    rw [mem_keysWith, List.mem_cons, mem_keysWith, h]
  simpa using hperm.length_eq

theorem keysWith_eq_singleton {t : Table κ α} {v : α} {k : κ} (hk : t[k]? = some v)
    (h : ∀ a : κ, t[a]? = some v → a = k) : t.keysWith v = [k] := by
  refine List.perm_singleton.1 ?_
  rw [List.perm_ext_iff_of_nodup (nodup_keysWith t v) (List.nodup_singleton k)]
  intro a
  rw [mem_keysWith, List.mem_singleton]
  exact ⟨h a, fun ha => ha ▸ hk⟩

end KeysWith

end Table

end Robinhood.Lib
