/-
# Store.JsonOrder — objects in key order

The members of an object are kept in a `BTreeMap`, and so in key order.  Inserting and removing members keeps
the order, and two objects in key order are equal when every lookup in them answers the same.
-/
import Mathlib
import Robinhood.Store.Xattr

namespace Robinhood.Store

namespace Json

def Ordered (members : List (String × Json)) : Prop := members.Pairwise fun a b => a.1 < b.1

variable {name : String} {value : Json} {members others : List (String × Json)}

theorem mem_insertMember {m : String × Json} (h : m ∈ insertMember name value members) :
    m = (name, value) ∨ m ∈ members := by
  induction members with
  | nil => exact .inl (List.mem_singleton.1 h)
  | cons n members ih =>
    unfold insertMember at h
    split_ifs at h with hkey hlt
    · exact (List.mem_cons.1 h).imp_right (.tail _)
    · exact List.mem_cons.1 h
    · obtain rfl | h := List.mem_cons.1 h
      · exact .inr List.mem_cons_self
      · exact (ih h).imp_right (.tail _)

theorem Ordered.insertMember (h : Ordered members) : Ordered (insertMember name value members) := by
  induction members with
  | nil => exact List.pairwise_singleton _ _
  | cons m members ih =>
    obtain ⟨hfirst, hrest⟩ := List.pairwise_cons.1 h
    unfold Json.insertMember
    split_ifs with hkey hlt
    · subst hkey
      exact List.pairwise_cons.2 ⟨hfirst, hrest⟩
    · refine List.pairwise_cons.2 ⟨fun n hn => ?_, h⟩
      obtain rfl | hn := List.mem_cons.1 hn
      · exact hlt
      · exact lt_trans hlt (hfirst n hn)
    · refine List.pairwise_cons.2 ⟨fun n hn => ?_, ih hrest⟩
      obtain rfl | hn := mem_insertMember hn
      · exact lt_of_le_of_ne (not_lt.1 hlt) hkey
      · exact hfirst n hn

theorem Ordered.removeMember (h : Ordered members) : Ordered (removeMember name members) :=
  List.Pairwise.filter _ h

theorem Ordered.lookup_eq_some (h : Ordered members) {m : String × Json} :
    lookup m.1 members = some m.2 ↔ m ∈ members := by
  induction members with
  | nil => simp
  | cons n members ih =>
    obtain ⟨hfirst, hrest⟩ := List.pairwise_cons.1 h
    rw [lookup_cons]
    by_cases hkey : n.1 = m.1
    · -- a later member of the same key would be larger than itself
      have hlater : m ∉ members := fun hm => (hkey ▸ hfirst m hm).false
      rw [if_pos hkey, Option.some.injEq, List.mem_cons]
      constructor
      · intro hvalue
        exact .inl (Prod.ext hkey.symm hvalue.symm)
      · rintro (rfl | hm)
        · rfl
        · exact absurd hm hlater
    · rw [if_neg hkey, ih hrest, List.mem_cons]
      exact ⟨.inr, fun hm => hm.resolve_left fun e => hkey (congrArg Prod.fst e.symm)⟩

/-- **Two objects in key order with the same lookups are equal.** -/
theorem Ordered.ext (h : Ordered members) (h' : Ordered others)
    (hlookup : ∀ key, lookup key members = lookup key others) : members = others := by
  have hnodup : ∀ {ms : List (String × Json)}, Ordered ms → ms.Nodup := by
    intro ms hms
    exact hms.imp fun hlt e => (e ▸ hlt).false
  have hmem : ∀ m, m ∈ members ↔ m ∈ others := by
    intro m
    rw [← h.lookup_eq_some, ← h'.lookup_eq_some, hlookup]
  refine List.Perm.eq_of_pairwise (fun a b _ _ hab hba => absurd hab hba.asymm) h h' ?_
  exact (List.perm_ext_iff_of_nodup (hnodup h) (hnodup h')).2 hmem

theorem insertMember_insertMember {value' : Json} :
    insertMember name value' (insertMember name value members) = insertMember name value' members := by
  induction members with
  | nil => simp [insertMember]
  | cons m members ih =>
    by_cases hkey : m.1 = name
    · simp [insertMember, hkey]
    · by_cases hlt : name < m.1
      · simp [insertMember, hkey, hlt]
      · simp [insertMember, hkey, hlt, ih]

end Json

/-! ## §1 — tags in order -/

theorem ordered_retag {members : List (String × Json)} (h : Json.Ordered members) (tags : TagMap)
    (clearKeys : List String) : Json.Ordered (retag tags clearKeys members) := by
  have hclear : ∀ (names : List String) {ms : List (String × Json)}, Json.Ordered ms →
      Json.Ordered (names.foldl (fun ms name => Json.removeMember name ms) ms) := by
    intro names
    induction names with
    | nil => exact id
    | cons name names ih => exact fun hms => ih hms.removeMember
  have hset : ∀ (pairs : List (String × String)) {ms : List (String × Json)}, Json.Ordered ms →
      Json.Ordered (pairs.foldl (fun ms t => Json.insertMember t.1 (.str t.2) ms) ms) := by
    intro pairs
    induction pairs with
    | nil => exact id
    | cons t pairs ih => exact fun hms => ih hms.insertMember
  exact hset _ (hclear _ h)

theorem xattrMembers_withXattrs {members : List (String × Json)} {status status' : Json}
    (h : withXattrs members status = some status') : xattrMembers status' = members := by
  cases status with
  | obj ms =>
    obtain rfl := Option.some.inj h
    simp [xattrMembers, Json.get, Json.asObject]
  | null =>
    obtain rfl := Option.some.inj h
    simp [xattrMembers, Json.get, Json.lookup_cons, Json.asObject]
  | _ => cases h

theorem withXattrs_withXattrs {members members' : List (String × Json)} {status status' : Json}
    (h : withXattrs members status = some status') :
    withXattrs members' status' = withXattrs members' status := by
  cases status with
  | obj ms =>
    obtain rfl := Option.some.inj h
    simp [withXattrs, Json.insertMember_insertMember]
  | null =>
    obtain rfl := Option.some.inj h
    simp [withXattrs, Json.insertMember]
  | _ => cases h

/-- **A member other than the tags** stays. -/
theorem get_withXattrs_of_ne {members : List (String × Json)} {status status' : Json} {name : String}
    (h : withXattrs members status = some status') (hname : name ≠ "xattr") :
    status'.get name = status.get name := by
  cases status with
  | obj ms =>
    obtain rfl := Option.some.inj h
    exact Json.lookup_insertMember_of_ne hname
  | null =>
    obtain rfl := Option.some.inj h
    simp [Json.get, Json.lookup_cons, hname.symm]
  | _ => cases h

end Robinhood.Store
