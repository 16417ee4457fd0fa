/-
# Store.Xattr — the tags of an entry

`update_scoped_xattr` (`rbh-entry-store/src/store.rs`) replaces tags under `sm_status.xattr`: the keys to
clear go, the new tags come.  It reads the row in one statement and writes the whole row in another.  A
status that is neither an object nor null has no place for the member, and the task panics.
-/
import Mathlib
import Robinhood.Store.Catalog

namespace Robinhood.Store

open Lib

/-- Tags, a `HashMap<String, String>`; the order of its iteration does not matter here. -/
abbrev TagMap := Std.ExtTreeMap String String

inductive XattrError
  | store (error : StoreError)
  | panicked
  deriving DecidableEq

/-- The members of `sm_status.xattr`, an empty object put there if there was none. -/
def xattrMembers (status : Json) : List (String × Json) := ((status.get "xattr").bind Json.asObject).getD []

/-- The status with these members under `xattr`; `none` where it cannot have members. -/
def withXattrs (members : List (String × Json)) : Json → Option Json
  | .obj status => some (.obj (Json.insertMember "xattr" (.obj members) status))
  | .null => some (.obj [("xattr", .obj members)])
  | _ => none

def retag (tags : TagMap) (clearKeys : List String) (members : List (String × Json)) :
    List (String × Json) :=
  tags.toList.foldl (fun ms t => Json.insertMember t.1 (.str t.2) ms)
    (clearKeys.foldl (fun ms name => Json.removeMember name ms) members)

/-- **`EntryStore::update_scoped_xattr`.** -/
def updateScopedXattr (key : EntryKey) (tags : TagMap) (clearKeys : List String) :
    Proc Catalog XattrError Bool := do
  match ← (getScopedEntry key).mapError XattrError.store with
  | none => pure false
  | some entry =>
    match withXattrs (retag tags clearKeys (xattrMembers entry.smStatus)) entry.smStatus with
    | none => .fail .panicked
    | some status => do
      (upsertScopedEntry { entry with smStatus := status }).mapError XattrError.store
      pure true

/-! ## §1 — tags one by one -/

def tagAt (status : Json) (key : String) : Option Json := (status.get "xattr").bind (Json.get key)

theorem tagAt_eq_lookup (status : Json) (key : String) :
    tagAt status key = Json.lookup key (xattrMembers status) := by
  unfold tagAt xattrMembers
  cases status.get "xattr" with
  | none => rfl
  | some x => cases x <;> rfl

theorem tagAt_withXattrs {members : List (String × Json)} {status status' : Json}
    (h : withXattrs members status = some status') (key : String) :
    tagAt status' key = Json.lookup key members := by
  cases status with
  | obj ms =>
    obtain rfl := Option.some.inj h
    simp [tagAt, Json.get]
  | null =>
    obtain rfl := Option.some.inj h
    simp [tagAt, Json.get, Json.lookup_cons]
  | _ => cases h

theorem lookup_foldl_removeMember (names : List String) (members : List (String × Json)) (key : String) :
    Json.lookup key (names.foldl (fun ms name => Json.removeMember name ms) members) =
      if key ∈ names then none else Json.lookup key members := by
  induction names generalizing members with
  | nil => simp
  | cons name names ih =>
    rw [List.foldl_cons, ih]
    by_cases hkey : key = name
    · subst hkey
      simp
    · simp [hkey, Json.lookup_removeMember_of_ne hkey]

theorem lookup_foldl_insertMember (pairs : List (String × String)) (members : List (String × Json))
    (key : String) (h : (pairs.map Prod.fst).Nodup) :
    Json.lookup key (pairs.foldl (fun ms t => Json.insertMember t.1 (.str t.2) ms) members) =
      match pairs.find? fun t => t.1 = key with
      | some t => some (.str t.2)
      | none => Json.lookup key members := by
  induction pairs generalizing members with
  | nil => rfl
  | cons t pairs ih =>
    obtain ⟨hfresh, hnodup⟩ := List.nodup_cons.1 h
    rw [List.foldl_cons, ih _ hnodup]
    by_cases hkey : t.1 = key
    · have hnone : (pairs.find? fun u => u.1 = key) = none := by
        rw [List.find?_eq_none]
        intro u hu heq
        exact hfresh (List.mem_map.2 ⟨u, hu, (of_decide_eq_true heq).trans hkey.symm⟩)
      simp [hnone, hkey]
    · rw [List.find?_cons_of_neg (by simpa using hkey),
        Json.lookup_insertMember_of_ne (fun e => hkey e.symm)]

/-- **A tag after the update**: the new value, else nothing if the key is cleared, else what it was. -/
theorem lookup_retag (tags : TagMap) (clearKeys : List String) (members : List (String × Json))
    (key : String) :
    Json.lookup key (retag tags clearKeys members) =
      match tags[key]? with
      | some value => some (.str value)
      | none => if key ∈ clearKeys then none else Json.lookup key members := by
  have hnodup : (tags.toList.map Prod.fst).Nodup := by
    rw [Std.ExtTreeMap.map_fst_toList_eq_keys]
    exact Std.ExtTreeMap.nodup_keys
  rw [retag, lookup_foldl_insertMember _ _ _ hnodup, lookup_foldl_removeMember]
  cases hfind : tags.toList.find? fun t => t.1 = key with
  | none =>
    have hnone : tags[key]? = none := by
      rw [Option.eq_none_iff_forall_ne_some]
      intro v hv
      have hmem := Std.ExtTreeMap.mem_toList_iff_getElem?_eq_some.2 hv
      simpa using List.find?_eq_none.1 hfind _ hmem
    rw [hnone]
  | some t =>
    have hkey : t.1 = key := by simpa using List.find?_some hfind
    have hget : tags[t.1]? = some t.2 :=
      Std.ExtTreeMap.mem_toList_iff_getElem?_eq_some.1 (List.mem_of_find?_eq_some hfind)
    rw [hkey] at hget
    rw [hget]

/-! ## §2 — the update -/

section Runs

variable {c c' : Catalog} {key : EntryKey} {entry : ScopedEntryRow} {tags : TagMap}
  {clearKeys : List String} {b : Bool}

/-- **An update that returns Ok** has written the row back with the tags replaced, and nothing else. -/
theorem run_updateScopedXattr_ok (hrow : c.scopedEntry key = .ok (some entry))
    (h : (updateScopedXattr key tags clearKeys).run c = (.ok b, c')) :
    ∃ status, c' = c.putRow key.object { entry with smStatus := status } ∧
      ∀ name, tagAt status name = match tags[name]? with
        | some value => some (.str value)
        | none => if name ∈ clearKeys then none else tagAt entry.smStatus name := by
  simp only [updateScopedXattr, getScopedEntry, Proc.run_bind, Proc.run_mapError, Proc.run_ask, hrow,
    Except.mapError] at h
  split at h
  · simp at h
  · next status hstatus =>
    have hkey : entry.key = key := (scopedEntry_eq_some.1 hrow).2
    rw [Proc.run_bind, Proc.run_mapError] at h
    cases hrun : (upsertScopedEntry { entry with smStatus := status }).run c with
    | mk r d =>
      rw [hrun] at h
      cases r with
      | error e => simp [Except.mapError] at h
      | ok u =>
        obtain ⟨-, hd⟩ := run_upsertScopedEntry_ok.1 hrun
        have hc' : d = c' := by
          have h2 := congrArg Prod.snd h
          simpa [Except.mapError] using h2
        refine ⟨status, ?_, fun name => ?_⟩
        · rw [← hc', hd, ← hkey]
        · rw [tagAt_withXattrs hstatus, lookup_retag, tagAt_eq_lookup]

/-- **An update, whatever it answers**, leaves the catalog alone or writes the row with another status. -/
theorem run_updateScopedXattr_snd_cases (c : Catalog) (key : EntryKey) (tags : TagMap)
    (clearKeys : List String) :
    ((updateScopedXattr key tags clearKeys).run c).2 = c ∨
      ∃ entry members status, c.scopedEntry key = .ok (some entry) ∧
        withXattrs members entry.smStatus = some status ∧
        ((updateScopedXattr key tags clearKeys).run c).2 = c.withEntry { entry with smStatus := status } := by
  rw [updateScopedXattr, getScopedEntry, Proc.run_bind, Proc.run_mapError, Proc.run_ask]
  rcases c.scopedEntry key with e | _ | entry
  · exact .inl rfl
  · exact .inl rfl
  · dsimp only [Except.mapError]
    cases hstatus : withXattrs (retag tags clearKeys (xattrMembers entry.smStatus)) entry.smStatus with
    | none => exact .inl rfl
    | some status =>
      refine .inr ⟨entry, _, status, rfl, hstatus, (Proc.run_bind_snd_of_pure _ _ _).trans ?_⟩
      rw [Proc.run_mapError]
      exact run_upsertScopedEntry_snd _ _

end Runs

end Robinhood.Store
