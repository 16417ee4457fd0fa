/-
# Policy.Commute — the order of classifiers

`apply_classifiers` runs the classifiers one after the other, and each of them reads the row back and writes
it again.  Their rules are evaluated on the row that was loaded before, and they read its fields, not its
tags.  So of classifiers that own different tags it makes no difference which comes first, and a second run
finds everything as it would leave it.
-/
import Mathlib
import Robinhood.Policy.Conditions
import Robinhood.Store.JsonOrder

namespace Robinhood.Policy

open Lib Store
open Predicate (TextLibrary extractField)

/-! ## §1 — one run as a change of the status -/

/-- A status that can have members. -/
def HasPlace : Json → Prop
  | .obj _ | .null => True
  | _ => False

theorem exists_withXattrs {status : Json} (h : HasPlace status) (members : List (String × Json)) :
    ∃ status', withXattrs members status = some status' ∧ HasPlace status' := by
  cases status with
  | obj | null => exact ⟨_, rfl, trivial⟩
  | _ => cases h

theorem withXattrs_of_not_hasPlace {status : Json} (h : ¬ HasPlace status) (members : List (String × Json)) :
    withXattrs members status = none := by
  cases status with
  | obj | null => exact absurd trivial h
  | _ => rfl

section Status

variable (lib : TextLibrary) (entry : ScopedEntryRow)

def classified (status : Json) (k : ClassifierRow × Int64) : Json :=
  match k.1.enabled, firstRule lib k.2 entry k.1.definition with
  | true, some rule =>
    (withXattrs (retag rule.set k.1.definition.manages (xattrMembers status)) status).getD status
  | _, _ => status

def Active (k : ClassifierRow × Int64) : Prop :=
  k.1.enabled = true ∧ (firstRule lib k.2 entry k.1.definition).isSome

variable {lib entry} {k : ClassifierRow × Int64} {ks : List (ClassifierRow × Int64)} {status : Json}

theorem classified_of_not_active (h : ¬ Active lib entry k) : classified lib entry status k = status := by
  unfold classified
  split
  · next henabled hrule => exact absurd ⟨henabled, by rw [hrule]; rfl⟩ h
  · rfl

/-- An active classifier writes the tags, changed as `retagged` says and in order. -/
theorem classified_of_active (h : Active lib entry k) (hplace : HasPlace status) :
    ∃ members, withXattrs members status = some (classified lib entry status k) ∧
      (Json.Ordered (xattrMembers status) → Json.Ordered members) ∧
      (fun name => Json.lookup name members) = retagged lib entry k (tagAt status) := by
  obtain ⟨henabled, hsome⟩ := h
  obtain ⟨rule, hrule⟩ := Option.isSome_iff_exists.1 hsome
  refine ⟨retag rule.set k.1.definition.manages (xattrMembers status), ?_, fun h => ordered_retag h _ _, ?_⟩
  · obtain ⟨status', hstatus, -⟩ := exists_withXattrs hplace
      (retag rule.set k.1.definition.manages (xattrMembers status))
    rw [classified, henabled, hrule]
    simp only [hstatus, Option.getD_some]
  · funext name
    rw [lookup_retag, retagged_of_rule lib henabled hrule, tagAt_eq_lookup]
    cases rule.set[name]? <;> rfl

theorem retagged_of_not_active (h : ¬ Active lib entry k) (before : String → Option Json) :
    retagged lib entry k before = before := by
  funext name
  unfold retagged
  split
  · next henabled hrule => exact absurd ⟨henabled, by rw [hrule]; rfl⟩ h
  · rfl

theorem foldl_retagged_of_not_active (h : ∀ k ∈ ks, ¬ Active lib entry k) (before : String → Option Json) :
    ks.foldl (fun tags k => retagged lib entry k tags) before = before := by
  induction ks with
  | nil => rfl
  | cons k ks ih =>
    rw [List.foldl_cons, retagged_of_not_active (h k List.mem_cons_self)]
    exact ih fun l hl => h l (.tail _ hl)

/-- **What a run makes of a status**: nothing where no classifier is active, and else an object of tags in
order, changed classifier by classifier. -/
theorem foldl_classified (hplace : HasPlace status) (hordered : Json.Ordered (xattrMembers status)) :
    HasPlace (ks.foldl (classified lib entry) status) ∧
      ((∀ k ∈ ks, ¬ Active lib entry k) → ks.foldl (classified lib entry) status = status) ∧
      ((∃ k ∈ ks, Active lib entry k) → ∃ members,
        withXattrs members status = some (ks.foldl (classified lib entry) status) ∧
        Json.Ordered members ∧ (fun name => Json.lookup name members) =
          ks.foldl (fun tags k => retagged lib entry k tags) (tagAt status)) := by
  induction ks generalizing status with
  | nil => exact ⟨hplace, fun _ => rfl, by rintro ⟨k, hk, -⟩; cases hk⟩
  | cons k ks ih =>
    rw [List.foldl_cons, List.foldl_cons]
    by_cases hk : Active lib entry k
    · obtain ⟨members, hwith, hkeep, hlookup⟩ := classified_of_active hk hplace
      have hmembers := xattrMembers_withXattrs hwith
      have hplace' : HasPlace (classified lib entry status k) := by
        obtain ⟨status', hstatus, hplace'⟩ := exists_withXattrs hplace members
        rwa [Option.some.inj (hwith.symm.trans hstatus)]
      obtain ⟨hlast, hnone, hsome⟩ := ih hplace' (hmembers.symm ▸ hkeep hordered)
      refine ⟨hlast, fun hall => absurd hk (hall k List.mem_cons_self), fun _ => ?_⟩
      have htags : tagAt (classified lib entry status k) = retagged lib entry k (tagAt status) := by
        funext name
        rw [tagAt_withXattrs hwith, ← hlookup]
      rw [← htags]
      by_cases hlater : ∃ l ∈ ks, Active lib entry l
      · -- what a later classifier writes, it writes over these tags
        obtain ⟨members', hwith', hordered', hlookup'⟩ := hsome hlater
        rw [withXattrs_withXattrs hwith] at hwith'
        exact ⟨members', hwith', hordered', hlookup'⟩
      · have hinactive : ∀ l ∈ ks, ¬ Active lib entry l := fun l hl hactive => hlater ⟨l, hl, hactive⟩
        rw [hnone hinactive]
        refine ⟨members, hwith, hkeep hordered, ?_⟩
        rw [hlookup, htags, foldl_retagged_of_not_active hinactive]
    · rw [classified_of_not_active hk, retagged_of_not_active hk]
      obtain ⟨hlast, hnone, hsome⟩ := ih hplace hordered
      refine ⟨hlast, fun hall => hnone fun l hl => hall l (.tail _ hl), ?_⟩
      rintro ⟨l, hl, hactive⟩
      obtain rfl | hl := List.mem_cons.1 hl
      · exact absurd hactive hk
      · exact hsome ⟨l, hl, hactive⟩

end Status

/-! ## §2 — tags commute -/

section Tags

variable {lib : TextLibrary} {entry : ScopedEntryRow} {k l : ClassifierRow × Int64}
  {ks ks' : List (ClassifierRow × Int64)} {before before' : String → Option Json} {name : String}

theorem retagged_congr (h : before name = before' name) :
    retagged lib entry k before name = retagged lib entry k before' name := by
  unfold retagged
  rw [h]

def Manages (k : ClassifierRow) (name : String) : Prop := k.enabled = true ∧ name ∈ k.definition.manages

theorem retagged_of_not_manages (hset : SetsOnlyManaged k.1) (h : ¬ Manages k.1 name) :
    retagged lib entry k before name = before name :=
  retagged_of_not_mem hset fun henabled hmem => h ⟨henabled, hmem⟩

theorem retagged_comm (hk : SetsOnlyManaged k.1) (hl : SetsOnlyManaged l.1)
    (hdisjoint : k.1.enabled → l.1.enabled → k.1.definition.manages.Disjoint l.1.definition.manages)
    (before : String → Option Json) :
    retagged lib entry l (retagged lib entry k before) = retagged lib entry k (retagged lib entry l before) := by
  funext name
  by_cases hname : Manages k.1 name
  · have hother : ¬ Manages l.1 name := fun h => hdisjoint hname.1 h.1 hname.2 h.2
    rw [retagged_of_not_manages hl hother]
    exact retagged_congr (retagged_of_not_manages hl hother).symm
  · rw [retagged_of_not_manages hk hname]
    exact retagged_congr (retagged_of_not_manages hk hname)

/-- **Classifiers of different tags change them in any order.** -/
theorem foldl_retagged_perm (hperm : ks.Perm ks') (hset : ∀ k ∈ ks, SetsOnlyManaged k.1)
    (hdisjoint : DisjointlyManaged ks) (before : String → Option Json) :
    ks.foldl (fun tags k => retagged lib entry k tags) before =
      ks'.foldl (fun tags k => retagged lib entry k tags) before := by
  have hsymm : Std.Symm fun k l : ClassifierRow × Int64 =>
      k.1.enabled → l.1.enabled → k.1.definition.manages.Disjoint l.1.definition.manages :=
    ⟨fun k l h hl hk => (h hk hl).symm⟩
  refine hperm.foldl_eq' (fun k hk l hl tags => ?_) before
  by_cases hkl : k = l
  · rw [hkl]
  · exact retagged_comm (hset k hk) (hset l hl) (hdisjoint.forall hk hl hkl) tags

/-- **A second time changes nothing.** -/
theorem foldl_retagged_idem (hset : ∀ k ∈ ks, SetsOnlyManaged k.1) (hdisjoint : DisjointlyManaged ks)
    (before : String → Option Json) :
    ks.foldl (fun tags k => retagged lib entry k tags)
        (ks.foldl (fun tags k => retagged lib entry k tags) before) =
      ks.foldl (fun tags k => retagged lib entry k tags) before := by
  funext name
  by_cases howned : ∃ k ∈ ks, Manages k.1 name
  · obtain ⟨k, hk, henabled, hname⟩ := howned
    have hfold := fun before : String → Option Json =>
      @foldl_retagged_of_mem lib entry k ks before name hset hdisjoint hk henabled hname
    rw [hfold, hfold]
    split <;> rfl
  · exact foldl_retagged_of_not_mem hset fun k hk henabled hname => howned ⟨k, hk, henabled, hname⟩

/-- **The status after a run does not depend on the order.** -/
theorem foldl_classified_perm {status : Json} (hplace : HasPlace status)
    (hordered : Json.Ordered (xattrMembers status)) (hperm : ks.Perm ks')
    (hset : ∀ k ∈ ks, SetsOnlyManaged k.1) (hdisjoint : DisjointlyManaged ks) :
    ks.foldl (classified lib entry) status = ks'.foldl (classified lib entry) status := by
  obtain ⟨-, hnone, hsome⟩ := @foldl_classified lib entry ks status hplace hordered
  obtain ⟨-, hnone', hsome'⟩ := @foldl_classified lib entry ks' status hplace hordered
  by_cases hactive : ∃ k ∈ ks, Active lib entry k
  · have hactive' : ∃ k ∈ ks', Active lib entry k := by
      obtain ⟨k, hk, hact⟩ := hactive
      exact ⟨k, hperm.mem_iff.1 hk, hact⟩
    obtain ⟨members, hwith, hmembers, hlookup⟩ := hsome hactive
    obtain ⟨members', hwith', hmembers', hlookup'⟩ := hsome' hactive'
    have hsame : members = members' := by
      apply hmembers.ext hmembers'
      intro key
      have htags := hlookup.trans ((foldl_retagged_perm hperm hset hdisjoint _).trans hlookup'.symm)
      exact congrFun htags key
    subst hsame
    exact Option.some.inj (hwith.symm.trans hwith')
  · have hinactive : ∀ k ∈ ks, ¬ Active lib entry k := fun k hk h => hactive ⟨k, hk, h⟩
    rw [hnone hinactive, hnone' fun k hk => hinactive k (hperm.mem_iff.2 hk)]

/-- **The status after a second run** is that after the first. -/
theorem foldl_classified_idem {status : Json} (hplace : HasPlace status)
    (hordered : Json.Ordered (xattrMembers status)) (hset : ∀ k ∈ ks, SetsOnlyManaged k.1)
    (hdisjoint : DisjointlyManaged ks) :
    ks.foldl (classified lib entry) (ks.foldl (classified lib entry) status) =
      ks.foldl (classified lib entry) status := by
  obtain ⟨hplace', hnone, hsome⟩ := @foldl_classified lib entry ks status hplace hordered
  by_cases hactive : ∃ k ∈ ks, Active lib entry k
  · obtain ⟨members, hwith, hmembers, hlookup⟩ := hsome hactive
    have hafter := xattrMembers_withXattrs hwith
    obtain ⟨-, -, hagain⟩ := @foldl_classified lib entry ks _ hplace' (hafter.symm ▸ hmembers)
    obtain ⟨members', hwith', hmembers', hlookup'⟩ := hagain hactive
    have hsame : members' = members := by
      apply hmembers'.ext hmembers
      intro key
      have htags : tagAt (ks.foldl (classified lib entry) status) =
          ks.foldl (fun tags k => retagged lib entry k tags) (tagAt status) := by
        funext name
        rw [tagAt_withXattrs hwith, ← hlookup]
      rw [htags, foldl_retagged_idem hset hdisjoint, ← hlookup] at hlookup'
      exact congrFun hlookup' key
    rw [withXattrs_withXattrs hwith, hsame, hwith] at hwith'
    exact (Option.some.inj hwith').symm
  · have hinactive : ∀ k ∈ ks, ¬ Active lib entry k := fun k hk h => hactive ⟨k, hk, h⟩
    rw [hnone hinactive, hnone hinactive]

end Tags

/-! ## §3 — the catalog after a run -/

structure Writable (c : Catalog) (key : EntryKey) (row : ScopedEntryRow) : Prop where
  there : c.scopedEntry key = .ok (some row)
  place : HasPlace row.smStatus
  accepts : c.Accepts row

section Runs

variable {lib : TextLibrary} {filesystem : FileSystemId} {entry : EntryRow} {row : ScopedEntryRow}
  {ks : List (ClassifierRow × Int64)} {c : Catalog} {key : EntryKey} {tags : TagMap}
  {clearKeys : List String} {status : Json}

theorem run_updateScopedXattr_of_writable (h : Writable c key row)
    (hstatus : withXattrs (retag tags clearKeys (xattrMembers row.smStatus)) row.smStatus = some status) :
    (updateScopedXattr key tags clearKeys).run c =
      (.ok true, c.putRow key.object { row with smStatus := status }) := by
  have hkey : row.key = key := (scopedEntry_eq_some.1 h.there).2
  have haccepts : c.Accepts { row with smStatus := status } := h.accepts
  rw [updateScopedXattr, getScopedEntry, Proc.run_bind, Proc.run_mapError, Proc.run_ask, h.there]
  simp only [Except.mapError, hstatus]
  rw [Proc.run_bind, Proc.run_mapError, run_upsertScopedEntry_of_accepts haccepts, ← hkey]
  rfl

theorem run_updateScopedXattr_of_not_writable (h : ∀ row, ¬ Writable c key row) :
    ((updateScopedXattr key tags clearKeys).run c).2 = c := by
  rw [updateScopedXattr, getScopedEntry, Proc.run_bind, Proc.run_mapError, Proc.run_ask]
  cases hthere : c.scopedEntry key with
  | error => rfl
  | ok found =>
    cases found with
    | none => rfl
    | some row =>
      simp only [Except.mapError]
      split
      · rfl
      · next status hstatus =>
        have hplace : HasPlace row.smStatus := by
          by_contra hplace
          rw [withXattrs_of_not_hasPlace hplace] at hstatus
          cases hstatus
        have haccepts : ¬ c.Accepts { row with smStatus := status } := fun haccepts =>
          h row ⟨hthere, hplace, haccepts⟩
        obtain ⟨e, he⟩ := run_upsertScopedEntry_of_not_accepts haccepts
        rw [Proc.run_bind, Proc.run_mapError, he]
        rfl

theorem Writable.putRow (h : Writable c key row) (hplace : HasPlace status) :
    Writable (c.putRow key.object { row with smStatus := status }) key { row with smStatus := status } where
  there := scopedEntry_eq_some.2 ⟨by rw [Catalog.row_putRow, if_pos rfl], (scopedEntry_eq_some.1 h.there).2⟩
  place := hplace
  accepts := h.accepts

theorem applyClassifiers_of_not_active {k : ClassifierRow × Int64}
    (h : ¬ Active lib (.fromLustre filesystem entry) k) :
    applyClassifiers lib filesystem entry (k :: ks) = applyClassifiers lib filesystem entry ks := by
  obtain ⟨classifier, now⟩ := k
  rw [applyClassifiers, evaluateClassifier_eq]
  split
  · next henabled =>
    split
    · next set hset =>
      obtain ⟨rule, hrule, -⟩ := Option.map_eq_some_iff.1 hset
      exact absurd ⟨henabled, Option.isSome_iff_exists.2 ⟨rule, hrule⟩⟩ h
    · rfl
  · rfl

theorem applyClassifiers_of_active {k : ClassifierRow × Int64} {rule : ClassifierRule}
    (henabled : k.1.enabled = true)
    (hrule : firstRule lib k.2 (.fromLustre filesystem entry) k.1.definition = some rule) :
    applyClassifiers lib filesystem entry (k :: ks) = (do
      let _ ← updateScopedXattr ⟨filesystem, .lustre entry.fid⟩ rule.set k.1.definition.manages
      applyClassifiers lib filesystem entry ks) := by
  obtain ⟨classifier, now⟩ := k
  rw [applyClassifiers, evaluateClassifier_eq, if_pos henabled]
  unfold firstRule at hrule
  simp only [hrule, Option.map_some]

/-- **A run on a row that can be written** writes it once more with the status changed by each classifier. -/
theorem run_applyClassifiers_of_writable (h : Writable c ⟨filesystem, .lustre entry.fid⟩ row) :
    (applyClassifiers lib filesystem entry ks).run c =
      (.ok (), c.putRow (.lustre entry.fid)
        { row with smStatus := ks.foldl (classified lib (.fromLustre filesystem entry)) row.smStatus }) := by
  induction ks generalizing c row with
  | nil =>
    have hrow : c.row (.lustre entry.fid) = some row := (scopedEntry_eq_some.1 h.there).1
    show ((.ok (), c) : Except XattrError Unit × Catalog) = _
    rw [List.foldl_nil, Catalog.putRow, Table.upsert_eq_self hrow]
  | cons k ks ih =>
    rw [List.foldl_cons]
    by_cases hactive : Active lib (.fromLustre filesystem entry) k
    · obtain ⟨rule, hrule⟩ := Option.isSome_iff_exists.1 hactive.2
      obtain ⟨status, hstatus, hplace⟩ := exists_withXattrs h.place
        (retag rule.set k.1.definition.manages (xattrMembers row.smStatus))
      have hclassified : classified lib (.fromLustre filesystem entry) row.smStatus k = status := by
        rw [classified, hactive.1, hrule]
        simp only [hstatus, Option.getD_some]
      rw [applyClassifiers_of_active hactive.1 hrule,
        Proc.run_bind_ok (run_updateScopedXattr_of_writable h hstatus), ih (h.putRow hplace), hclassified]
      simp only [Catalog.putRow, Table.upsert_upsert]
    · rw [applyClassifiers_of_not_active hactive, ih h, classified_of_not_active hactive]

theorem run_applyClassifiers_of_not_writable
    (h : ∀ row, ¬ Writable c ⟨filesystem, .lustre entry.fid⟩ row) :
    ((applyClassifiers lib filesystem entry ks).run c).2 = c := by
  induction ks with
  | nil => rfl
  | cons k ks ih =>
    by_cases hactive : Active lib (.fromLustre filesystem entry) k
    · obtain ⟨rule, hrule⟩ := Option.isSome_iff_exists.1 hactive.2
      have hupdate : ((updateScopedXattr ⟨filesystem, .lustre entry.fid⟩ rule.set
          k.1.definition.manages).run c).2 = c := run_updateScopedXattr_of_not_writable h
      rw [applyClassifiers_of_active hactive.1 hrule, Proc.run_bind]
      split
      · next b d hrun =>
        rw [hrun] at hupdate
        rw [show d = c from hupdate]
        exact ih
      · next e d hrun =>
        rw [hrun] at hupdate
        exact hupdate
    · rw [applyClassifiers_of_not_active hactive]
      exact ih

end Runs

/-! ## §4 — any order, and twice -/

/-- **Classifiers commute and are idempotent.**  All of them see one time.  On any catalog (in which the tags
of the row, as of every JSON object, are in key order) two orders of the classifiers leave the same
catalog; and a second run on the entry, whatever status it has by then, leaves that catalog as it is. -/
theorem applyClassifiers_perm_and_idem (lib : TextLibrary) (now : Int64) (filesystem : FileSystemId)
    (entry : EntryRow) (c : Catalog) {ks ks' : List ClassifierRow} (hperm : ks.Perm ks')
    (hdisjoint : DisjointlyManaged (ks.map (·, now))) (hset : ∀ k ∈ ks, SetsOnlyManaged k)
    (hordered : ∀ row, c.scopedEntry ⟨filesystem, .lustre entry.fid⟩ = .ok (some row) →
      Json.Ordered (xattrMembers row.smStatus)) :
    ((applyClassifiers lib filesystem entry (ks.map (·, now))).run c).2 =
        ((applyClassifiers lib filesystem entry (ks'.map (·, now))).run c).2 ∧
      ∀ status, ((applyClassifiers lib filesystem { entry with smStatus := status } (ks.map (·, now))).run
          ((applyClassifiers lib filesystem entry (ks.map (·, now))).run c).2).2 =
        ((applyClassifiers lib filesystem entry (ks.map (·, now))).run c).2 := by
  have hset' : ∀ k ∈ ks.map (·, now), SetsOnlyManaged k.1 := by
    intro k hk
    obtain ⟨row, hrow, rfl⟩ := List.mem_map.1 hk
    exact hset row hrow
  by_cases hwritable : ∃ row, Writable c ⟨filesystem, .lustre entry.fid⟩ row
  · obtain ⟨row, hrow⟩ := hwritable
    have htags := hordered row hrow.there
    rw [run_applyClassifiers_of_writable hrow, run_applyClassifiers_of_writable hrow]
    refine ⟨?_, fun status => ?_⟩
    · rw [foldl_classified_perm hrow.place htags (hperm.map _) hset' hdisjoint]
    · -- the second run evaluates the same rules, and finds the row of the first
      have hfields : classified lib (.fromLustre filesystem { entry with smStatus := status }) =
          classified lib (.fromLustre filesystem entry) := by
        funext s k
        have hrule := firstRule_congr lib k.2 (fun field =>
          (by cases field <;> rfl : extractField field (.fromLustre filesystem { entry with smStatus := status }) =
            extractField field (.fromLustre filesystem entry))) k.1.definition
        rw [classified, classified, hrule]
      have hplace := (@foldl_classified lib (.fromLustre filesystem entry) (ks.map (·, now)) _ hrow.place
        htags).1
      have hagain := @run_applyClassifiers_of_writable lib filesystem { entry with smStatus := status } _
        (ks.map (·, now)) _ (hrow.putRow hplace)
      rw [hagain, hfields, foldl_classified_idem hrow.place htags hset' hdisjoint]
      exact Catalog.putRow_putRow ..
  · have hstuck := fun row h => hwritable ⟨row, h⟩
    rw [run_applyClassifiers_of_not_writable hstuck, run_applyClassifiers_of_not_writable hstuck]
    refine ⟨rfl, fun status => ?_⟩
    exact run_applyClassifiers_of_not_writable hstuck

open Store.Sample (lustre)

namespace Sample

def checked : ClassifierRow where
  definition := ⟨["state"], [⟨none, (∅ : TagMap).insert "state" "checked"⟩]⟩
  enabled := true

theorem checked_setsOnlyManaged : SetsOnlyManaged checked := by
  intro _ rule hrule name hname
  obtain rfl := List.mem_singleton.1 hrule
  by_contra hother
  have hne : name ≠ "state" := by simpa [checked] using hother
  simp [hne.symm] at hname

end Sample

/-- A large file gets the tags of both classifiers, in either order. -/
theorem cold_and_checked_commute :
    ((applyClassifiers Sample.ascii lustre Sample.large [(Sample.cold, 0), (Sample.checked, 0)]).run
        (Sample.only Sample.large)).2 =
      ((applyClassifiers Sample.ascii lustre Sample.large [(Sample.checked, 0), (Sample.cold, 0)]).run
        (Sample.only Sample.large)).2 := by
  refine (applyClassifiers_perm_and_idem Sample.ascii 0 lustre Sample.large (Sample.only Sample.large)
    (List.Perm.swap Sample.checked Sample.cold []) ?_ ?_ ?_).1
  · refine List.pairwise_pair.2 fun _ _ => ?_
    simp [Sample.cold, Sample.checked, List.Disjoint]
  · intro k hk
    obtain rfl | rfl : k = Sample.cold ∨ k = Sample.checked := by simpa using hk
    · exact Sample.cold_setsOnlyManaged
    · exact Sample.checked_setsOnlyManaged
  · intro row hrow
    have hthere : (Sample.only Sample.large).scopedEntry ⟨lustre, .lustre Sample.large.fid⟩ =
        .ok (some (.fromLustre lustre Sample.large)) := by decide +kernel
    rw [hthere] at hrow
    obtain rfl := Option.some.inj (Except.ok.inj hrow)
    exact List.Pairwise.nil

end Robinhood.Policy
