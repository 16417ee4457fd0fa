/-
# Actions.Restore — what a failed purge leaves behind

`capture_verify_and_remove` renames the object away before it knows whether it may remove it.  When the
identity does not match or the removal fails, the name is put back; when the identity lookup itself
fails, the call returns at once and the object keeps its quarantine name.
-/
import Mathlib
import Robinhood.Actions.Capture

namespace Robinhood.Actions

open Lib Posix Store

/-! ## §1 — An object in its directory -/

/-- **An object at its path**: in a directory that is found whatever happens to the two names, next to a
quarantine name that is free, on a kernel that may refuse any call but the restoring rename. -/
structure Placed (kernel : Kernel) (s : Live) (directory : Path) (name q : Name) (d o : ObjectId) :
    Prop where
  link : s.links[(⟨d, name⟩ : EdgeKey)]? = some o
  fresh : s.links[(⟨d, q⟩ : EdgeKey)]? = none
  plain : Path.Plain q
  located : ∀ links : Table EdgeKey ObjectId,
    (∀ k : EdgeKey, k ≠ ⟨d, name⟩ → k ≠ ⟨d, q⟩ → links[k]? = s.links[k]?) →
    kernel.locate links directory = some d
  restores : ∀ t, kernel.refuse t
    (.renameNoreplace (directory.push q) (directory ++ [.normal name])) = none

def ReachableAt (kernel : Kernel) (t : Live) (path : Path) (o : ObjectId) : Prop :=
  ∃ k, kernel.edgeAt t path = some k ∧ t.links[k]? = some o

namespace Placed

variable {kernel : Kernel} {s t : Live} {directory : Path} {name q : Name} {d o : ObjectId}
  (h : Placed kernel s directory name q d o)

include h

theorem edgeAt_path (ht : ∀ k : EdgeKey, k ≠ ⟨d, name⟩ → k ≠ ⟨d, q⟩ → t.links[k]? = s.links[k]?) :
    kernel.edgeAt t (directory ++ [.normal name]) = some ⟨d, name⟩ := by
  unfold Kernel.edgeAt
  rw [List.dropLast_concat, h.located t.links ht]
  simp [Path.fileName]

theorem edgeAt_quarantine (ht : ∀ k : EdgeKey, k ≠ ⟨d, name⟩ → k ≠ ⟨d, q⟩ → t.links[k]? = s.links[k]?) :
    kernel.edgeAt t (directory.push q) = some ⟨d, q⟩ := by
  unfold Kernel.edgeAt
  rw [Path.push_plain h.plain, List.dropLast_concat, h.located t.links ht]
  simp [Path.fileName]

theorem name_ne : name ≠ q := by
  intro heq
  have hlink := h.link
  rw [heq, h.fresh] at hlink
  cases hlink

theorem move_captured (noreplace : Bool) :
    kernel.move noreplace (directory ++ [.normal name]) (directory.push q) s =
      .ok (kernel.moved s ⟨d, name⟩ ⟨d, q⟩ o) := by
  unfold Kernel.move
  rw [h.edgeAt_path fun _ _ _ => rfl, h.edgeAt_quarantine fun _ _ _ => rfl]
  simp [h.link, h.fresh]

omit h in
theorem links_moved (k : EdgeKey) (hname : k ≠ ⟨d, name⟩) (hq : k ≠ ⟨d, q⟩) :
    (kernel.moved s ⟨d, name⟩ ⟨d, q⟩ o).links[k]? = s.links[k]? := by
  unfold Kernel.moved
  rw [Table.getElem?_upsert, Table.getElem?_delete, if_neg (Ne.symm hq), if_neg (Ne.symm hname)]

omit h in
theorem link_moved : (kernel.moved s ⟨d, name⟩ ⟨d, q⟩ o).links[(⟨d, q⟩ : EdgeKey)]? = some o := by
  unfold Kernel.moved
  rw [Table.getElem?_upsert, if_pos rfl]

theorem name_free_moved :
    (kernel.moved s ⟨d, name⟩ ⟨d, q⟩ o).links[(⟨d, name⟩ : EdgeKey)]? = none := by
  have hne : (⟨d, q⟩ : EdgeKey) ≠ ⟨d, name⟩ := by
    intro heq
    exact h.name_ne (EdgeKey.mk.inj heq).2.symm
  unfold Kernel.moved
  rw [Table.getElem?_upsert, Table.getElem?_delete, if_neg hne, if_pos rfl]

/-! ## §2 — The steps of the call -/

/-- **The capture** succeeds, or changes nothing. -/
theorem run_captureName (backend : BackendKind) :
    (∃ e, (captureName kernel.host (directory ++ [.normal name]) (directory.push q) backend).run s =
      (.error e, s)) ∨
    (captureName kernel.host (directory ++ [.normal name]) (directory.push q) backend).run s =
      (.ok (), kernel.moved s ⟨d, name⟩ ⟨d, q⟩ o) := by
  have hnoreplace := h.move_captured true
  have hrename := h.move_captured false
  unfold captureName
  simp only [Proc.run_bind, Proc.attempt, Proc.run_step, Kernel.host, Kernel.call]
  cases hfirst : kernel.refuse s
      (.renameNoreplace (directory ++ [.normal name]) (directory.push q)) with
  | none =>
    simp only [hnoreplace]
    exact .inr rfl
  | some error =>
    simp only [Except.map, Proc.run_pure]
    split_ifs with hfallback
    · simp only [Proc.run_bind, Proc.run_step]
      cases hsecond : kernel.refuse s (.rename (directory ++ [.normal name]) (directory.push q)) with
      | none =>
        simp only [hrename]
        exact .inr rfl
      | some error => exact .inl ⟨_, rfl⟩
    · exact .inl ⟨_, rfl⟩

/-- **The restoring rename** puts the object back. -/
theorem restored (hm : t = kernel.moved s ⟨d, name⟩ ⟨d, q⟩ o) :
    ∃ u, kernel.host.renameNoreplace (directory.push q) (directory ++ [.normal name]) t = .ok u ∧
      ReachableAt kernel u (directory ++ [.normal name]) o := by
  subst hm
  have hmove : kernel.move true (directory.push q) (directory ++ [.normal name])
      (kernel.moved s ⟨d, name⟩ ⟨d, q⟩ o) =
      .ok (kernel.moved (kernel.moved s ⟨d, name⟩ ⟨d, q⟩ o) ⟨d, q⟩ ⟨d, name⟩ o) := by
    unfold Kernel.move
    rw [h.edgeAt_path links_moved, h.edgeAt_quarantine links_moved]
    simp [link_moved, h.name_free_moved]
  refine ⟨kernel.moved (kernel.moved s ⟨d, name⟩ ⟨d, q⟩ o) ⟨d, q⟩ ⟨d, name⟩ o, ?_, ⟨d, name⟩,
    h.edgeAt_path ?_, link_moved⟩
  · simp only [Kernel.host, Kernel.call, h.restores]
    exact hmove
  · intro k hname hq
    rw [links_moved k hq hname, links_moved k hname hq]

end Placed

/-! ## §3 — A failed purge -/

def LookupFails (kernel : Kernel) (backend : BackendKind) (key : EntryKey) (path quarantine : Path)
    (s : Live) : Prop :=
  ∃ t e, (captureName kernel.host path quarantine backend).run s = (.ok (), t) ∧
    captured backend key quarantine (kernel.mount t) = .error e

section Failed

variable {kernel : Kernel} {s t : Live} {directory : Path} {name q : Name} {d o : ObjectId}
  {backend : BackendKind} {key : EntryKey} {kind : EntryKind}

theorem Placed.run_removeCaptured (h : Placed kernel s directory name q d o)
    (ht : t = kernel.moved s ⟨d, name⟩ ⟨d, q⟩ o) {e : PurgeError}
    (herr : ((removeCaptured kernel.host (directory ++ [.normal name]) (directory.push q)
      kind).run t).1 = .error e) :
    ReachableAt kernel ((removeCaptured kernel.host (directory ++ [.normal name]) (directory.push q)
      kind).run t).2 (directory ++ [.normal name]) o := by
  obtain ⟨u, hrestore, hreach⟩ := h.restored ht
  unfold removeCaptured at herr ⊢
  simp only [Proc.run_bind, Proc.attempt, Proc.run_step] at herr ⊢
  cases hremoval : (if kind = .directory then kernel.host.removeDir (directory.push q)
      else kernel.host.removeFile (directory.push q)) t with
  | ok v =>
    simp only [hremoval, Except.map, Proc.run_pure, Proc.run_return] at herr
    cases herr
  | error error =>
    simp only [hrestore, Except.map, Proc.run_pure, Proc.run_bind, Proc.run_step,
      Proc.run_fail]
    exact hreach

theorem Placed.run_restoreCaptured (h : Placed kernel s directory name q d o)
    (ht : t = kernel.moved s ⟨d, name⟩ ⟨d, q⟩ o) :
    ReachableAt kernel ((restoreCaptured kernel.host (directory ++ [.normal name])
      (directory.push q)).run t).2 (directory ++ [.normal name]) o := by
  obtain ⟨u, hrestore, hreach⟩ := h.restored ht
  unfold restoreCaptured
  simp only [Proc.run_bind, Proc.attempt, Proc.run_step, hrestore, Except.map, Proc.run_pure,
    Proc.run_fail]
  exact hreach

theorem Placed.not_reachable_moved (h : Placed kernel s directory name q d o) :
    ¬ ReachableAt kernel (kernel.moved s ⟨d, name⟩ ⟨d, q⟩ o) (directory ++ [.normal name]) o := by
  rintro ⟨k, hk, hlink⟩
  rw [h.edgeAt_path Placed.links_moved] at hk
  cases hk
  rw [h.name_free_moved] at hlink
  cases hlink

/-- **A failed purge leaves the object at its path, unless the identity lookup failed.**  Whatever other
calls the kernel refuses, an error of `capture_verify_and_remove` finds the object where it was, except
when the object was captured and could then not be identified. -/
theorem reachable_after_error_iff (h : Placed kernel s directory name q d o) {e : PurgeError}
    (herr : ((captureVerifyAndRemove kernel.host backend (directory ++ [.normal name]) key kind
      q).run s).1 = .error e) :
    ReachableAt kernel ((captureVerifyAndRemove kernel.host backend (directory ++ [.normal name]) key
      kind q).run s).2 (directory ++ [.normal name]) o ↔
    ¬ LookupFails kernel backend key (directory ++ [.normal name]) (directory.push q) s := by
  have hparent : Path.parent (directory ++ [.normal name]) = some directory := by simp [Path.parent]
  unfold captureVerifyAndRemove LookupFails at *
  rw [hparent] at herr ⊢
  simp only [Proc.run_bind] at herr ⊢
  rcases h.run_captureName backend with ⟨error, hcapture⟩ | hcapture
  · -- Nothing was renamed.
    refine iff_of_true ?_ ?_
    · rw [hcapture]
      exact ⟨_, h.edgeAt_path fun _ _ _ => rfl, h.link⟩
    · rintro ⟨t, e', ht, -⟩
      rw [hcapture] at ht
      cases ht
  · rw [hcapture] at herr ⊢
    simp only [verifyAndRemove, Proc.run_bind, Proc.run_ask] at herr ⊢
    have hmount : kernel.host.mount = kernel.mount := rfl
    rw [hmount] at herr ⊢
    cases hlookup : captured backend key (directory.push q)
        (kernel.mount (kernel.moved s ⟨d, name⟩ ⟨d, q⟩ o)) with
    | error error => exact iff_of_false h.not_reachable_moved fun hnot => hnot ⟨_, error, rfl, hlookup⟩
    | ok isRequested =>
      rw [hlookup] at herr
      refine iff_of_true ?_ ?_
      · cases isRequested with
        | true => exact h.run_removeCaptured rfl herr
        | false => exact h.run_restoreCaptured rfl
      · rintro ⟨t, e', ht, hfails⟩
        cases ht
        rw [hlookup] at hfails
        cases hfails

end Failed

/-! ## §4 — One file -/

namespace Sample

open JuiceFs.Sample (mountPath root a jfs)

def stubbornKernel : Kernel :=
  { kernel with refuse := fun _ syscall => match syscall with
      | .removeFile _ => some ⟨16⟩
      | _ => none }

def blindKernel : Kernel :=
  { kernel with mount := fun s => { mount s with
      symlinkMetadata := fun path =>
        if path.fileName = some quarantineName then .error ⟨5⟩ else (mount s).symlinkMetadata path } }

theorem oneFile_placed {k : Kernel} (hlocate : k.locate = locate)
    (hrestores : ∀ t, k.refuse t
      (.renameNoreplace (mountPath.push quarantineName) (mountPath ++ [.normal a])) = none) :
    Placed k oneFile mountPath a quarantineName root (.juiceFs 10) where
  link := by decide +kernel
  fresh := by decide +kernel
  plain := by decide
  located _ _ := by rw [hlocate]; rfl
  restores := hrestores

/-- A refused removal leaves the file at its path. -/
theorem refused_removal_restored :
    let run := (captureVerifyAndRemove stubbornKernel.host .juiceFs (mountPath ++ [.normal a])
      ⟨jfs, .juiceFs 10⟩ .file quarantineName).run oneFile
    run.1 = .error (.os ⟨16⟩) ∧
      ReachableAt stubbornKernel run.2 (mountPath ++ [.normal a]) (.juiceFs 10) := by
  intro run
  have herr : run.1 = .error (.os ⟨16⟩) := by decide +kernel
  refine ⟨herr, (reachable_after_error_iff (oneFile_placed rfl fun _ => rfl) herr).2 ?_⟩
  rintro ⟨t, e, ht, hfails⟩
  obtain rfl : t = ((captureName stubbornKernel.host (mountPath ++ [.normal a])
    (mountPath.push quarantineName) .juiceFs).run oneFile).2 := by rw [ht]
  exact absurd hfails (by rw [show captured .juiceFs ⟨jfs, .juiceFs 10⟩ (mountPath.push quarantineName)
    (stubbornKernel.mount _) = .ok true by decide +kernel]; simp)

/-- A failed lookup leaves the file under its quarantine name only. -/
theorem failed_lookup_not_restored :
    let run := (captureVerifyAndRemove blindKernel.host .juiceFs (mountPath ++ [.normal a])
      ⟨jfs, .juiceFs 10⟩ .file quarantineName).run oneFile
    Placed blindKernel oneFile mountPath a quarantineName root (.juiceFs 10) ∧
      run.1 = .error (.os ⟨5⟩) ∧
      run.2.links[(⟨root, quarantineName⟩ : EdgeKey)]? = some (.juiceFs 10) ∧
      ¬ ReachableAt blindKernel run.2 (mountPath ++ [.normal a]) (.juiceFs 10) := by
  intro run
  refine ⟨oneFile_placed rfl fun _ => rfl, by decide +kernel, by decide +kernel, ?_⟩
  rintro ⟨k, hk, hlink⟩
  have hpath : blindKernel.edgeAt run.2 (mountPath ++ [.normal a]) = some ⟨root, a⟩ := by
    decide +kernel
  rw [hpath] at hk
  cases hk
  have hnone : run.2.links[(⟨root, a⟩ : EdgeKey)]? = none := by decide +kernel
  rw [hnone] at hlink
  cases hlink

end Sample

end Robinhood.Actions
