/-
# Actions.Capture — a purge removes only what it was asked to remove

The path of an object is resolved long before it is captured, and other processes may meanwhile put
anything else there.  The capture gives whatever is found a name nobody else knows, so what the check
then sees under that name is what the removal removes: `removed_is_requested`.
-/
import Mathlib
import Robinhood.Lib.Interleave
import Robinhood.JuiceFs.Live
import Robinhood.Actions.Purge

namespace Robinhood.Actions

open Lib Posix Store Ingest Relation

/-! ## §1 — A filesystem of links -/

/-- **A live filesystem**: its links, the records its changelog holds, the catalog next to it, and a
number for everything else that decides whether a call is refused.  `removed` is kept for the proofs:
the links that calls of the purge have removed. -/
structure Live where
  links : Table EdgeKey ObjectId
  log : List Change
  catalog : Catalog
  mood : ℕ
  removed : List (EdgeKey × ObjectId)

/-- The calls a kernel may refuse. -/
inductive Syscall where
  | renameNoreplace (source destination : Path)
  | rename (source destination : Path)
  | removeDir (path : Path)
  | removeFile (path : Path)

/-- **A kernel**: the directory a path leads to, which calls it refuses and why, what its mount shows,
and the clock of its changelog. -/
structure Kernel where
  locate : Table EdgeKey ObjectId → Path → Option ObjectId
  refuse : Live → Syscall → Option IoError
  mount : Live → Mount
  time : Live → Int

/-- `EEXIST`. -/
def IoError.exists_ : IoError := ⟨17⟩

namespace Kernel

variable (kernel : Kernel)

def edgeAt (s : Live) (path : Path) : Option EdgeKey :=
  match path.fileName, kernel.locate s.links path.dropLast with
  | some name, some directory => some ⟨directory, name⟩
  | _, _ => none

def call (syscall : Syscall) (work : Live → Except IoError Live) (s : Live) : Except IoError Live :=
  match kernel.refuse s syscall with
  | some error => .error error
  | none => work s

/-- The links a move to `target` removes. -/
def displaced (s : Live) (target : EdgeKey) : List (EdgeKey × ObjectId) :=
  match s.links[target]? with
  | some object => [(target, object)]
  | none => []

def moved (s : Live) (source target : EdgeKey) (object : ObjectId) : Live :=
  { s with
    links := (s.links.erase source).insert target object
    log := s.log ++ [.renamed object source.parent source.name target.parent target.name
      (kernel.time s)]
    removed := displaced s target ++ s.removed }

/-- `renameat2`, with and without `RENAME_NOREPLACE`.  Renaming an object over itself does nothing. -/
def move (noreplace : Bool) (source destination : Path) (s : Live) : Except IoError Live :=
  match kernel.edgeAt s source, kernel.edgeAt s destination with
  | some source, some target =>
    match s.links[source]? with
    | none => .error .notFound
    | some object =>
      if noreplace = true ∧ (s.links[target]?).isSome then .error IoError.exists_
      else if s.links[target]? = some object then .ok s
      else .ok (kernel.moved s source target object)
  | _, _ => .error .notFound

/-- `unlink` and `rmdir`. -/
def remove (directory : Bool) (path : Path) (s : Live) : Except IoError Live :=
  match kernel.edgeAt s path with
  | none => .error .notFound
  | some key =>
    match s.links[key]? with
    | none => .error .notFound
    | some object =>
      .ok { s with
        links := s.links.erase key
        log := s.log ++ [.removed object key.parent key.name true directory (kernel.time s)]
        removed := (key, object) :: s.removed }

def host : Host Live where
  mount := kernel.mount
  catalog := Live.catalog
  setCatalog s c := { s with catalog := c }
  renameNoreplace source destination :=
    kernel.call (.renameNoreplace source destination) (kernel.move true source destination)
  rename source destination :=
    kernel.call (.rename source destination) (kernel.move false source destination)
  removeDir path := kernel.call (.removeDir path) (kernel.remove true path)
  removeFile path := kernel.call (.removeFile path) (kernel.remove false path)

end Kernel

/-- **What the others may do**: anything, except to the quarantine name. -/
def Others (quarantineName : Name) (s t : Live) : Prop :=
  (∀ d, t.links[(⟨d, quarantineName⟩ : EdgeKey)]? = s.links[(⟨d, quarantineName⟩ : EdgeKey)]?) ∧
    t.removed = s.removed

structure Reports (kernel : Kernel) (quarantineName : Name) : Prop where
  inode : ∀ s path metadata, path.fileName = some quarantineName →
    (kernel.mount s).symlinkMetadata path = .ok metadata →
    ∃ k, kernel.edgeAt s path = some k ∧ s.links[k]? = some (.juiceFs metadata.ino)
  fid : ∀ s path fid, path.fileName = some quarantineName →
    (kernel.mount s).pathToFid path = .ok fid →
    ∃ k, kernel.edgeAt s path = some k ∧ s.links[k]? = some (.lustre fid)

/-! ## §2 — What is known of the quarantine name -/

section Assertions

variable (key : EntryKey) (q : Name)

def Requested (s : Live) : Prop := ∀ r ∈ s.removed, r.2 = key.object

/-- Nothing has the quarantine name. -/
def Free (s : Live) : Prop := Requested key s ∧ ∀ d, s.links[(⟨d, q⟩ : EdgeKey)]? = none

/-- At most one object has the quarantine name. -/
def Single (s : Live) : Prop :=
  Requested key s ∧ ∀ d d' o o', s.links[(⟨d, q⟩ : EdgeKey)]? = some o →
    s.links[(⟨d', q⟩ : EdgeKey)]? = some o' → o = o'

def Verified (s : Live) : Prop :=
  Requested key s ∧ ∀ d o, s.links[(⟨d, q⟩ : EdgeKey)]? = some o → o = key.object

variable {key q}

theorem stable_requested : Proc.Stable (Others q) (Requested key) := by
  intro s t hs hst
  rw [Requested, hst.2]
  exact hs

theorem stable_free : Proc.Stable (Others q) (Free key q) := by
  intro s t hs hst
  refine ⟨stable_requested _ _ hs.1 hst, fun d => ?_⟩
  rw [hst.1]
  exact hs.2 d

theorem stable_single : Proc.Stable (Others q) (Single key q) := by
  intro s t hs hst
  refine ⟨stable_requested _ _ hs.1 hst, fun d d' o o' => ?_⟩
  rw [hst.1, hst.1]
  exact hs.2 d d' o o'

theorem stable_verified : Proc.Stable (Others q) (Verified key q) := by
  intro s t hs hst
  refine ⟨stable_requested _ _ hs.1 hst, fun d o => ?_⟩
  rw [hst.1]
  exact hs.2 d o

end Assertions

/-! ## §3 — What the calls do to it -/

section Calls

variable {kernel : Kernel} {s t : Live} {key : EntryKey} {q : Name} {source destination path : Path}

theorem call_ok {syscall : Syscall} {work : Live → Except IoError Live}
    (h : kernel.call syscall work s = .ok t) : work s = .ok t := by
  unfold Kernel.call at h
  split at h
  · cases h
  · exact h

theorem move_ok {noreplace : Bool} (h : kernel.move noreplace source destination s = .ok t) :
    t = s ∨ ∃ k k' o, kernel.edgeAt s destination = some k' ∧ s.links[k]? = some o ∧
      (noreplace = true → s.links[k']? = none) ∧ t = kernel.moved s k k' o := by
  unfold Kernel.move at h
  split at h
  · next k k' hk hk' =>
    split at h
    · cases h
    · next o ho =>
      split_ifs at h with hexists hsame
      · cases h
        exact .inl rfl
      · cases h
        refine .inr ⟨k, k', o, hk', ho, fun hno => ?_, rfl⟩
        rw [not_and, Option.not_isSome_iff_eq_none] at hexists
        exact hexists hno
  · cases h

theorem remove_ok {directory : Bool} (h : kernel.remove directory path s = .ok t) :
    ∃ k o, kernel.edgeAt s path = some k ∧ s.links[k]? = some o ∧
      t.removed = (k, o) :: s.removed := by
  unfold Kernel.remove at h
  split at h
  · cases h
  · next k hk =>
    split at h
    · cases h
    · next o ho =>
      cases h
      exact ⟨k, o, hk, ho, rfl⟩

theorem name_of_edgeAt {k : EdgeKey} (hpath : path.fileName = some q)
    (h : kernel.edgeAt s path = some k) : k.name = q := by
  unfold Kernel.edgeAt at h
  rw [hpath] at h
  split at h
  · next name directory hname _ =>
    cases h
    exact (Option.some.inj hname).symm
  · cases h

theorem single_of_move {noreplace : Bool} (hpath : destination.fileName = some q)
    (hs : Free key q s) (h : kernel.move noreplace source destination s = .ok t) :
    Single key q t := by
  obtain ⟨hrequested, hfree⟩ := hs
  rcases move_ok h with rfl | ⟨k, k', o, hk', ho, -, rfl⟩
  · refine ⟨hrequested, fun d d' o o' ho => ?_⟩
    rw [hfree d] at ho
    cases ho
  · obtain ⟨d, rfl⟩ : ∃ d, k' = ⟨d, q⟩ := ⟨k'.parent, by rw [← name_of_edgeAt hpath hk']⟩
    have hdisplaced : Kernel.displaced s ⟨d, q⟩ = [] := by rw [Kernel.displaced, hfree d]
    refine ⟨?_, fun d₁ d₂ o₁ o₂ h₁ h₂ => ?_⟩
    · rw [Requested, Kernel.moved, hdisplaced]
      exact hrequested
    · -- Under the quarantine name there is only what was just moved there.
      have honly : ∀ d' o', (kernel.moved s k ⟨d, q⟩ o).links[(⟨d', q⟩ : EdgeKey)]? = some o' →
          o' = o := by
        intro d' o' hd'
        rw [Kernel.moved, Table.getElem?_upsert, Table.getElem?_delete, hfree d'] at hd'
        split_ifs at hd'
        exact (Option.some.inj hd').symm
      rw [honly d₁ o₁ h₁, honly d₂ o₂ h₂]

theorem requested_of_move (hs : Requested key s)
    (h : kernel.move true source destination s = .ok t) : Requested key t := by
  rcases move_ok h with rfl | ⟨k, k', o, -, -, hnone, rfl⟩
  · exact hs
  · rw [Requested, Kernel.moved, Kernel.displaced, hnone rfl]
    exact hs

theorem requested_of_remove {directory : Bool} (hpath : path.fileName = some q)
    (hs : Verified key q s) (h : kernel.remove directory path s = .ok t) : Requested key t := by
  obtain ⟨k, o, hk, ho, hremoved⟩ := remove_ok h
  have hname := name_of_edgeAt hpath hk
  rw [Requested, hremoved]
  refine List.forall_mem_cons.2 ⟨?_, hs.1⟩
  exact hs.2 k.parent o (by rw [← hname]; exact ho)

theorem verified_of_captured {backend : BackendKind} (hreports : Reports kernel q)
    (hpath : path.fileName = some q) (hs : Single key q s)
    (h : captured backend key path (kernel.mount s) = .ok true) : Verified key q s := by
  obtain ⟨k, hk, ho⟩ : ∃ k, kernel.edgeAt s path = some k ∧ s.links[k]? = some key.object := by
    unfold captured at h
    split at h
    · next expected hobject =>
      rw [except_mapError_eq_ok] at h
      cases hmd : (kernel.mount s).symlinkMetadata path with
      | error => simp [hmd, Except.map] at h
      | ok metadata =>
        obtain ⟨k, hk, ho⟩ := hreports.inode s path metadata hpath hmd
        have hino : metadata.ino = expected := by simpa [hmd, Except.map] using h
        exact ⟨k, hk, by rw [ho, hobject, hino]⟩
    · next expected hobject =>
      rw [except_mapError_eq_ok] at h
      cases hfid : (kernel.mount s).pathToFid path with
      | error => simp [hfid, Except.map] at h
      | ok fid =>
        obtain ⟨k, hk, ho⟩ := hreports.fid s path fid hpath hfid
        have heq : fid = expected := by simpa [hfid, Except.map] using h
        exact ⟨k, hk, by rw [ho, hobject, heq]⟩
    · cases h
  refine ⟨hs.1, fun d o hd => ?_⟩
  have hname := name_of_edgeAt hpath hk
  exact hs.2 d k.parent o key.object hd (by rw [← hname]; exact ho)

end Calls

/-! ## §4 — The whole call -/

section Guarantee

variable {kernel : Kernel} {s : Live} {key : EntryKey} {q : Name} {path quarantine : Path}

theorem guarantees_captureName {backend : BackendKind} (hquarantine : quarantine.fileName = some q)
    (hs : Free key q s) :
    (captureName kernel.host path quarantine backend).Guarantees (Others q) (Requested key)
      (fun r t => match r with | .ok _ => Single key q t | .error _ => True) s := by
  refine Proc.guarantees_attempt_bind stable_free hs (fun t ht => ht.1) (fun t t' ht h => ?_)
    fun t e ht _ => ?_
  · exact Proc.guarantees_pure stable_single (single_of_move hquarantine ht (call_ok h))
      (fun u hu => hu.1) fun u hu => hu
  · show Proc.Guarantees _ _ _ (if _ then _ else _) t
    split_ifs
    · refine Proc.guarantees_attempt_bind stable_free ht (fun u hu => hu.1) (fun u u' hu h => ?_)
        fun u e hu _ => ?_
      · exact Proc.guarantees_pure stable_single (single_of_move hquarantine hu (call_ok h))
          (fun v hv => hv.1) fun v hv => hv
      · exact Proc.guarantees_fail stable_free hu (fun v hv => hv.1) fun _ _ => trivial
    · exact Proc.guarantees_fail stable_free ht (fun u hu => hu.1) fun _ _ => trivial

theorem guarantees_restore {k : Except IoError Unit → Proc Live PurgeError Unit}
    (hk : ∀ r, ∃ e, k r = .fail e) (hs : Requested key s) :
    (Proc.attempt (kernel.host.renameNoreplace quarantine path) >>= k).Guarantees (Others q)
      (Requested key) (fun _ _ => True) s := by
  have hend : ∀ r t, Requested key t →
      (k r).Guarantees (Others q) (Requested key) (fun _ _ => True) t := by
    intro r t ht
    obtain ⟨e, he⟩ := hk r
    rw [he]
    exact Proc.guarantees_fail stable_requested ht (fun _ h => h) fun _ _ => trivial
  refine Proc.guarantees_attempt_bind stable_requested hs (fun _ h => h) (fun t t' ht h => ?_)
    fun t e ht _ => hend _ t ht
  exact hend _ t' (requested_of_move ht (call_ok h))

theorem guarantees_removeCaptured {kind : EntryKind} (hquarantine : quarantine.fileName = some q)
    (hs : Verified key q s) :
    (removeCaptured kernel.host path quarantine kind).Guarantees (Others q) (Requested key)
      (fun _ _ => True) s := by
  refine Proc.guarantees_attempt_bind stable_verified hs (fun t ht => ht.1) (fun t t' ht h => ?_)
    fun t e ht _ => ?_
  · have hremoved : Requested key t' := by
      split_ifs at h
      · exact requested_of_remove hquarantine ht (call_ok h)
      · exact requested_of_remove hquarantine ht (call_ok h)
    exact Proc.guarantees_pure stable_requested hremoved (fun _ h => h) fun _ _ => trivial
  · exact guarantees_restore (fun r => by cases r <;> exact ⟨_, rfl⟩) ht.1

theorem guarantees_verifyAndRemove {backend : BackendKind} {kind : EntryKind}
    (hreports : Reports kernel q) (hquarantine : quarantine.fileName = some q)
    (hs : Single key q s) :
    (verifyAndRemove kernel.host backend path quarantine key kind).Guarantees (Others q)
      (Requested key) (fun _ _ => True) s := by
  refine Proc.guarantees_ask_bind stable_single hs (fun t ht => ht.1) (fun t b ht h => ?_)
    (fun _ _ _ _ => trivial) fun _ t u ht htu => ⟨stable_single t u ht.1 htu, trivial⟩
  cases b with
  | true => exact guarantees_removeCaptured hquarantine (verified_of_captured hreports hquarantine ht h)
  | false => exact guarantees_restore (fun r => by cases r <;> exact ⟨_, rfl⟩) ht.1

/-- **A purge removes only what it was asked to remove.**  Whatever the others do in the meantime,
short of using the quarantine name, every link the call has removed led to the requested object. -/
theorem removed_is_requested {backend : BackendKind} {kind : EntryKind}
    {rest : Proc Live PurgeError Unit} {t : Live} (hreports : Reports kernel q)
    (hq : Path.Plain q) (hfresh : ∀ d, s.links[(⟨d, q⟩ : EdgeKey)]? = none)
    (hstart : s.removed = [])
    (hrun : ReflTransGen (Interleaved (Others q))
      (captureVerifyAndRemove kernel.host backend path key kind q, s) (rest, t)) :
    ∀ r ∈ t.removed, r.2 = key.object := by
  have hs : Free key q s := ⟨by simp [Requested, hstart], hfresh⟩
  suffices (captureVerifyAndRemove kernel.host backend path key kind q).Guarantees (Others q)
      (Requested key) (fun _ _ => True) s from (this.reachable hrun).holds
  unfold captureVerifyAndRemove
  split
  · exact Proc.guarantees_fail stable_free hs (fun u hu => hu.1) fun _ _ => trivial
  · next parent hparent =>
    have hquarantine : (parent.push q).fileName = some q := by
      simp [Path.push_plain hq, Path.fileName]
    refine Proc.Guarantees.bind ((guarantees_captureName hquarantine hs).mono fun r t _ hr => ?_)
    cases r with
    | ok => exact guarantees_verifyAndRemove hreports hquarantine hr
    | error => trivial

end Guarantee

namespace Sample

open JuiceFs.Sample (mountPath root a jfs registered)

def locate (_ : Table EdgeKey ObjectId) (path : Path) : Option ObjectId :=
  if path = mountPath then some root else none

def mount (s : Live) : Mount where
  symlinkMetadata path :=
    let found (inode : UInt64) (kind : EntryKind) : Except IoError Metadata :=
      .ok ⟨kind, inode, 1, 0, 0, 0, 0, 0, 0, 0, 0⟩
    if path = mountPath then found 1 .directory
    else match path.fileName, locate s.links path.dropLast with
      | some name, some directory =>
        match s.links[(⟨directory, name⟩ : EdgeKey)]? with
        | some (.juiceFs inode) => found inode .file
        | _ => .error .notFound
      | _, _ => .error .notFound
  canonicalize path := .ok path
  fidToPath _ := .error .notFound
  pathToFid _ := .error .notFound

def kernel : Kernel := ⟨locate, fun _ _ => none, mount, fun _ => 0⟩

/-- The name `.rbh`. -/
def quarantineName : Name := [46, 114, 98, 104]

theorem reports : Reports kernel quarantineName where
  inode s path metadata hpath h := by
    simp only [kernel, mount] at h
    split_ifs at h with hroot
    · rw [hroot] at hpath
      exact absurd hpath (by decide)
    · split at h
      · next name directory hname hdirectory =>
        split at h
        · next inode hinode =>
          cases h
          refine ⟨⟨directory, name⟩, ?_, hinode⟩
          simp only [Kernel.edgeAt, hname, kernel, hdirectory]
        · cases h
      · cases h
  fid s path fid _ h := by cases h

def oneFile : Live where
  links := (∅ : Table EdgeKey ObjectId).insert ⟨root, a⟩ (.juiceFs 10)
  log := []
  catalog := registered
  mood := 0
  removed := []

/-- The purge of inode 10 removes its link. -/
theorem purge_removes_inode_ten :
    let p := captureVerifyAndRemove kernel.host .juiceFs (mountPath.push a) ⟨jfs, .juiceFs 10⟩ .file
      quarantineName
    (p.run oneFile).2.removed = [(⟨root, quarantineName⟩, .juiceFs 10)] ∧
      ∀ r ∈ (p.run oneFile).2.removed, r.2 = .juiceFs 10 := by
  intro p
  obtain ⟨rest, hrun⟩ := Proc.reachable_run (Others quarantineName) p oneFile
  refine ⟨by decide +kernel, ?_⟩
  refine removed_is_requested reports (by decide) (fun d => ?_) rfl hrun
  have hname : (⟨root, a⟩ : EdgeKey) ≠ ⟨d, quarantineName⟩ := fun h =>
    absurd (EdgeKey.mk.inj h).2 (by decide)
  simp [oneFile, hname]

end Sample

end Robinhood.Actions
