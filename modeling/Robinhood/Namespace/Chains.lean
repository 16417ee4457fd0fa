/-
# Namespace.Chains — the chains of parents that a resolution climbs

`resolve_juice_object` tries the edges of an object in key order.  For each it climbs the rows of the
parents up to the root and pushes the names on the way back (`juice_parent_path`); `resolve_juice_path`
descends the edges instead.  Here the climb is a relation on the catalog (`Climbs`), the ways it can fail
are told apart, and the two directions are compared.
-/
import Mathlib
import Robinhood.Namespace.Adapter

namespace Robinhood.Namespace

open Lib Posix Store Relation

/-! ## §1 — Paths inside the mount -/

theorem stripPrefix_eq_some {path base rest : Path} :
    path.stripPrefix base = some rest ↔ path = base ++ rest := by
  induction base generalizing path with
  | nil => cases path <;> simp [Path.stripPrefix]
  | cons b base ih =>
    cases path with
    | nil => simp [Path.stripPrefix]
    | cons =>
      rw [Path.stripPrefix]
      split_ifs with h
      · simp [h, ih]
      · simp [h]

theorem startsWith_iff {path base : Path} : path.startsWith base = true ↔ base <+: path := by
  rw [Path.startsWith, Option.isSome_iff_exists]
  constructor
  · rintro ⟨rest, h⟩
    exact ⟨rest, (stripPrefix_eq_some.1 h).symm⟩
  · rintro ⟨rest, h⟩
    exact ⟨rest, stripPrefix_eq_some.2 h.symm⟩

section Climbing

variable {config : FileSystemConfig} {view : View}

def DirectoryInside (config : FileSystemConfig) (live : Mount) (path : Path) : Prop :=
  ∃ mount directory, live.canonicalize config.mountPath = .ok mount ∧
    live.canonicalize (path.parent.getD path) = .ok directory ∧ mount <+: directory

/-- **The path is inside the mount**: it is the mount path, or goes on from it without `..` and really
leads into a directory there. -/
def Inside (config : FileSystemConfig) (live : Mount) (path : Path) : Prop :=
  ∃ rest, path = config.mountPath ++ rest ∧ .parentDir ∉ rest ∧
    (rest ≠ [] → DirectoryInside config live path)

/-- What `relative_path` accepts. -/
theorem relativePath_eq_ok {path relative : Path} :
    relativePath config view path = .ok relative ↔ .parentDir ∉ path ∧
      path = config.mountPath ++ relative ∧
      (relative ≠ [] → DirectoryInside config view.mount path) := by
  by_cases hany : .parentDir ∈ path
  · rw [relativePath, if_pos (by simpa using hany)]
    simp [hany]
  · rw [relativePath, if_neg (by simpa using hany)]
    simp only [hany, not_false_eq_true, true_and]
    cases hstrip : path.stripPrefix config.mountPath with
    | none =>
      refine iff_of_false nofun ?_
      rintro ⟨hpath, -⟩
      rw [stripPrefix_eq_some.2 hpath] at hstrip
      cases hstrip
    | some rest =>
      have hrest : ∀ r, path = config.mountPath ++ r ↔ r = rest := by
        intro r
        rw [← stripPrefix_eq_some, hstrip, Option.some_inj]
        exact eq_comm
      rw [hrest]
      cases rest with
      | nil =>
        constructor
        · intro h
          cases h
          exact ⟨rfl, fun h => absurd rfl h⟩
        · rintro ⟨rfl, -⟩
          rfl
      | cons =>
        unfold DirectoryInside
        cases hmount : view.mount.canonicalize config.mountPath with
        | error =>
          refine iff_of_false nofun ?_
          rintro ⟨rfl, h⟩
          obtain ⟨_, _, hm, -⟩ := h (List.cons_ne_nil _ _)
          cases hm
        | ok mount =>
          cases hdir : view.mount.canonicalize (path.parent.getD path) with
          | error =>
            refine iff_of_false nofun ?_
            rintro ⟨rfl, h⟩
            obtain ⟨_, _, -, hd, -⟩ := h (List.cons_ne_nil _ _)
            cases hd
          | ok directory =>
            show (if directory.startsWith mount = true then _ else _) = _ ↔ _
            split_ifs with hstarts
            · constructor
              · intro h
                cases h
                exact ⟨rfl, fun _ => ⟨mount, directory, rfl, rfl, startsWith_iff.1 hstarts⟩⟩
              · rintro ⟨rfl, -⟩
                rfl
            · refine iff_of_false nofun ?_
              rintro ⟨rfl, h⟩
              obtain ⟨_, _, hm, hd, hsub⟩ := h (List.cons_ne_nil _ _)
              cases hm
              cases hd
              exact hstarts (startsWith_iff.2 hsub)

/-- A path is accepted exactly if it is inside the mount and the mount path itself has no `..`. -/
theorem relativePath_isOk_iff {path : Path} :
    (∃ relative, relativePath config view path = .ok relative) ↔
      .parentDir ∉ config.mountPath ∧ Inside config view.mount path := by
  constructor
  · rintro ⟨relative, h⟩
    obtain ⟨hany, rfl, hdir⟩ := relativePath_eq_ok.1 h
    rw [List.mem_append, not_or] at hany
    exact ⟨hany.1, relative, rfl, hany.2, hdir⟩
  · rintro ⟨hmount, rest, rfl, hrest, hdir⟩
    exact ⟨rest, relativePath_eq_ok.2 ⟨by simp [hmount, hrest], rfl, hdir⟩⟩

/-! ## §2 — Climbing

A row holds at most one link, so from each key there is one way up.  It ends at the root, at a key
without a link, at a row that cannot be read, or it runs into a cycle. -/

variable {root : EntryKey}

/-- The row of `key`, which is not the root, names `parent`. -/
def Up (view : View) (root key parent : EntryKey) : Prop :=
  key ≠ root ∧ ∃ name, linkOf view key = .ok (some (some parent, name))

theorem up_rightUnique : Relator.RightUnique (Up view root) := by
  rintro key parent parent' ⟨-, name, h⟩ ⟨-, name', h'⟩
  rw [h] at h'
  cases h'
  rfl

/-- The way up from `key` ends at `last`. -/
def EndsAt (view : View) (root key last : EntryKey) : Prop :=
  ReflTransGen (Up view root) key last ∧ ∀ parent, ¬ Up view root last parent

/-- The way up from `key` runs into a cycle. -/
def Cyclic (view : View) (root key : EntryKey) : Prop :=
  ∃ k, ReflTransGen (Up view root) key k ∧ TransGen (Up view root) k k

/-- The way up from `key` ends at a row that cannot be read. -/
def Unreadable (view : View) (root key : EntryKey) : Prop :=
  ∃ k, EndsAt view root key k ∧ k ≠ root ∧ ∃ e, linkOf view k = .error e

/-- The way up from `key` ends at a key that has no row, or whose row names no parent. -/
def Dangling (view : View) (root key : EntryKey) : Prop :=
  ∃ k, EndsAt view root key k ∧ k ≠ root ∧ ∃ link, linkOf view k = .ok link

/-- **The way up from `key` reaches the root**, past these names (outermost first). -/
inductive Climbs (view : View) (root : EntryKey) : EntryKey → List Name → Prop
  | root : Climbs view root root []
  | up {key parent : EntryKey} {name : Name} {names : List Name} : key ≠ root →
      linkOf view key = .ok (some (some parent, name)) → Climbs view root parent names →
      Climbs view root key (names ++ [name])

variable {key parent last : EntryKey} {names : List Name}

theorem EndsAt.up (h : EndsAt view root parent last) (hup : Up view root key parent) :
    EndsAt view root key last :=
  ⟨.head hup h.1, h.2⟩

theorem EndsAt.of_reaches {k : EntryKey} (h : EndsAt view root key last)
    (hk : ReflTransGen (Up view root) key k) : ReflTransGen (Up view root) k last := by
  rcases ReflTransGen.total_of_right_unique up_rightUnique hk h.1 with hdown | hup
  · exact hdown
  · rcases ReflTransGen.cases_head hup with heq | ⟨parent, hstep, -⟩
    · rw [heq]
    · exact absurd hstep (h.2 parent)

theorem EndsAt.unique {last' : EntryKey} (h : EndsAt view root key last)
    (h' : EndsAt view root key last') : last = last' := by
  rcases ReflTransGen.cases_head (h.of_reaches h'.1) with heq | ⟨parent, hstep, -⟩
  · exact heq.symm
  · exact absurd hstep (h'.2 parent)

theorem EndsAt.not_cyclic (h : EndsAt view root key last) : ¬ Cyclic view root key := by
  rintro ⟨k, hk, hcycle⟩
  have hlast := h.of_reaches hk
  -- The cycle is carried along the way to its end, which has no way up.
  induction hlast using ReflTransGen.head_induction_on with
  | refl =>
    obtain ⟨parent, hstep, -⟩ := TransGen.head'_iff.1 hcycle
    exact h.2 parent hstep
  | @head k next hstep _ ih =>
    obtain ⟨next', hstep', hback⟩ := TransGen.head'_iff.1 hcycle
    obtain rfl := up_rightUnique hstep hstep'
    exact ih (hk.tail hstep) (TransGen.tail' hback hstep)

theorem Climbs.endsAt (h : Climbs view root key names) : EndsAt view root key root := by
  induction h with
  | root => exact ⟨.refl, fun _ hup => hup.1 rfl⟩
  | up hne hlink _ ih => exact ih.up ⟨hne, _, hlink⟩

theorem Climbs.unique {names' : List Name} (h : Climbs view root key names)
    (h' : Climbs view root key names') : names = names' := by
  induction h generalizing names' with
  | root =>
    cases h' with
    | root => rfl
    | up hne => exact absurd rfl hne
  | up hne hlink _ ih =>
    cases h' with
    | root => exact absurd rfl hne
    | up _ hlink' hclimbs' =>
      rw [hlink] at hlink'
      cases hlink'
      rw [ih hclimbs']

theorem Climbs.not_dangling (h : Climbs view root key names) : ¬ Dangling view root key := by
  rintro ⟨k, hends, hne, -⟩
  exact hne (hends.unique h.endsAt)

theorem Climbs.not_unreadable (h : Climbs view root key names) : ¬ Unreadable view root key := by
  rintro ⟨k, hends, hne, -⟩
  exact hne (hends.unique h.endsAt)

theorem Dangling.not_unreadable (h : Dangling view root key) : ¬ Unreadable view root key := by
  rintro ⟨k, hends, -, e, herror⟩
  obtain ⟨k', hends', -, link, hlink⟩ := h
  rw [hends.unique hends', hlink] at herror
  cases herror

/-! ## §3 — The loop

`Walk` is the loop of `juice_parent_path` with nothing to bound it: a derivation is a loop that has
come to an end. -/

/-- **The loop of `juice_parent_path`** from `current`, with the keys visited so far, ends in `result`. -/
inductive Walk (view : View) (root : EntryKey) : List EntryKey → EntryKey → Resolve (List Name) → Prop
  | arrived (visited : List EntryKey) : Walk view root visited root (.ok [])
  | cycle {visited : List EntryKey} {current : EntryKey} : current ≠ root → current ∈ visited →
      Walk view root visited current (.error (.cycle current))
  | unreadable {visited : List EntryKey} {current : EntryKey} {e : NamespaceError} :
      current ≠ root → current ∉ visited → linkOf view current = .error e →
      Walk view root visited current (.error e)
  | missing {visited : List EntryKey} {current : EntryKey}
      {link : Option (Option EntryKey × Name)} : current ≠ root → current ∉ visited →
      linkOf view current = .ok link → (∀ parent name, link ≠ some (some parent, name)) →
      Walk view root visited current (.error (.missingParent current))
  | up {visited : List EntryKey} {current parent : EntryKey} {name : Name}
      {result : Resolve (List Name)} : current ≠ root → current ∉ visited →
      linkOf view current = .ok (some (some parent, name)) →
      Walk view root (current :: visited) parent result →
      Walk view root visited current (result.map (· ++ [name]))

/-- **The loop ends**, in what `parentNames` computes: it never visits a row twice. -/
theorem walk_parentNames {fuel : ℕ} : ∀ {visited : List EntryKey} (current : EntryKey),
    visited.Nodup → (∀ v ∈ visited, ∃ e, entryOf view v = .ok (some e)) →
    view.catalog.entries.size < fuel + visited.length →
    Walk view root visited current (parentNames view root fuel visited current) := by
  induction fuel with
  | zero =>
    intro visited current hnodup hrows hsize
    have hle := visited_length_le hnodup hrows
    omega
  | succ fuel ih =>
    intro visited current hnodup hrows hsize
    rw [parentNames_succ]
    split_ifs with hroot hvisited
    · rw [hroot]
      exact .arrived visited
    · exact .cycle hroot hvisited
    · split
      · next e herror => exact .unreadable hroot hvisited herror
      · next hnone => exact .missing hroot hvisited hnone nofun
      · next name horphan => exact .missing hroot hvisited horphan nofun
      · next parent name hlink =>
        obtain ⟨entry, hentry, -⟩ := entryOf_of_linkOf hlink
        refine .up hroot hvisited hlink (ih parent (List.nodup_cons.2 ⟨hvisited, hnodup⟩) ?_ ?_)
        · exact List.forall_mem_cons.2 ⟨⟨entry, hentry⟩, hrows⟩
        · rw [List.length_cons]
          omega

theorem linkOf_error {e : NamespaceError} (h : linkOf view key = .error e) : ∃ s, e = .store s := by
  rw [linkOf, entryOf] at h
  cases hread : view.catalog.scopedEntry key with
  | error s =>
    rw [hread] at h
    cases h
    exact ⟨s, rfl⟩
  | ok =>
    rw [hread] at h
    cases h

/-- The four ways the loop can end, and where the way up leads in each. -/
inductive Outcome (view : View) (root key : EntryKey) : Resolve (List Name) → Prop
  | climbs {names : List Name} : Climbs view root key names → Outcome view root key (.ok names)
  | dangling (k : EntryKey) : Dangling view root key → Outcome view root key (.error (.missingParent k))
  | unreadable (s : StoreError) : Unreadable view root key → Outcome view root key (.error (.store s))
  | cyclic (k : EntryKey) : Cyclic view root key → Outcome view root key (.error (.cycle k))

theorem Outcome.up {name : Name} {result : Resolve (List Name)} (hne : key ≠ root)
    (hlink : linkOf view key = .ok (some (some parent, name))) (h : Outcome view root parent result) :
    Outcome view root key (result.map (· ++ [name])) := by
  have hup : Up view root key parent := ⟨hne, name, hlink⟩
  cases h with
  | climbs hclimbs => exact .climbs (.up hne hlink hclimbs)
  | dangling k hdangling =>
    obtain ⟨last, hends, hlast⟩ := hdangling
    exact .dangling k ⟨last, hends.up hup, hlast⟩
  | unreadable s hunreadable =>
    obtain ⟨last, hends, hlast⟩ := hunreadable
    exact .unreadable s ⟨last, hends.up hup, hlast⟩
  | cyclic k hcyclic =>
    obtain ⟨last, hreach, hcycle⟩ := hcyclic
    exact .cyclic k ⟨last, .head hup hreach, hcycle⟩

/-- **What a walk found.**  Each visited key leads to the current one, so that meeting one again closes
a cycle. -/
theorem Walk.outcome {visited : List EntryKey} {result : Resolve (List Name)}
    (h : Walk view root visited key result) :
    (∀ v ∈ visited, TransGen (Up view root) v key) → Outcome view root key result := by
  induction h with
  | arrived => exact fun _ => .climbs .root
  | @cycle visited current _ hvisited =>
    exact fun hbelow => .cyclic current ⟨current, .refl, hbelow current hvisited⟩
  | unreadable hne _ herror =>
    intro _
    obtain ⟨s, rfl⟩ := linkOf_error herror
    refine .unreadable s ⟨_, ⟨.refl, ?_⟩, hne, _, herror⟩
    rintro parent ⟨-, name, hlink⟩
    rw [herror] at hlink
    cases hlink
  | missing hne _ hlink hno =>
    intro _
    refine .dangling _ ⟨_, ⟨.refl, ?_⟩, hne, _, hlink⟩
    rintro parent ⟨-, name, hlink'⟩
    rw [hlink] at hlink'
    exact hno parent name (Except.ok.inj hlink')
  | up hne _ hlink _ ih =>
    intro hbelow
    refine Outcome.up hne hlink (ih ?_)
    intro v hv
    rcases List.mem_cons.1 hv with rfl | hv
    · exact .single ⟨hne, _, hlink⟩
    · exact (hbelow v hv).tail ⟨hne, _, hlink⟩

/-- `juice_parent_path` puts the names of the loop after the mount path. -/
theorem juiceParentPath_eq (hroot : juiceRoot config view = .ok root) (key : EntryKey) :
    ∃ result, Walk view root [] key result ∧
      juiceParentPath config view key = result.map config.mountPath.pushAll := by
  refine ⟨parentNames view root (view.catalog.entries.size + 2) [] key, ?_, ?_⟩
  · refine walk_parentNames key List.nodup_nil (by simp) ?_
    rw [List.length_nil]
    omega
  · rw [juiceParentPath, hroot]
    show (parentNames view root (view.catalog.entries.size + 2) [] key >>= _) = _
    cases parentNames view root (view.catalog.entries.size + 2) [] key <;> rfl

/-! ## §4 — The links of an object -/

def linkPath (config : FileSystemConfig) (names : List Name) (name : Name) : Path :=
  (config.mountPath.pushAll names).push name

def ShownAt (live : Mount) (key : EntryKey) (path : Path) : Prop :=
  ∃ md, live.symlinkMetadata path = .ok md ∧ key.object = .juiceFs md.ino

section Links

variable (config view root)

/-- **A valid link** of the object: its chain reaches the root, and its path is inside the mount and shows
the object. -/
def ValidLink (key : EntryKey) (edge : ScopedNamespaceEdge) : Prop :=
  ∃ names, Climbs view root ⟨config.id, edge.parent⟩ names ∧
    Inside config view.mount (linkPath config names edge.name) ∧
    ShownAt view.mount key (linkPath config names edge.name)

/-- **A link that stops the search**: its chain is cyclic, or meets a row that cannot be read, or its path
is not inside the mount, as when a directory above it is gone. -/
def StopsSearch (edge : ScopedNamespaceEdge) : Prop :=
  Cyclic view root ⟨config.id, edge.parent⟩ ∨ Unreadable view root ⟨config.id, edge.parent⟩ ∨
    ∃ names, Climbs view root ⟨config.id, edge.parent⟩ names ∧
      ¬ Inside config view.mount (linkPath config names edge.name)

end Links

variable {edge : ScopedNamespaceEdge} {edges : List ScopedNamespaceEdge} {inode : UInt64}

theorem Climbs.not_stopsSearch (h : Climbs view root ⟨config.id, edge.parent⟩ names)
    (hinside : Inside config view.mount (linkPath config names edge.name)) :
    ¬ StopsSearch config view root edge := by
  rintro (hcyclic | hunreadable | ⟨names', hclimbs', hout⟩)
  · exact h.endsAt.not_cyclic hcyclic
  · exact h.not_unreadable hunreadable
  · rw [h.unique hclimbs'] at hinside
    exact hout hinside

theorem ValidLink.not_stopsSearch (h : ValidLink config view root key edge) :
    ¬ StopsSearch config view root edge := by
  obtain ⟨names, hclimbs, hinside, -⟩ := h
  exact hclimbs.not_stopsSearch hinside

theorem Dangling.not_stopsSearch (h : Dangling view root ⟨config.id, edge.parent⟩) :
    ¬ StopsSearch config view root edge := by
  rintro (hcyclic | hunreadable | ⟨names, hclimbs, -⟩)
  · obtain ⟨last, hends, -⟩ := h
    exact hends.not_cyclic hcyclic
  · exact h.not_unreadable hunreadable
  · exact hclimbs.not_dangling h

theorem Dangling.not_validLink (h : Dangling view root ⟨config.id, edge.parent⟩) :
    ¬ ValidLink config view root key edge := by
  rintro ⟨names, hclimbs, -⟩
  exact hclimbs.not_dangling h

inductive Round (config : FileSystemConfig) (view : View) (root key : EntryKey) (inode : UInt64)
    (edge : ScopedNamespaceEdge) (edges : List ScopedNamespaceEdge) :
    Resolve ResolvedNamespace → Prop
  | stop (e : NamespaceError) : StopsSearch config view root edge →
      Round config view root key inode edge edges (.error e)
  | found {names : List Name} {stat' : NamespaceStat} :
      Climbs view root ⟨config.id, edge.parent⟩ names →
      .parentDir ∉ linkPath config names edge.name →
      Inside config view.mount (linkPath config names edge.name) →
      stat view (linkPath config names edge.name) = .ok stat' → stat'.inode = inode →
      Round config view root key inode edge edges (.ok ⟨key, linkPath config names edge.name, stat'⟩)
  | skip (resolvedParent : Bool) : ¬ StopsSearch config view root edge →
      ¬ ValidLink config view root key edge →
      Round config view root key inode edge edges
        (resolveEdges config view key inode resolvedParent edges)

theorem round_of_climbs (hmount : .parentDir ∉ config.mountPath) (hkey : key.object = .juiceFs inode)
    (hclimbs : Climbs view root ⟨config.id, edge.parent⟩ names) :
    Round config view root key inode edge edges
      (relativePath config view (linkPath config names edge.name) >>= fun _ =>
        match stat view (linkPath config names edge.name) with
        | .ok stat =>
          if stat.inode = inode then .ok ⟨key, linkPath config names edge.name, stat⟩
          else resolveEdges config view key inode true edges
        | .error _ => resolveEdges config view key inode true edges) := by
  cases hrelative : relativePath config view (linkPath config names edge.name) with
  | error e =>
    refine .stop e (.inr (.inr ⟨names, hclimbs, fun hinside => ?_⟩))
    obtain ⟨relative, hok⟩ := relativePath_isOk_iff.2 ⟨hmount, hinside⟩
    rw [hrelative] at hok
    cases hok
  | ok relative =>
    have hinside := (relativePath_isOk_iff.1 ⟨relative, hrelative⟩).2
    have hgo := hclimbs.not_stopsSearch hinside
    have hnot : ¬ ShownAt view.mount key (linkPath config names edge.name) →
        ¬ ValidLink config view root key edge := by
      rintro hhidden ⟨names', hclimbs', -, hshown⟩
      rw [hclimbs'.unique hclimbs] at hshown
      exact hhidden hshown
    cases hstat : stat view (linkPath config names edge.name) with
    | error =>
      refine .skip true hgo (hnot ?_)
      rintro ⟨md, hmd, -⟩
      rw [stat, hmd] at hstat
      cases hstat
    | ok =>
      dsimp only
      split_ifs with hinode
      · exact .found hclimbs (relativePath_eq_ok.1 hrelative).1 hinside hstat hinode
      · refine .skip true hgo (hnot ?_)
        rintro ⟨md, hmd, hshows⟩
        obtain ⟨md', hmd', hino⟩ := stat_eq_ok hstat
        rw [hmd] at hmd'
        cases hmd'
        rw [hkey] at hshows
        exact hinode (hino.trans (ObjectId.juiceFs.inj hshows).symm)

/-- **One round of the loop over the links.** -/
theorem resolveEdges_round (hroot : juiceRoot config view = .ok root)
    (hmount : .parentDir ∉ config.mountPath) (hkey : key.object = .juiceFs inode)
    (resolvedParent : Bool) :
    Round config view root key inode edge edges
      (resolveEdges config view key inode resolvedParent (edge :: edges)) := by
  obtain ⟨result, hwalk, hpath⟩ := juiceParentPath_eq hroot ⟨config.id, edge.parent⟩
  rw [resolveEdges, hpath]
  cases hwalk.outcome (by simp) with
  | climbs hclimbs => exact round_of_climbs hmount hkey hclimbs
  | dangling k hdangling => exact .skip resolvedParent hdangling.not_stopsSearch hdangling.not_validLink
  | unreadable s hunreadable => exact .stop (.store s) (.inr (.inl hunreadable))
  | cyclic k hcyclic => exact .stop (.cycle k) (.inl hcyclic)

/-! ## §5 — Which objects are resolved

The search goes through the links in key order and ends at the first one that is valid or stops it.  A
link whose directory is gone stops it, and a valid link later in the order is never looked at. -/

def Precedes {α : Type} (good bad : α → Prop) (l : List α) : Prop :=
  ∀ before x after, l = before ++ x :: after → bad x → ∃ y ∈ before, good y

theorem exists_and_precedes_cons {α : Type} {good bad : α → Prop} (hdisjoint : ∀ x, good x → ¬ bad x)
    (a : α) (l : List α) :
    ((∃ x ∈ a :: l, good x) ∧ Precedes good bad (a :: l)) ↔
      good a ∨ (¬ bad a ∧ (∃ x ∈ l, good x) ∧ Precedes good bad l) := by
  constructor
  · rintro ⟨⟨x, hx, hgood⟩, hprecedes⟩
    by_cases ha : good a
    · exact .inl ha
    · refine .inr ⟨fun hbad => ?_, ⟨x, ?_, hgood⟩, ?_⟩
      · obtain ⟨y, hy, -⟩ := hprecedes [] a l rfl hbad
        cases hy
      · rcases List.mem_cons.1 hx with rfl | hx
        · exact absurd hgood ha
        · exact hx
      · intro before y after hl hbad
        obtain ⟨z, hz, hzgood⟩ := hprecedes (a :: before) y after (by rw [hl]; rfl) hbad
        rcases List.mem_cons.1 hz with rfl | hz
        · exact absurd hzgood ha
        · exact ⟨z, hz, hzgood⟩
  · rintro (ha | ⟨ha, ⟨x, hx, hgood⟩, hprecedes⟩)
    · refine ⟨⟨a, List.mem_cons_self, ha⟩, ?_⟩
      rintro (_ | ⟨b, before⟩) y after hl hbad
      · cases hl
        exact absurd hbad (hdisjoint a ha)
      · cases hl
        exact ⟨a, List.mem_cons_self, ha⟩
    · refine ⟨⟨x, List.mem_cons_of_mem a hx, hgood⟩, ?_⟩
      rintro (_ | ⟨b, before⟩) y after hl hbad
      · cases hl
        exact absurd hbad ha
      · cases hl
        obtain ⟨z, hz, hzgood⟩ := hprecedes before y after rfl hbad
        exact ⟨z, List.mem_cons_of_mem a hz, hzgood⟩

/-- **The search succeeds** exactly if there is a valid link and none that stops it comes first. -/
theorem resolveEdges_isOk_iff (hroot : juiceRoot config view = .ok root)
    (hmount : .parentDir ∉ config.mountPath) (hkey : key.object = .juiceFs inode)
    (resolvedParent : Bool) :
    (∃ resolved, resolveEdges config view key inode resolvedParent edges = .ok resolved) ↔
      (∃ edge ∈ edges, ValidLink config view root key edge) ∧
        Precedes (ValidLink config view root key) (StopsSearch config view root) edges := by
  induction edges generalizing resolvedParent with
  | nil => cases resolvedParent <;> simp [resolveEdges]
  | cons edge edges ih =>
    rw [exists_and_precedes_cons fun _ => ValidLink.not_stopsSearch]
    have hround := @resolveEdges_round _ _ _ _ edge edges _ hroot hmount hkey resolvedParent
    generalize resolveEdges config view key inode resolvedParent (edge :: edges) = result at hround ⊢
    cases hround with
    | stop e hstops =>
      refine iff_of_false (by rintro ⟨_, h⟩; cases h) ?_
      rintro (hvalid | ⟨hgo, -⟩)
      · exact hvalid.not_stopsSearch hstops
      · exact hgo hstops
    | found hclimbs _ hinside hstat hinode =>
      refine iff_of_true ⟨_, rfl⟩ (.inl ⟨_, hclimbs, hinside, ?_⟩)
      obtain ⟨md, hmd, hino⟩ := stat_eq_ok hstat
      exact ⟨md, hmd, by rw [hkey, ← hinode, hino]⟩
    | skip flag hgo hinvalid =>
      rw [ih flag]
      exact ⟨fun h => .inr ⟨hgo, h⟩, fun h => (h.resolve_left hinvalid).2⟩

def OwnsRow (c : Catalog) (key : EntryKey) : Prop :=
  ∀ entry, c.row key.object = some entry → entry.key = key

theorem entryOf_isSome_iff :
    (∃ entry, entryOf view key = .ok (some entry)) ↔
      (view.catalog.row key.object).isSome ∧ OwnsRow view.catalog key := by
  simp only [entryOf_eq_some, OwnsRow]
  cases view.catalog.row key.object <;> simp

/-- **When a valid link is enough.**  An object with a row and a valid link is resolved exactly if the root
is cataloged, the mount path has no `..`, the row can be read, and no link that stops the search comes
before every valid one. -/
theorem object_resolves_iff {md : Metadata} (hjuice : config.backend = .juiceFs)
    (hfilesystem : key.filesystem = config.id) (hrow : (view.catalog.row key.object).isSome)
    (hmd : view.mount.symlinkMetadata config.mountPath = .ok md)
    (hroot : root = ⟨config.id, .juiceFs md.ino⟩)
    (hvalid : ∃ edge ∈ view.catalog.listScopedObjectEdges key, ValidLink config view root key edge) :
    (∃ resolved, resolve config view (.object key) = .ok resolved) ↔
      ((view.catalog.row root.object).isSome ∧ OwnsRow view.catalog root) ∧
        (key = root ∨
          (OwnsRow view.catalog key ∧ .parentDir ∉ config.mountPath ∧
            Precedes (ValidLink config view root key) (StopsSearch config view root)
              (view.catalog.listScopedObjectEdges key))) := by
  obtain ⟨inode, hinode⟩ : ∃ inode, key.object = .juiceFs inode := by
    obtain ⟨_, -, _, -, -, md', -, hshown⟩ := hvalid
    exact ⟨_, hshown⟩
  have hkey : key = ⟨config.id, .juiceFs inode⟩ := by rw [← hfilesystem, ← hinode]
  simp only [resolve, resolveObject, hjuice, ← entryOf_isSome_iff]
  have hjuiceRoot : ∀ root', juiceRoot config view = .ok root' ↔
      root' = root ∧ ∃ entry, entryOf view root = .ok (some entry) := by
    intro root'
    rw [juiceRoot_eq_ok]
    constructor
    · rintro ⟨⟨md', hmd', rfl⟩, hentry⟩
      rw [hmd] at hmd'
      cases hmd'
      rw [hroot]
      exact ⟨rfl, hentry⟩
    · rintro ⟨rfl, hentry⟩
      exact ⟨⟨md, hmd, hroot⟩, hentry⟩
  constructor
  · rintro ⟨resolved, h⟩
    obtain ⟨root', inode', hroot', hkey', hcase⟩ := resolveJuiceObject_eq_ok.1 h
    obtain ⟨rfl, hentry⟩ := (hjuiceRoot root').1 hroot'
    refine ⟨hentry, ?_⟩
    rcases hcase with ⟨heq, -⟩ | ⟨-, hown, hedges⟩
    · exact .inl heq
    · obtain ⟨_, -, parentPath, relative, _, -, hrelative, -⟩ := resolveEdges_found hedges
      have hmount := (relativePath_isOk_iff.1 ⟨relative, hrelative⟩).1
      rw [hkey] at hkey'
      cases hkey'
      refine .inr ⟨(entryOf_isSome_iff.1 hown).2, hmount, ?_⟩
      exact ((resolveEdges_isOk_iff hroot' hmount hinode false).1 ⟨_, hedges⟩).2
  · rintro ⟨hentry, hcase⟩
    have hroot' := (hjuiceRoot root).2 ⟨rfl, hentry⟩
    by_cases heq : key = root
    · obtain ⟨stat', hstat⟩ : ∃ stat', stat view config.mountPath = .ok stat' :=
        ⟨_, by rw [stat, hmd]⟩
      exact ⟨⟨key, config.mountPath, stat'⟩, resolveJuiceObject_eq_ok.2
        ⟨root, inode, hroot', hkey, .inl ⟨heq, stat', hstat, rfl⟩⟩⟩
    · obtain ⟨hown, hmount, hprecedes⟩ := hcase.resolve_left heq
      obtain ⟨resolved, hedges⟩ :=
        (resolveEdges_isOk_iff hroot' hmount hinode false).2 ⟨hvalid, hprecedes⟩
      exact ⟨resolved, resolveJuiceObject_eq_ok.2
        ⟨root, inode, hroot', hkey, .inr ⟨heq, entryOf_isSome_iff.2 ⟨hrow, hown⟩, hedges⟩⟩⟩

end Climbing

namespace Sample

def jfs : FileSystemId := ⟨"jfs", FileSystemId.jfs_valid⟩

/-- A JuiceFS registration, mounted at `/m`. -/
def config : FileSystemConfig where
  id := jfs
  backend := .juiceFs
  mountPath := [.rootDir, .normal [109]]
  capabilities := ⟨true, true, true, false, false, false⟩

def key (inode : UInt64) : EntryKey := ⟨jfs, .juiceFs inode⟩

def row (inode : UInt64) (parent : Option UInt64) (name : Name) (kind : EntryKind) : ScopedEntryRow :=
  ⟨key inode, parent.map key, name, kind, 0, 0, 0, 0, 0, 0, 1, 0, 0, 0, none, none, [], none, .obj [],
    0, 0⟩

/-- The root 1, a directory 3 in it under `name`, and a file 4 `c` in that. -/
def tree (name : Name) : Catalog :=
  let bare : Catalog := ⟨some config, ∅, ∅, ∅, ∅, none⟩
  ((((bare.putRow (.juiceFs 1) (row 1 none [] .directory)).putRow (.juiceFs 3)
    (row 3 (some 1) name .directory)).putRow (.juiceFs 4) (row 4 (some 3) [99] .file)).putEdge
    ⟨.juiceFs 1, name⟩ (.juiceFs 3)).putEdge ⟨.juiceFs 3, [99]⟩ (.juiceFs 4)

def mount (directory : Path) : Mount where
  symlinkMetadata path :=
    let shows (inode : UInt64) (kind : EntryKind) : Except IoError Metadata :=
      .ok ⟨kind, inode, 1, 0, 0, 0, 0, 0, 0, 0, 0⟩
    if path = config.mountPath then shows 1 .directory
    else if path = config.mountPath ++ directory then shows 3 .directory
    else if path = config.mountPath ++ directory ++ [.normal [99]] then shows 4 .file
    else .error .notFound
  canonicalize path :=
    if path = config.mountPath ∨ path = config.mountPath ++ directory then .ok path
    else .error .notFound
  fidToPath _ := .error .notFound
  pathToFid _ := .error .notFound

/-- The file at `/m/a/c` has one link more, in a directory 2 that is cataloged and gone. -/
def hardLinked : View where
  catalog := (((tree [97]).putRow (.juiceFs 2) (row 2 (some 1) [98] .directory)).putEdge
    ⟨.juiceFs 1, [98]⟩ (.juiceFs 2)).putEdge ⟨.juiceFs 2, [99]⟩ (.juiceFs 4)
  mount := mount [.normal [97]]

def keptLink : ScopedNamespaceEdge := ⟨jfs, .juiceFs 3, [99], .juiceFs 4⟩

theorem keptLink_valid : ValidLink config hardLinked (key 1) (key 4) keptLink := by
  refine ⟨[[97]], .up (by decide) (by rfl) .root, ⟨[.normal [97], .normal [99]], by decide, by decide,
    fun _ => ?_⟩, ⟨_, rfl, rfl⟩⟩
  exact ⟨config.mountPath, config.mountPath ++ [.normal [97]], rfl, rfl, List.prefix_append ..⟩

end Sample

/-- Whether the file is resolved depends on the link in the deleted directory. -/
theorem hard_linked_resolves_iff :
    (∃ resolved, resolve Sample.config Sample.hardLinked (.object (Sample.key 4)) = .ok resolved) ↔
      ((Sample.hardLinked.catalog.row (Sample.key 1).object).isSome ∧
          OwnsRow Sample.hardLinked.catalog (Sample.key 1)) ∧
        (Sample.key 4 = Sample.key 1 ∨
          (OwnsRow Sample.hardLinked.catalog (Sample.key 4) ∧ .parentDir ∉ Sample.config.mountPath ∧
            Precedes (ValidLink Sample.config Sample.hardLinked (Sample.key 1) (Sample.key 4))
              (StopsSearch Sample.config Sample.hardLinked (Sample.key 1))
              (Sample.hardLinked.catalog.listScopedObjectEdges (Sample.key 4)))) :=
  object_resolves_iff rfl rfl (by decide +kernel) rfl rfl
    ⟨Sample.keptLink, by decide +kernel, Sample.keptLink_valid⟩

/-- **A deleted directory hides a valid link.**  The first link of the file is in the directory that is
gone; its path cannot be canonicalized, and that error is the answer. -/
theorem deleted_directory_hides_link :
    ((Sample.hardLinked.catalog.row (.juiceFs 4)).isSome ∧
      ∃ edge ∈ Sample.hardLinked.catalog.listScopedObjectEdges (Sample.key 4),
        ValidLink Sample.config Sample.hardLinked (Sample.key 1) (Sample.key 4) edge) ∧
      resolve Sample.config Sample.hardLinked (.object (Sample.key 4)) =
        .error (.io (Sample.config.mountPath ++ [.normal [98]]) .notFound) :=
  ⟨⟨by decide +kernel, Sample.keptLink, by decide +kernel, Sample.keptLink_valid⟩, by decide +kernel⟩

/-! ## §6 — Resolving there and back

An object is resolved by climbing the rows, a path by descending the edges.  The two agree where the
edges of the directories say what their rows say. -/

section RoundTrip

variable {config : FileSystemConfig} {view : View} {root key : EntryKey} {names : List Name}

/-- **A resolved target** is inside the mount, and its path shows its inode. -/
theorem resolve_inside (hjuice : config.backend = .juiceFs) {target : NamespaceTarget}
    {resolved : ResolvedNamespace} (h : resolve config view target = .ok resolved) :
    Inside config view.mount resolved.path ∧ ShownAt view.mount resolved.key resolved.path := by
  cases target with
  | object =>
    simp only [resolve, resolveObject, hjuice] at h
    have hshown := resolveJuiceObject_ok h
    obtain ⟨root, inode, -, -, ⟨-, stat', -, rfl⟩ | ⟨-, -, hedges⟩⟩ := resolveJuiceObject_eq_ok.1 h
    · exact ⟨⟨[], by simp, by simp, fun h => absurd rfl h⟩, hshown⟩
    · obtain ⟨_, -, _, relative, _, -, hrelative, -, -, rfl⟩ := resolveEdges_found hedges
      exact ⟨(relativePath_isOk_iff.1 ⟨relative, hrelative⟩).2, hshown⟩
  | path =>
    simp only [resolve, hjuice] at h
    obtain ⟨relative, hrelative, h⟩ := except_bind_eq_ok.1 h
    obtain ⟨stat', hstat, h⟩ := except_bind_eq_ok.1 h
    obtain ⟨root, -, h⟩ := except_bind_eq_ok.1 h
    obtain ⟨key, -, h⟩ := except_bind_eq_ok.1 h
    split_ifs at h with hobject
    cases h
    obtain ⟨md, hmd, hino⟩ := stat_eq_ok hstat
    refine ⟨(relativePath_isOk_iff.1 ⟨relative, hrelative⟩).2, md, hmd, ?_⟩
    rw [← hino]
    exact not_not.1 hobject

def DirectoriesLinked (c : Catalog) : Prop :=
  ∀ o entry, c.row o = some entry → entry.kind = .directory →
    ∀ k, c.child k = some o ↔ ∃ parent, entry.parent = some parent ∧ k = ⟨parent.object, entry.name⟩

def DirectoryIfAny (c : Catalog) (object : ObjectId) : Prop :=
  ∀ entry, c.row object = some entry → entry.kind = .directory

structure ParentsAreDirectories (c : Catalog) : Prop where
  edges : ∀ k o, c.child k = some o → DirectoryIfAny c k.parent
  rows : ∀ o entry parent, c.row o = some entry → entry.parent = some parent →
    DirectoryIfAny c parent.object

def PlainNames (c : Catalog) : Prop := ∀ k o, c.child k = some o → Path.Plain k.name

theorem childKey_concat (start : EntryKey) (path : Path) (name : Name) :
    childKey config view start (path ++ [.normal name]) = childKey config view start path >>= fun k =>
      match view.catalog.child ⟨k.object, name⟩ with
      | some object => .ok ⟨config.id, object⟩
      | none => .error (.stalePath k) := by
  induction path generalizing start with
  | nil =>
    rw [List.nil_append, childKey, childKey]
    show _ = (match view.catalog.child ⟨start.object, name⟩ with | some object => _ | none => _)
    cases view.catalog.child ⟨start.object, name⟩ <;> rfl
  | cons component path ih =>
    rw [List.cons_append]
    cases component with
    | normal first =>
      rw [childKey, childKey]
      cases view.catalog.child ⟨start.object, first⟩ with
      | none => rfl
      | some => exact ih _
    | rootDir | curDir | parentDir => exact ih start

/-- **What is climbed from a directory is descended to it.** -/
theorem Climbs.childKey (hlinked : DirectoriesLinked view.catalog)
    (hparents : ParentsAreDirectories view.catalog) (hplain : PlainNames view.catalog)
    (hroot : root.filesystem = config.id) (h : Climbs view root key names) :
    DirectoryIfAny view.catalog key.object →
      (∀ name ∈ names, Path.Plain name) ∧
        childKey config view root (names.map .normal) = .ok ⟨config.id, key.object⟩ := by
  induction h with
  | root =>
    intro _
    refine ⟨by simp, ?_⟩
    rw [← hroot]
    rfl
  | @up key parent name names hne hlink hclimbs ih =>
    intro hdirectory
    obtain ⟨entry, hentry, heq⟩ := entryOf_of_linkOf hlink
    have hrow := (entryOf_eq_some.1 hentry).1
    obtain ⟨hparent, hname⟩ := Prod.mk.inj heq
    have hchild : view.catalog.child ⟨parent.object, name⟩ = some key.object :=
      (hlinked _ entry hrow (hdirectory entry hrow) _).2 ⟨parent, hparent.symm, by rw [hname]⟩
    obtain ⟨hnames, hdown⟩ := ih (hparents.rows _ entry parent hrow hparent.symm)
    refine ⟨?_, ?_⟩
    · intro n hn
      rcases List.mem_append.1 hn with hn | hn
      · exact hnames n hn
      · rw [List.mem_singleton.1 hn]
        exact hplain _ _ hchild
    · rw [List.map_append, List.map_singleton, childKey_concat, hdown]
      show (match view.catalog.child ⟨parent.object, name⟩ with | some object => _ | none => _) = _
      rw [hchild]

theorem resolveJuicePath_of_link {inode : UInt64} {resolved : ResolvedNamespace}
    (hlinked : DirectoriesLinked view.catalog) (hparents : ParentsAreDirectories view.catalog)
    (hplain : PlainNames view.catalog) (hroot : juiceRoot config view = .ok root)
    (h : resolveEdges config view ⟨config.id, .juiceFs inode⟩ inode false
      (view.catalog.listScopedObjectEdges ⟨config.id, .juiceFs inode⟩) = .ok resolved) :
    resolveJuicePath config view resolved.path = .ok resolved := by
  obtain ⟨edge, hedge, parentPath, relative, stat', hparent, hrelative, hstat, hinode, rfl⟩ :=
    resolveEdges_found h
  simp only [Catalog.listScopedObjectEdges, List.mem_map] at hedge
  obtain ⟨k, hk, rfl⟩ := hedge
  have hchild := Catalog.mem_objectEdges.1 hk
  obtain ⟨result, hwalk, hpath⟩ := juiceParentPath_eq hroot ⟨config.id, k.parent⟩
  rw [hpath] at hparent
  cases hwalk.outcome (by simp) with
  | climbs hclimbs =>
    cases hparent
    obtain ⟨md, -, hrootKey⟩ := juiceRoot_ok hroot
    have hfilesystem : root.filesystem = config.id := by rw [hrootKey]
    obtain ⟨hnames, hdown⟩ :=
      hclimbs.childKey hlinked hparents hplain hfilesystem (hparents.edges k _ hchild)
    -- The names pushed on the way back are the components that are descended.
    rw [Path.pushAll_plain hnames, Path.push_plain (hplain k _ hchild), List.append_assoc]
      at hrelative hstat ⊢
    have hcomponents := (relativePath_eq_ok.1 hrelative).2.1
    rw [List.append_cancel_left_eq] at hcomponents
    refine except_bind_eq_ok.2 ⟨relative, hrelative, ?_⟩
    refine except_bind_eq_ok.2 ⟨stat', hstat, ?_⟩
    refine except_bind_eq_ok.2 ⟨root, hroot, ?_⟩
    refine except_bind_eq_ok.2 ⟨⟨config.id, .juiceFs inode⟩, ?_, ?_⟩
    · rw [← hcomponents, childKey_concat, hdown]
      show (match view.catalog.child k with | some object => _ | none => _) = _
      rw [hchild]
    · rw [if_neg (not_not.2 (by rw [hinode]))]
  | dangling | unreadable | cyclic => cases hparent

/-- **Resolution is sound and consistent.**  The climb ends on every catalog, in what the adapter computes;
a resolved target is inside the mount and shows its inode; and where the mount path has no `..`, the
edges have plain names, every directory's only edge is the one its row says, and only directories are
parents, the path found for an object resolves to the object. -/
theorem resolution_sound_and_consistent (hjuice : config.backend = .juiceFs) :
    (∀ root, juiceRoot config view = .ok root → ∀ key, ∃ result, Walk view root [] key result ∧
      juiceParentPath config view key = result.map config.mountPath.pushAll) ∧
    (∀ target resolved, resolve config view target = .ok resolved →
      Inside config view.mount resolved.path ∧ ShownAt view.mount resolved.key resolved.path) ∧
    (.parentDir ∉ config.mountPath → PlainNames view.catalog → DirectoriesLinked view.catalog →
      ParentsAreDirectories view.catalog → ∀ key resolved,
      resolve config view (.object key) = .ok resolved →
      resolved.key = key ∧ resolve config view (.path resolved.path) = .ok resolved) := by
  refine ⟨fun root hroot key => juiceParentPath_eq hroot key,
    fun target resolved h => resolve_inside hjuice h, ?_⟩
  intro hmount hplain hlinked hparents key resolved h
  simp only [resolve, resolveObject, hjuice] at h ⊢
  obtain ⟨root, inode, hroot, rfl, ⟨hkey, stat', hstat, rfl⟩ | ⟨-, -, hedges⟩⟩ :=
    resolveJuiceObject_eq_ok.1 h
  · refine ⟨rfl, ?_⟩
    obtain ⟨md, hmd, hino⟩ := stat_eq_ok hstat
    have hrelative : relativePath config view config.mountPath = .ok [] :=
      relativePath_eq_ok.2 ⟨hmount, by simp, fun h => absurd rfl h⟩
    refine except_bind_eq_ok.2 ⟨[], hrelative, except_bind_eq_ok.2 ⟨stat', hstat, ?_⟩⟩
    refine except_bind_eq_ok.2 ⟨root, hroot, except_bind_eq_ok.2 ⟨root, rfl, ?_⟩⟩
    obtain ⟨md', hmd', hrootKey⟩ := juiceRoot_ok hroot
    rw [hmd] at hmd'
    cases hmd'
    rw [if_neg (not_not.2 (by rw [hrootKey, hino])), ← hkey]
  · obtain ⟨_, -, _, _, _, -, -, -, -, hresolved⟩ := resolveEdges_found hedges
    exact ⟨by rw [hresolved], resolveJuicePath_of_link hlinked hparents hplain hroot hedges⟩

end RoundTrip

namespace Sample

theorem row_tree {name : Name} {o : ObjectId} {entry : ScopedEntryRow}
    (h : (tree name).row o = some entry) :
    (o = .juiceFs 1 ∧ entry = row 1 none [] .directory) ∨
      (o = .juiceFs 3 ∧ entry = row 3 (some 1) name .directory) ∨
      (o = .juiceFs 4 ∧ entry = row 4 (some 3) [99] .file) := by
  simp only [tree, Catalog.row_putEdge, Catalog.row_putRow] at h
  split_ifs at h with h₁ h₂ h₃
  · exact .inr (.inr ⟨h₁.symm, (Option.some.inj h).symm⟩)
  · exact .inr (.inl ⟨h₂.symm, (Option.some.inj h).symm⟩)
  · exact .inl ⟨h₃.symm, (Option.some.inj h).symm⟩
  · simp [Catalog.row] at h

theorem child_tree {name : Name} {k : EdgeKey} {o : ObjectId} :
    (tree name).child k = some o ↔
      (k = ⟨.juiceFs 3, [99]⟩ ∧ o = .juiceFs 4) ∨ (k = ⟨.juiceFs 1, name⟩ ∧ o = .juiceFs 3) := by
  simp only [tree, Catalog.child_putEdge, Catalog.child_putRow]
  split_ifs with h₁ h₂
  · subst h₁
    simp [eq_comm]
  · subst h₂
    simp [eq_comm]
  · simp [Catalog.child, Ne.symm h₁, Ne.symm h₂]

theorem tree_linked (name : Name) : DirectoriesLinked (tree name) := by
  intro o entry hrow hkind k
  rw [child_tree]
  obtain ⟨rfl, rfl⟩ | ⟨rfl, rfl⟩ | ⟨rfl, rfl⟩ := row_tree hrow
  · simp [row]
  · simp [row, key]
  · cases hkind

theorem tree_parents (name : Name) : ParentsAreDirectories (tree name) where
  edges k o hchild entry hrow := by
    obtain ⟨rfl, rfl⟩ | ⟨rfl, rfl⟩ := child_tree.1 hchild <;>
      obtain ⟨ho, rfl⟩ | ⟨ho, rfl⟩ | ⟨ho, rfl⟩ := row_tree hrow <;> first | rfl | cases ho
  rows o entry parent hrow hparent entry' hrow' := by
    obtain ⟨rfl, rfl⟩ | ⟨rfl, rfl⟩ | ⟨rfl, rfl⟩ := row_tree hrow <;> cases hparent <;>
      obtain ⟨ho, rfl⟩ | ⟨ho, rfl⟩ | ⟨ho, rfl⟩ := row_tree hrow' <;> first | rfl | cases ho

def fileAt (path : Path) : ResolvedNamespace := ⟨key 4, path, ⟨.file, 0, 1, 4⟩⟩

end Sample

/-- `/m/a/c` is found for the file and resolves to it. -/
theorem file_round_trip :
    let path := Sample.config.mountPath ++ [.normal [97], .normal [99]]
    resolve Sample.config ⟨Sample.tree [97], Sample.mount [.normal [97]]⟩ (.path path) =
      .ok (Sample.fileAt path) := by
  have hplain : PlainNames (Sample.tree [97]) := by
    intro k o hchild
    obtain ⟨rfl, -⟩ | ⟨rfl, -⟩ := Sample.child_tree.1 hchild <;> decide
  have hresolved : resolve Sample.config ⟨Sample.tree [97], Sample.mount [.normal [97]]⟩
      (.object (Sample.key 4)) =
        .ok (Sample.fileAt (Sample.config.mountPath ++ [.normal [97], .normal [99]])) := by
    decide +kernel
  exact ((resolution_sound_and_consistent rfl).2.2 (by decide) hplain (Sample.tree_linked _)
    (Sample.tree_parents _) _ _ hresolved).2

/-- **A name with a slash does not come back.**  A row and its edge may agree on the name `a/b`; pushed
onto the mount path it is two components, which are then looked up one after the other. -/
theorem slash_in_name_is_stale :
    let view : View := ⟨Sample.tree [97, 47, 98], Sample.mount [.normal [97], .normal [98]]⟩
    let path := Sample.config.mountPath ++ [.normal [97], .normal [98], .normal [99]]
    DirectoriesLinked view.catalog ∧
      resolve Sample.config view (.object (Sample.key 4)) = .ok (Sample.fileAt path) ∧
      resolve Sample.config view (.path path) = .error (.stalePath (Sample.key 1)) :=
  ⟨Sample.tree_linked _, by decide +kernel, by decide +kernel⟩

end Robinhood.Namespace
