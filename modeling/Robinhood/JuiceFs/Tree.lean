/-
# JuiceFs.Tree — POSIX operations keep a filesystem a tree

Every operation that `Allows` admits leads from a well-formed filesystem to a well-formed one, and in a
well-formed filesystem every directory is reached from the root by exactly one chain of names.
-/
import Mathlib
import Robinhood.JuiceFs.Live

namespace Robinhood.JuiceFs.FsState

open Lib Posix Store Ingest

variable {s : FsState}

/-! ## §1 — Paths in a tree -/

theorem WF.reachable (hs : s.WF) {d : ObjectId} (hd : s.Dir d) : ∃ names, s.walk names = some d := by
  obtain ⟨rank, hrank⟩ := hs.ranked
  -- Induction on the rank: the directory that contains `d` ranks below it.
  induction hn : rank d using Nat.strong_induction_on generalizing d with
  | _ n ih =>
    obtain ⟨hkind, rfl | ⟨k, hk⟩⟩ := hd
    · exact ⟨[], rfl⟩
    · obtain ⟨names, hnames⟩ := ih _ (hn ▸ hrank k d hk hkind) (hs.parent_dir k d hk) rfl
      refine ⟨names ++ [k.name], ?_⟩
      rw [walk] at hnames ⊢
      rw [walkFrom_concat, hnames]
      exact hk

theorem WF.walk_unique (hs : s.WF) {d : ObjectId} (hd : s.kinds[d]? = some .directory)
    {names names' : List Name} (h : s.walk names = some d) (h' : s.walk names' = some d) :
    names = names' := by
  induction names using List.reverseRecOn generalizing d names' with
  | nil =>
    cases h
    rcases List.eq_nil_or_concat names' with rfl | ⟨rest, n, rfl⟩
    · rfl
    · rw [List.concat_eq_append, walk, walkFrom_concat, Option.bind_eq_some_iff] at h'
      obtain ⟨p, -, hp⟩ := h'
      exact absurd hp (hs.root_unlinked _)
  | append_singleton names n ih =>
    rw [walk, walkFrom_concat, Option.bind_eq_some_iff] at h
    obtain ⟨p, hp, hlink⟩ := h
    rcases List.eq_nil_or_concat names' with rfl | ⟨rest, m, rfl⟩
    · cases h'
      exact absurd hlink (hs.root_unlinked _)
    · rw [List.concat_eq_append] at h' ⊢
      rw [walk, walkFrom_concat, Option.bind_eq_some_iff] at h'
      obtain ⟨q, hq, hlink'⟩ := h'
      have hkey := hs.dir_link _ _ d hd hlink hlink'
      obtain ⟨rfl, rfl⟩ := EdgeKey.mk.inj hkey
      rw [ih (hs.parent_dir _ _ hlink).1 hp hq]

/-! ## §2 — The operations -/

/-- **A new name** for an object that is new or not a directory. -/
theorem WF.insert (hs : s.WF) {kinds : Table ObjectId EntryKind} {object parent : ObjectId}
    {name : Name} (hfree : s.links[(⟨parent, name⟩ : EdgeKey)]? = none) (hparent : s.Dir parent)
    (hname : Path.Plain name) (hnative : object.backend = .juiceFs) (hroot : object ≠ s.root)
    (hkept : ∀ o : ObjectId, (s.kinds[o]?).isSome → kinds[o]? = s.kinds[o]?)
    (hothers : ∀ o, o ≠ object → kinds[o]? = s.kinds[o]?) (hkind : (kinds[object]?).isSome)
    (hdir : kinds[object]? = some .directory → s.kinds[object]? = none) :
    (⟨s.root, s.links.insert ⟨parent, name⟩ object, kinds⟩ : FsState).WF := by
  have hdir' : ∀ d, s.Dir d → kinds[d]? = some .directory := fun d hd => by
    rw [hkept d (by rw [hd.1]; rfl), hd.1]
  have hne : ∀ d, s.Dir d → d ≠ object := by
    rintro d hd rfl
    have := hdir (hdir' d hd)
    rw [hd.1] at this
    cases this
  -- A directory other than the object had its links before.
  have hold : ∀ (k : EdgeKey) d, s.links[k]? = some d → kinds[d]? = some .directory →
      s.kinds[d]? = some .directory := by
    intro k d hk hd
    rw [← hkept d (hs.linked_kind k d hk), hd]
  refine ⟨hdir' _ ⟨hs.root_kind, .inl rfl⟩, fun k => ?_, fun o kind ho => ?_, fun k o hk => ?_,
    fun k o hk => ?_, fun k o hk => ?_, fun k k' d hd hk hk' => ?_, ?_⟩
  · rw [Table.getElem?_upsert]
    split_ifs
    · simpa using hroot
    · exact hs.root_unlinked k
  · by_cases hobject : o = object
    · exact hobject ▸ hnative
    · exact hs.native o kind (hothers o hobject ▸ ho)
  · rw [Table.getElem?_upsert] at hk
    split_ifs at hk
    · cases hk
      exact hkind
    · rw [hkept o (hs.linked_kind k o hk)]
      exact hs.linked_kind k o hk
  · rw [Table.getElem?_upsert] at hk
    split_ifs at hk with hkey
    · exact hkey ▸ hname
    · exact hs.plain k o hk
  · have hd : s.Dir k.parent := by
      rw [Table.getElem?_upsert] at hk
      split_ifs at hk with hkey
      · exact hkey ▸ hparent
      · exact hs.parent_dir k o hk
    refine ⟨hdir' _ hd, hd.2.imp id ?_⟩
    rintro ⟨k', hk'⟩
    refine ⟨k', ?_⟩
    rw [Table.getElem?_upsert, if_neg (fun hkey => ?_), hk']
    rw [← hkey, hfree] at hk'
    cases hk'
  · rw [Table.getElem?_upsert] at hk hk'
    split_ifs at hk hk' with hkey hkey' hkey'
    · rw [← hkey, ← hkey']
    · cases hk
      exact absurd (hdir hd) (by simp [hold k' _ hk' hd])
    · cases hk'
      exact absurd (hdir hd) (by simp [hold k _ hk hd])
    · exact hs.dir_link k k' d (hold k d hk hd) hk hk'
  · obtain ⟨rank, hrank⟩ := hs.ranked
    refine ⟨Function.update rank object (rank parent + 1), fun k d hk hd => ?_⟩
    rw [Table.getElem?_upsert] at hk
    split_ifs at hk with hkey
    · cases hk
      rw [← hkey, Function.update_self, Function.update_of_ne (hne parent hparent)]
      exact Nat.lt_succ_self _
    · have hd' := hold k d hk hd
      have hdo : d ≠ object := by
        rintro rfl
        rw [hdir hd] at hd'
        cases hd'
      rw [Function.update_of_ne hdo, Function.update_of_ne (hne _ (hs.parent_dir k d hk))]
      exact hrank k d hk hd'

theorem wf_after_created {object parent : ObjectId} {name : Name} {kind : EntryKind}
    {metadata : Option CreatedMetadata} {time : Int} (hs : s.WF)
    (h : s.Allows (.created object parent name kind metadata time)) :
    (s.after (.created object parent name kind metadata time)).WF := by
  obtain ⟨hfree, hfresh, hnative, hparent, hname⟩ := h
  have hne : ∀ o : ObjectId, (s.kinds[o]?).isSome → object ≠ o := by
    rintro o ho rfl
    rw [hfresh] at ho
    cases ho
  refine hs.insert hfree hparent hname hnative (hne _ (by rw [hs.root_kind]; rfl))
    (fun o ho => ?_) (fun o ho => ?_) ?_ fun _ => hfresh
  · simp [hne o ho]
  · simp [Ne.symm ho]
  · simp

theorem wf_after_hardlinked {object parent : ObjectId} {name : Name} {time : Int} (hs : s.WF)
    (h : s.Allows (.hardlinked object parent name time)) :
    (s.after (.hardlinked object parent name time)).WF := by
  obtain ⟨hfree, hkind, hlinked, hparent, hname⟩ := h
  have hroot : object ≠ s.root := by
    rintro rfl
    exact hkind hs.root_kind
  obtain ⟨k, hk⟩ := hlinked.resolve_left hroot
  have hsome := hs.linked_kind k _ hk
  obtain ⟨kind, hkind'⟩ := Option.isSome_iff_exists.1 hsome
  exact hs.insert hfree hparent hname (hs.native _ _ hkind') hroot (fun _ _ => rfl) (fun _ _ => rfl)
    hsome fun hdir => absurd hdir hkind

theorem wf_after_removed {object parent : ObjectId} {name : Name} {lastLink directory : Bool}
    {time : Int} (hs : s.WF) (h : s.Allows (.removed object parent name lastLink directory time)) :
    (s.after (.removed object parent name lastLink directory time)).WF := by
  obtain ⟨hlink, hdir, hempty⟩ := h
  have hlink := hlink
  have hold : ∀ {k : EdgeKey} {o : ObjectId}, (onLinks (.removed object parent name lastLink directory
      time) s.links)[k]? = some o → s.links[k]? = some o := by
    intro k o hk
    rw [onLinks, Table.getElem?_delete] at hk
    split_ifs at hk
    exact hk
  refine ⟨hs.root_kind, fun k hk => hs.root_unlinked k (hold hk), hs.native,
    fun k o hk => hs.linked_kind k o (hold hk), fun k o hk => hs.plain k o (hold hk),
    fun k o hk => ?_, fun k k' d hd hk hk' => hs.dir_link k k' d hd (hold hk) (hold hk'), ?_⟩
  · obtain ⟨hkind, hlinked⟩ := hs.parent_dir k o (hold hk)
    refine ⟨hkind, hlinked.imp id ?_⟩
    rintro ⟨k', hk'⟩
    refine ⟨k', ?_⟩
    -- A directory that holds a name is not empty, so it is not the one removed.
    have hne : (⟨parent, name⟩ : EdgeKey) ≠ k' := by
      rintro rfl
      rw [hlink] at hk'
      cases hk'
      have := hempty (hdir.2 hkind) k.name
      rw [hold hk] at this
      cases this
    show (s.links.erase _)[k']? = _
    rw [Table.getElem?_delete, if_neg hne, hk']
  · obtain ⟨rank, hrank⟩ := hs.ranked
    exact ⟨rank, fun k d hk hd => hrank k d (hold hk) hd⟩

theorem wf_after_renamed {object sourceParent parent : ObjectId} {sourceName name : Name}
    {time : Int} (hs : s.WF)
    (h : s.Allows (.renamed object sourceParent sourceName parent name time)) :
    (s.after (.renamed object sourceParent sourceName parent name time)).WF := by
  obtain ⟨⟨hsource, htarget⟩, hparent, hname, houtside, hdisplaced⟩ := h
  set source : EdgeKey := ⟨sourceParent, sourceName⟩ with hsourceKey
  set target : EdgeKey := ⟨parent, name⟩ with htargetKey
  have hlinks : ∀ k : EdgeKey, (onLinks (.renamed object sourceParent sourceName parent name time)
      s.links)[k]? = if target = k then some object else if source = k then none else s.links[k]? := by
    intro k
    rw [onLinks, Table.getElem?_upsert, Table.getElem?_delete]
  have hroot : object ≠ s.root := fun hroot => hs.root_unlinked source (hroot ▸ hsource)
  -- A link of the new namespace is the moved one or an old one.
  have hcases : ∀ {k : EdgeKey} {o : ObjectId},
      (onLinks (.renamed object sourceParent sourceName parent name time) s.links)[k]? = some o →
      (target = k ∧ object = o) ∨ (target ≠ k ∧ source ≠ k ∧ s.links[k]? = some o) := by
    intro k o hk
    rw [hlinks] at hk
    split_ifs at hk with h1 h2
    · exact .inl ⟨h1, Option.some.inj hk⟩
    · exact .inr ⟨h1, h2, hk⟩
  -- Directories that hold a name after the move, or are the target's parent, keep a name themselves.
  have hkeeps : ∀ d, s.Dir d → (∃ n, d = parent ∨ s.links[(⟨d, n⟩ : EdgeKey)]? ≠ none) →
      (s.after (.renamed object sourceParent sourceName parent name time)).Dir d := by
    rintro d ⟨hkind, hlinked⟩ ⟨n, hd⟩
    refine ⟨hkind, hlinked.imp id ?_⟩
    rintro ⟨k, hk⟩
    by_cases hks : source = k
    · refine ⟨target, ?_⟩
      rw [← hks, hsource] at hk
      show (onLinks _ s.links)[target]? = _
      rw [hlinks, if_pos rfl, hk]
    · refine ⟨k, ?_⟩
      have hkt : target ≠ k := by
        rintro rfl
        have hempty := hdisplaced d hk hkind
        rcases hd with rfl | hd
        · have := hempty name
          rw [hk] at this
          cases this
        · exact hd (hempty n)
      show (onLinks _ s.links)[k]? = _
      rw [hlinks, if_neg hkt, if_neg hks, hk]
  refine ⟨hs.root_kind, fun k hk => ?_, hs.native, fun k o hk => ?_, fun k o hk => ?_,
    fun k o hk => ?_, fun k k' d hd hk hk' => ?_, ?_⟩
  · obtain ⟨-, ho⟩ | ⟨-, -, hk⟩ := hcases hk
    · exact hroot ho
    · exact hs.root_unlinked k hk
  · obtain ⟨-, rfl⟩ | ⟨-, -, hk⟩ := hcases hk
    · exact hs.linked_kind source _ hsource
    · exact hs.linked_kind k o hk
  · obtain ⟨rfl, -⟩ | ⟨-, -, hk⟩ := hcases hk
    · exact hname
    · exact hs.plain k o hk
  · obtain ⟨rfl, -⟩ | ⟨-, -, hk⟩ := hcases hk
    · exact hkeeps parent hparent ⟨name, .inl rfl⟩
    · exact hkeeps k.parent (hs.parent_dir k o hk) ⟨k.name, .inr (by rw [hk]; simp)⟩
  · obtain ⟨rfl, rfl⟩ | ⟨hkt, hks, hk⟩ := hcases hk <;>
      obtain ⟨rfl, ho⟩ | ⟨hkt', hks', hk'⟩ := hcases hk'
    · rfl
    · exact absurd (hs.dir_link _ _ _ hd hsource hk') hks'
    · subst ho
      exact absurd (hs.dir_link _ _ _ hd hsource hk) hks
    · exact hs.dir_link k k' d hd hk hk'
  · obtain ⟨rank, hrank⟩ := hs.ranked
    -- The moved subtree is lifted above the directory it moves into.
    classical
    refine ⟨fun d => if ∃ names, walkFrom s.links object names = some d then
      rank d + rank parent + 1 else rank d, fun k d hk hd => ?_⟩
    dsimp only
    obtain ⟨rfl, rfl⟩ | ⟨hkt, hks, hk⟩ := hcases hk
    · rw [if_neg (not_exists.2 houtside), if_pos ⟨[], rfl⟩]
      show rank parent < _
      omega
    · have hlt := hrank k d hk hd
      by_cases hbelow : ∃ names, walkFrom s.links object names = some d
      · -- The last name of the walk is the directory's only link.
        obtain ⟨names, hnames⟩ := hbelow
        have hup : ∃ names, walkFrom s.links object names = some k.parent := by
          rcases List.eq_nil_or_concat names with rfl | ⟨rest, n, rfl⟩
          · cases hnames
            exact absurd (hs.dir_link _ _ _ hd hsource hk) hks
          · rw [List.concat_eq_append, walkFrom_concat, Option.bind_eq_some_iff] at hnames
            obtain ⟨p, hp, hlink⟩ := hnames
            rw [← hs.dir_link _ _ _ hd hlink hk]
            exact ⟨rest, hp⟩
        rw [if_pos hup, if_pos ⟨names, hnames⟩]
        omega
      · split_ifs with hup
        · obtain ⟨names, hnames⟩ := hup
          refine absurd ⟨names ++ [k.name], ?_⟩ hbelow
          rw [walkFrom_concat, hnames]
          exact hk
        · exact hlt

/-- **POSIX operations keep a filesystem well-formed.** -/
theorem WF.after (hs : s.WF) {r : Change} (h : s.Allows r) : (s.after r).WF := by
  cases r with
  | created => exact wf_after_created hs h
  | hardlinked => exact wf_after_hardlinked hs h
  | removed => exact wf_after_removed hs h
  | renamed => exact wf_after_renamed hs h
  | metadataChanged | contentChanged => exact hs
  | backend => exact h.elim

theorem WF.stateAfter (hs : s.WF) {history : List Change} (h : s.AllowsAll history) (i : ℕ) :
    (s.stateAfter history i).WF := by
  induction i with
  | zero => exact hs
  | succ i ih =>
    cases hr : history[i]? with
    | none =>
      rw [FsState.stateAfter, List.take_add_one, hr]
      simpa [FsState.stateAfter] using ih
    | some r =>
      rw [stateAfter_succ hr]
      exact ih.after (h i r hr)

end Robinhood.JuiceFs.FsState
