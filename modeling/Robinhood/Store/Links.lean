/-
# Store.Links — link counts

`apply_scoped_hardlink` and `apply_scoped_unlink` keep two records of the links of an object, its edges and
the `nlink` of its row.  `Exact` says that they agree and that the row is there as long as an edge is; both
calls keep it, whatever names they are given and however often they are repeated.
-/
import Mathlib
import Robinhood.Store.Lustre

namespace Robinhood.Store

open Lib Posix

variable {c : Catalog} {object : ObjectId}

/-! ## §1 — Edges of an object -/

/-- Setting an edge that is free or already leads to `object` keeps every other object's edges. -/
theorem child_putEdge_eq_some_iff {key k : EdgeKey} {o : ObjectId} (ho : o ≠ object)
    (hkey : c.child key = none ∨ c.child key = some object) :
    (c.putEdge key object).child k = some o ↔ c.child k = some o := by
  rw [Catalog.child_putEdge]
  split_ifs with hk
  · subst hk
    rcases hkey with hkey | hkey <;> simp [hkey, ho.symm]
  · rfl

/-- A new edge of `object` is one more of its edges. -/
theorem length_objectEdges_putEdge {key : EdgeKey} (h : c.child key = none) :
    ((c.putEdge key object).objectEdges object).length = (c.objectEdges object).length + 1 := by
  refine Catalog.length_objectEdges_add_one (by rw [h]; simp) fun k => ?_
  rw [Catalog.child_putEdge]
  split_ifs with hk
  · simp [hk]
  · simp [Ne.symm hk]

/-- Dropping an edge of `object` takes one of its edges and no other object's. -/
theorem length_objectEdges_dropEdge {key : EdgeKey} (h : c.child key = some object) :
    (c.objectEdges object).length = ((c.dropEdge key).objectEdges object).length + 1 := by
  have hkey : (c.dropEdge key).child key ≠ some object := by simp
  refine Catalog.length_objectEdges_add_one hkey fun k => ?_
  rw [Catalog.child_dropEdge]
  split_ifs with hk
  · simp [← hk, h]
  · simp [Ne.symm hk]

theorem child_dropEdge_eq_some_iff {key k : EdgeKey} {o : ObjectId} (ho : o ≠ object)
    (hkey : c.child key = none ∨ c.child key = some object) :
    (c.dropEdge key).child k = some o ↔ c.child k = some o := by
  rw [Catalog.child_dropEdge]
  split_ifs with hk
  · subst hk
    rcases hkey with hkey | hkey <;> simp [hkey, ho.symm]
  · rfl

theorem toNat_saturatingSucc {n : UInt32} (h : n.toNat + 1 < 2 ^ 32) :
    (saturatingSucc n).toNat = n.toNat + 1 := by
  have hne : n ≠ 4294967295 := by
    rintro rfl
    simp at h
  rw [saturatingSucc, if_neg hne, UInt32.toNat_add]
  simp only [UInt32.toNat_one]
  omega

/-! ## §2 — Calls for one object -/

/-- A call of `apply_scoped_hardlink` or, with the directory flag off, of `apply_scoped_unlink`. -/
inductive LinkCall where
  | hardlink (parent : ObjectId) (name : Name) (observedAt : Int)
  | unlink (parent : ObjectId) (name : Name) (observedAt : Int)

/-- The catalog after a call for the object `key`; a call that fails is rolled back. -/
def LinkCall.after (key : EntryKey) (c : Catalog) : LinkCall → Catalog
  | hardlink parent name observedAt =>
    ((applyScopedHardlink ⟨key.filesystem, parent, name, key.object⟩ observedAt).run c).2
  | unlink parent name observedAt => ((applyScopedUnlink key parent name observedAt false).run c).2

/-- **The count is exact**: the row is there as long as an edge is, and counts the edges. -/
def Exact (c : Catalog) (object : ObjectId) : Prop :=
  match c.row object with
  | some entry => entry.nlink.toNat = (c.objectEdges object).length ∧ 0 < (c.objectEdges object).length
  | none => (c.objectEdges object).length = 0

def OthersKept (object : ObjectId) (c d : Catalog) : Prop :=
  ∀ other, other ≠ object → ∀ k, d.child k = some other ↔ c.child k = some other

variable {key : EntryKey}

theorem Exact.putRow {entry : ScopedEntryRow} (hcount : entry.nlink.toNat = (c.objectEdges object).length)
    (hpos : 0 < (c.objectEdges object).length) : Exact (c.putRow object entry) object := by
  rw [Exact, Catalog.row_putRow, if_pos rfl]
  exact ⟨hcount, hpos⟩

/-- **One call** keeps the count exact, with fewer than 2³² links after it, and the edges of the other
objects. -/
theorem Exact.after (h : Exact c key.object) (call : LinkCall)
    (hlinks : ((call.after key c).objectEdges key.object).length < 2 ^ 32) :
    Exact (call.after key c) key.object ∧ OthersKept key.object c (call.after key c) := by
  have hsame : Exact c key.object ∧ OthersKept key.object c c := ⟨h, fun _ _ _ => .rfl⟩
  cases call with
  | hardlink parent name observedAt =>
    rw [LinkCall.after, applyScopedHardlink, Proc.run_txn] at hlinks ⊢
    cases hrun : applyScopedHardlinkTx ⟨key.filesystem, parent, name, key.object⟩ observedAt c with
    | error => exact hsame
    | ok d =>
      rw [hrun] at hlinks
      obtain ⟨-, rfl⟩ | ⟨hfree, entry, hrow, rfl⟩ := applyScopedHardlinkTx_ok hrun
      · exact hsame
      · refine ⟨?_, fun other hother k => child_putEdge_eq_some_iff hother (.inl hfree)⟩
        have hedges := @length_objectEdges_putEdge c key.object _ hfree
        change ((c.putEdge _ key.object).objectEdges key.object).length < _ at hlinks
        rw [Exact, hrow] at h
        refine Exact.putRow ?_ (hedges ▸ Nat.succ_pos _)
        rw [toNat_saturatingSucc (by omega), h.1, hedges]
  | unlink parent name observedAt =>
    change Exact (applyScopedUnlinkTx key parent name observedAt false c) key.object ∧
      OthersKept key.object c (applyScopedUnlinkTx key parent name observedAt false c)
    by_cases hchild : c.child ⟨parent, name⟩ = some key.object
    swap
    · rwa [applyScopedUnlinkTx_of_ne hchild]
    have hedges := length_objectEdges_dropEdge hchild
    have hothers : ∀ other, other ≠ key.object → ∀ k,
        (c.dropEdge ⟨parent, name⟩).child k = some other ↔ c.child k = some other :=
      fun other hother k => child_dropEdge_eq_some_iff hother (.inr hchild)
    rw [Exact] at h
    cases hrow : c.row key.object with
    | none =>
      rw [hrow] at h
      omega
    | some entry =>
      rw [hrow] at h
      by_cases hmany : 1 < entry.nlink
      · rw [applyScopedUnlinkTx_of_many hchild hrow rfl hmany]
        have hone : 1 < entry.nlink.toNat := UInt32.lt_iff_toNat_lt.1 hmany
        refine ⟨Exact.putRow ?_ (by omega), hothers⟩
        rw [UInt32.toNat_sub_of_le _ _ (UInt32.le_of_lt hmany), UInt32.toNat_one]
        omega
      · rw [applyScopedUnlinkTx_of_last hchild hrow (.inr hmany)]
        have hone : entry.nlink.toNat ≤ 1 := by simpa using mt UInt32.lt_iff_toNat_lt.2 hmany
        refine ⟨?_, hothers⟩
        rw [Exact, Catalog.row_dropRow, if_pos rfl]
        change ((c.dropEdge _).objectEdges key.object).length = 0
        omega

/-- **Link counting is exact.**  From a catalog where the row of an object counts its edges, of which there
is one at least, and along calls that never leave 2³² links or more: while the row is there it counts the
edges, it is gone exactly when no edge is left, and no edge of another object has changed. -/
theorem links_counted {entry : ScopedEntryRow} (hrow : c.row key.object = some entry)
    (hcount : entry.nlink.toNat = (c.objectEdges key.object).length)
    (hpos : 0 < (c.objectEdges key.object).length) (calls : List LinkCall)
    (hlinks : ∀ n, (((calls.take n).foldl (LinkCall.after key) c).objectEdges key.object).length < 2 ^ 32) :
    let d := calls.foldl (LinkCall.after key) c
    (∀ e, d.row key.object = some e → e.nlink.toNat = (d.objectEdges key.object).length) ∧
    (d.row key.object = none ↔ d.objectEdges key.object = []) ∧
    ∀ other, other ≠ key.object → ∀ k, d.child k = some other ↔ c.child k = some other := by
  intro d
  have hrun : ∀ (calls : List LinkCall) (c : Catalog), Exact c key.object →
      (∀ n, (((calls.take n).foldl (LinkCall.after key) c).objectEdges key.object).length < 2 ^ 32) →
      Exact (calls.foldl (LinkCall.after key) c) key.object ∧
        OthersKept key.object c (calls.foldl (LinkCall.after key) c) := by
    intro calls
    induction calls with
    | nil => exact fun c h _ => ⟨h, fun _ _ _ => .rfl⟩
    | cons call calls ih =>
      intro c h hlinks
      obtain ⟨hexact, hkept⟩ := h.after call (hlinks 1)
      obtain ⟨hexact', hkept'⟩ := ih _ hexact fun n => hlinks (n + 1)
      exact ⟨hexact', fun other hother k => (hkept' other hother k).trans (hkept other hother k)⟩
  have hexact : Exact c key.object := by
    rw [Exact, hrow]
    exact ⟨hcount, hpos⟩
  obtain ⟨hexact, hkept⟩ := hrun calls c hexact hlinks
  rw [Exact] at hexact
  refine ⟨fun e he => ?_, ?_, hkept⟩
  · rw [he] at hexact
    exact hexact.1
  · cases hd : d.row key.object with
    | none =>
      rw [hd] at hexact
      exact ⟨fun _ => List.length_eq_zero_iff.1 hexact, fun _ => rfl⟩
    | some e =>
      rw [hd] at hexact
      exact ⟨nofun, fun hnil => absurd (List.length_eq_zero_iff.2 hnil) hexact.2.ne'⟩

namespace Sample

/-- The directory 1 holds the file 2 under the name `a`. -/
def oneLink : Catalog :=
  (empty.putRow (.lustre ⟨1, 2, 0⟩) (.fromLustre lustre (file 2 [97]))).putEdge
    ⟨.lustre ⟨1, 1, 0⟩, [97]⟩ (.lustre ⟨1, 2, 0⟩)

/-- A second name `b`, reported twice, and both names removed. -/
def linkCalls : List LinkCall :=
  [.hardlink (.lustre ⟨1, 1, 0⟩) [98] 1, .hardlink (.lustre ⟨1, 1, 0⟩) [98] 1,
    .unlink (.lustre ⟨1, 1, 0⟩) [97] 2, .unlink (.lustre ⟨1, 1, 0⟩) [98] 3]

/-- The file is gone once both of its names are. -/
theorem file_gone_after_unlinks : oneLink.objectEdges (.lustre ⟨1, 2, 0⟩) = [⟨.lustre ⟨1, 1, 0⟩, [97]⟩] ∧
    (linkCalls.foldl (LinkCall.after ⟨lustre, .lustre ⟨1, 2, 0⟩⟩) oneLink).row (.lustre ⟨1, 2, 0⟩) = none := by
  refine ⟨by decide +kernel, ?_⟩
  have hlinks : ∀ n, (((linkCalls.take n).foldl (LinkCall.after ⟨lustre, .lustre ⟨1, 2, 0⟩⟩) oneLink).objectEdges
      (.lustre ⟨1, 2, 0⟩)).length < 2 ^ 32 := by
    intro n
    match n with
    | 0 | 1 | 2 | 3 => decide +kernel
    | n + 4 =>
      rw [List.take_of_length_le (show linkCalls.length ≤ n + 4 from Nat.le_add_left 4 n)]
      decide +kernel
  have hrow : oneLink.row (.lustre ⟨1, 2, 0⟩) = some (.fromLustre lustre (file 2 [97])) := by decide +kernel
  exact (@links_counted oneLink ⟨lustre, .lustre ⟨1, 2, 0⟩⟩ _ hrow (by decide +kernel) (by decide +kernel) linkCalls
    hlinks).2.1.2 (by decide +kernel)

end Sample

end Robinhood.Store
