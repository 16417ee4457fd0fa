/-
# JuiceFs.Replay — a fuzzy baseline is repaired by the changelog

The baseline scan reads each name of the mount at its own instant, so the edges it stores are those of
no single version.  Applying the changelog from a version before all of these instants repairs them.
What a record does to the edges is one function, `replayLinks`; per name it satisfies the two conditions
of `Lib.fuzzy_replay`.
-/
import Mathlib
import Robinhood.Ingest.JuiceFs
import Robinhood.JuiceFs.Live
import Robinhood.Lib.FuzzyReplay
import Robinhood.Scan.JuiceFs

namespace Robinhood.JuiceFs

open Lib Posix Store Ingest Scan

variable {filesystem : FileSystemId} {mount : Path} {live : Mount} {c c' : Catalog}

/-! ## §1 — What an accepted record does to the edges -/

/-- The edges after an accepted record.  It differs from `onLinks` in one place: an unlink leaves a name
alone that leads to another object. -/
def replayLinks : Change → Links → Links
  | .removed object parent name lastLink directory time, links =>
    if links[(⟨parent, name⟩ : EdgeKey)]? = some object then
      onLinks (.removed object parent name lastLink directory time) links
    else links
  | r, links => onLinks r links

theorem edges_applyScopedUnlinkTx (key : EntryKey) (parent : ObjectId) (name : Name) (time : Int)
    (directory : Bool) :
    (applyScopedUnlinkTx key parent name time directory c).edges =
      if c.child ⟨parent, name⟩ = some key.object then c.edges.erase ⟨parent, name⟩ else c.edges := by
  rw [applyScopedUnlinkTx]
  split_ifs with h
  · dsimp only
    split
    · rfl
    · split <;> rfl
  · rfl

theorem edges_applyScopedHardlinkTx {edge : ScopedNamespaceEdge} {time : Int}
    (h : applyScopedHardlinkTx edge time c = .ok c') :
    c'.edges = c.edges.insert edge.edgeKey edge.object := by
  rw [applyScopedHardlinkTx] at h
  split at h
  · next object hchild =>
    split_ifs at h with hobject
    · cases h
      exact (Table.upsert_eq_self (hobject ▸ hchild)).symm
  · split at h
    · cases h
    · cases h
      rfl

/-- **The edges after an accepted record** depend on the edges before it only. -/
theorem edges_of_applied {r : Change}
    (h : (applyJuicefsChange filesystem mount live r).run c = (.ok (), c')) :
    c'.edges = replayLinks r c.edges := by
  cases r with
  | created =>
    obtain ⟨row, -, -, rfl⟩ := run_applyCreated_ok.1 h
    rfl
  | hardlinked =>
    exact edges_applyScopedHardlinkTx (run_hardlinked_ok.1 h)
  | removed =>
    rw [applyJuicefsChange, run_removed] at h
    cases h
    exact edges_applyScopedUnlinkTx ..
  | renamed =>
    obtain ⟨entry, -, -, -, rfl⟩ := run_applyRenamed_ok.1 h
    rfl
  | metadataChanged | contentChanged =>
    obtain ⟨entry, row, -, -, -, -, rfl⟩ := run_applyRefreshed_ok.1 h
    rfl
  | backend => cases h

/-! ## §2 — Replaying over a name -/

theorem replayLinks_agree {links edges : Links} {r : Change} (hr : Enabled links r) (k : EdgeKey)
    (h : edges[k]? = links[k]?) : (replayLinks r edges)[k]? = (onLinks r links)[k]? := by
  cases r with
  | removed =>
    simp only [replayLinks, onLinks]
    split_ifs with hobject
    · simp only [Table.getElem?_delete, h]
    · rw [Table.getElem?_delete]
      split_ifs with hk
      · subst hk
        exact absurd (h.trans hr) hobject
      · exact h
  | created | hardlinked | renamed => simp only [replayLinks, onLinks, Table.getElem?_upsert,
      Table.getElem?_delete, h]
  | metadataChanged | contentChanged | backend => exact h

theorem replayLinks_sets (links edges : Links) (r : Change) (k : EdgeKey) :
    (replayLinks r edges)[k]? = (onLinks r links)[k]? ∨ (replayLinks r edges)[k]? = edges[k]? := by
  cases r with
  | removed =>
    simp only [replayLinks, onLinks]
    split_ifs with hobject
    · simp only [Table.getElem?_delete]
      split_ifs <;> simp
    · exact .inr rfl
  | created object parent name | hardlinked object parent name =>
    simp only [replayLinks, onLinks, Table.getElem?_upsert]
    split_ifs <;> simp
  | renamed =>
    simp only [replayLinks, onLinks, Table.getElem?_upsert, Table.getElem?_delete]
    split_ifs <;> simp
  | metadataChanged | contentChanged | backend => exact .inr rfl

/-! ## §3 — Convergence -/

/-- **The edges of an accepted baseline** are those of the walk; nothing older is left. -/
theorem child_runJuicefsBaseline {events : List PosixWalkEvent} {errors : ℕ} {observedAt now : Int}
    (h : (runJuicefsBaseline filesystem events errors observedAt now).run c = (.ok (), c'))
    (k : EdgeKey) : c'.child k = scannedChild (walkedEntries events) k := by
  rw [run_runJuicefsBaseline_ok h]
  refine (child_foldl_withWalked ..).trans ?_
  exact Option.or_none ..

/-- **A replay** of the records `j+1, …, n` of a history: the catalog before each of them, the instant
of the mount it was applied at, and that it was accepted. -/
structure ReplayRun (filesystem : FileSystemId) (mount : Path) (history : List Change) (j n : ℕ) where
  catalog : ℕ → Catalog
  live : ℕ → Mount
  applied : ∀ i r, j ≤ i → i < n → history[i]? = some r →
    (applyJuicefsChange filesystem mount (live i) r).run (catalog i) = (.ok (), catalog (i + 1))

def replayCatalog (filesystem : FileSystemId) (mount : Path) (live : ℕ → Mount)
    (history : List Change) (c : Catalog) : ℕ → Catalog
  | 0 => c
  | i + 1 =>
    let c := replayCatalog filesystem mount live history c i
    match history[i]? with
    | some r => ((applyJuicefsChange filesystem mount (live i) r).run c).2
    | none => c

/-- The replay of the first `n` records of a history, when all of them are accepted. -/
def ReplayRun.ofAccepted {history : List Change} {n : ℕ} (live : ℕ → Mount) (c : Catalog)
    (h : ∀ i r, i < n → history[i]? = some r →
      ((applyJuicefsChange filesystem mount (live i) r).run
        (replayCatalog filesystem mount live history c i)).1 = .ok ()) :
    ReplayRun filesystem mount history 0 n where
  catalog := replayCatalog filesystem mount live history c
  live := live
  applied i r _ hi hr := by
    refine Prod.ext (h i r hi hr) ?_
    rw [replayCatalog, hr]

/-- **Fuzzy baseline plus replay converges.**  If every name was scanned at an instant between `j` and
`n`, then after the accepted records `j+1, …, n` the edges are the namespace after record `n`. -/
theorem edges_after_baseline_and_replay {init : Links} {history : List Change} {j n : ℕ}
    {events : List PosixWalkEvent} {errors : ℕ} {observedAt now : Int} {seenAt : EdgeKey → ℕ}
    {before : Catalog} (legal : Legal init history) (hn : n ≤ history.length)
    (hseen : ∀ k, j ≤ seenAt k ∧ seenAt k ≤ n)
    (scanned : ∀ k, scannedChild (walkedEntries events) k = (linksAfter init history (seenAt k))[k]?)
    (run : ReplayRun filesystem mount history j n)
    (baseline : (runJuicefsBaseline filesystem events errors observedAt now).run before =
      (.ok (), run.catalog j)) :
    (run.catalog n).edges = linksAfter init history n := by
  refine Std.ExtTreeMap.ext_getElem? fun k => ?_
  obtain ⟨hj, ht⟩ := hseen k
  -- One name at a time: its value in the catalog is a copy of its value in the namespace.
  refine fuzzy_replay (fun i => (linksAfter init history i)[k]?)
    (fun i => (run.catalog i).edges[k]?) hj ht ?_ ?_ ?_
  · exact (child_runJuicefsBaseline baseline k).trans (scanned k)
  · intro i hji hin hagree
    obtain ⟨r, hr⟩ : ∃ r, history[i]? = some r := ⟨_, List.getElem?_eq_getElem (by omega)⟩
    show (run.catalog (i + 1)).edges[k]? = (linksAfter init history (i + 1))[k]?
    rw [edges_of_applied (run.applied i r hji hin hr), linksAfter_succ hr]
    exact replayLinks_agree (legal i r hr) k hagree
  · intro i hji hin
    obtain ⟨r, hr⟩ : ∃ r, history[i]? = some r := ⟨_, List.getElem?_eq_getElem (by omega)⟩
    show (run.catalog (i + 1)).edges[k]? = (linksAfter init history (i + 1))[k]? ∨
      (run.catalog (i + 1)).edges[k]? = (run.catalog i).edges[k]?
    rw [edges_of_applied (run.applied i r hji hin hr), linksAfter_succ hr]
    exact replayLinks_sets ..

namespace Sample

/-- `a` and `b` are created and `a` is moved over `b`. -/
def overwrite : List Change := [create 10 a, create 11 b, move 10 a b]

def walked (inode : UInt64) (parent : Option UInt64) (name : Name) (kind : EntryKind)
    (depth : UInt32) : PosixWalkEvent :=
  .entry ⟨name, kind, inode, parent, 0, 0, 0, 0, 0, 1, 0, 0, 0, depth⟩

/-- A scan that reads `a` before the move and `b` after it: inode 10 is seen twice, 11 never. -/
def tornScan : List PosixWalkEvent :=
  [walked 1 none [] .directory 0, walked 10 (some 1) a .file 1, walked 10 (some 1) b .file 1]

def tornCatalog : Catalog := ((runJuicefsBaseline jfs tornScan 0 0 0).run registered).2

def tornReplay : ReplayRun jfs mountPath overwrite 0 3 :=
  ReplayRun.ofAccepted (fun i => (emptyFs.stateAfter overwrite (i + 1)).mountAt mountPath) tornCatalog
    (by
      intro i r hi hr
      interval_cases i <;> cases hr <;> decide +kernel)

def tornInstant (k : EdgeKey) : ℕ := if k = ⟨root, a⟩ then 1 else 3

theorem overwrite_legal : Legal ∅ overwrite := by
  intro i r hr
  match i with
  | 0 | 1 | 2 => cases hr; decide +kernel
  | i + 3 => cases hr

theorem tornScan_scanned (k : EdgeKey) :
    scannedChild (walkedEntries tornScan) k = (linksAfter ∅ overwrite (tornInstant k))[k]? := by
  by_cases ha : k = ⟨root, a⟩
  · subst ha
    decide +kernel
  · by_cases hb : k = ⟨root, b⟩
    · subst hb
      decide +kernel
    · have hlinks : linksAfter ∅ overwrite 3 = (∅ : Links).insert ⟨root, b⟩ (.juiceFs 10) := by
        decide +kernel
      have ha' : (⟨.juiceFs 1, a⟩ : EdgeKey) ≠ k := Ne.symm ha
      have hb' : (⟨.juiceFs 1, b⟩ : EdgeKey) ≠ k := Ne.symm hb
      have hscan : scannedChild (walkedEntries tornScan) k = none := by
        simp [scannedChild, walkedEntries, tornScan, walked, PosixEntry.edgeKey, ha', hb']
      rw [hscan, tornInstant, if_neg ha, hlinks, Table.getElem?_upsert, if_neg (Ne.symm hb)]
      rfl

/-- The torn scan is repaired: only `b` is left, and it leads to inode 10. -/
theorem edges_after_torn_scan :
    (tornReplay.catalog 3).edges = (∅ : Links).insert ⟨root, b⟩ (.juiceFs 10) := by
  have hseen : ∀ k, 0 ≤ tornInstant k ∧ tornInstant k ≤ 3 := by
    intro k
    rw [tornInstant]
    split_ifs <;> omega
  have hbaseline : (runJuicefsBaseline jfs tornScan 0 0 0).run registered =
      (.ok (), tornReplay.catalog 0) := Prod.ext (by decide +kernel) rfl
  rw [edges_after_baseline_and_replay overwrite_legal (by decide) hseen tornScan_scanned tornReplay
    hbaseline]
  decide +kernel

end Sample

end Robinhood.JuiceFs
