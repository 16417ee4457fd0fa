/-
# JuiceFs.History — the namespace a changelog describes

The abstract side of JuiceFS ingest: a namespace is a table of links, and a changelog record moves it.
`Enabled` says when a record can occur, `onLinks` what it did to the links.  A rename between two names
of one inode does nothing in POSIX and leaves no record, so a MOVE never targets a name that already
holds the object.
-/
import Mathlib
import Robinhood.Ingest.Change

namespace Robinhood.JuiceFs

open Lib Posix Store Ingest

/-- **A namespace**: which object each (directory, name) leads to. -/
abbrev Links := Table EdgeKey ObjectId

def onLinks : Change → Links → Links
  | .created object parent name _ _ _, links => links.insert ⟨parent, name⟩ object
  | .hardlinked object parent name _, links => links.insert ⟨parent, name⟩ object
  | .removed _ parent name _ _ _, links => links.erase ⟨parent, name⟩
  | .renamed object sourceParent sourceName parent name _, links =>
    (links.erase ⟨sourceParent, sourceName⟩).insert ⟨parent, name⟩ object
  | .metadataChanged .., links | .contentChanged .., links | .backend _, links => links

/-- When a record can occur: names are taken before they are used and used before they are freed. -/
def Enabled (links : Links) : Change → Prop
  | .created _ parent name _ _ _ | .hardlinked _ parent name _ =>
    links[(⟨parent, name⟩ : EdgeKey)]? = none
  | .removed object parent name _ _ _ => links[(⟨parent, name⟩ : EdgeKey)]? = some object
  | .renamed object sourceParent sourceName parent name _ =>
    links[(⟨sourceParent, sourceName⟩ : EdgeKey)]? = some object ∧
      links[(⟨parent, name⟩ : EdgeKey)]? ≠ some object
  | .metadataChanged .. | .contentChanged .. => True
  | .backend _ => False

instance (links : Links) (r : Change) : Decidable (Enabled links r) := by
  cases r <;> unfold Enabled <;> infer_instance

/-- The links after the first `i` records of a history. -/
def linksAfter (init : Links) (history : List Change) (i : ℕ) : Links :=
  (history.take i).foldl (fun links r => onLinks r links) init

theorem linksAfter_succ {init : Links} {history : List Change} {i : ℕ} {r : Change}
    (h : history[i]? = some r) :
    linksAfter init history (i + 1) = onLinks r (linksAfter init history i) := by
  rw [linksAfter, List.take_add_one, h, List.foldl_append]
  rfl

/-- **A legal history**: every record can occur where it stands. -/
def Legal (init : Links) (history : List Change) : Prop :=
  ∀ i r, history[i]? = some r → Enabled (linksAfter init history i) r

end Robinhood.JuiceFs
