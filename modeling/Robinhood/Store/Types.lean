/-
# Store.Types — the domain types of the entry catalog

`rbh-entry-store/src/model.rs` and the FID of `lustre-api`: identities, rows and namespace edges.  The
fixed-width integers of the source stay fixed-width; Unix times (`i64`) are integers.
-/
import Mathlib
import Robinhood.Store.Json
import Robinhood.Lib.Table
import Robinhood.Posix.Path

namespace Robinhood.Store

open Posix (Name Path)
open Std (TransOrd LawfulEqOrd)

/-! ## §1 — Identities -/

/-- The text of a filesystem identifier: one to 64 ASCII letters, digits, `-`, `_` and `.`. -/
def FileSystemId.Valid (value : String) : Prop :=
  value.toList ≠ [] ∧ value.utf8ByteSize ≤ 64 ∧
    ∀ c ∈ value.toList, c.isAlphanum ∨ c ∈ ['-', '_', '.']

instance (value : String) : Decidable (FileSystemId.Valid value) := by
  unfold FileSystemId.Valid; infer_instance

/-- **A configured filesystem's identifier**; only valid texts are identifiers. -/
structure FileSystemId where
  value : String
  valid : FileSystemId.Valid value
deriving DecidableEq

theorem FileSystemId.jfs_valid : FileSystemId.Valid "jfs" := ⟨by decide, by decide, by simp⟩

inductive BackendKind where
  | lustre
  | juiceFs
deriving DecidableEq, Repr

/-- A Lustre file identifier. -/
structure LuFid where
  seq : UInt64
  oid : UInt32
  ver : UInt32
deriving DecidableEq, Repr

/-- `LuFid::ZERO`. -/
def LuFid.zero : LuFid := ⟨0, 0, 0⟩

/-- `LuFid::is_zero`. -/
def LuFid.isZero (fid : LuFid) : Bool := fid = .zero

/-- **A backend-native object identity.** -/
inductive ObjectId where
  | lustre (fid : LuFid)
  | juiceFs (inode : UInt64)
deriving DecidableEq, Repr

/-- `ObjectId::backend`. -/
def ObjectId.backend : ObjectId → BackendKind
  | lustre _ => .lustre
  | juiceFs _ => .juiceFs

/-- The order of `encode_object_id`: the kind byte, then the sixteen big-endian bytes. -/
def ObjectId.sortKey : ObjectId → List ℕ
  | lustre fid => [0, fid.seq.toNat, fid.oid.toNat, fid.ver.toNat]
  | juiceFs inode => [1, inode.toNat]

theorem ObjectId.sortKey_injective : Function.Injective ObjectId.sortKey := by
  rintro (⟨_, _, _⟩ | _) (⟨_, _, _⟩ | _) h <;>
    simp_all [ObjectId.sortKey, UInt64.toNat_inj, UInt32.toNat_inj]

instance : Ord ObjectId := ⟨compareOn ObjectId.sortKey⟩

instance : TransOrd ObjectId := inferInstanceAs (Std.TransCmp (compareOn ObjectId.sortKey))

instance : LawfulEqOrd ObjectId where
  eq_of_compare {a b} h :=
    ObjectId.sortKey_injective (Std.LawfulEqOrd.eq_of_compare
      (show compare a.sortKey b.sortKey = .eq from h))

instance : Ord LuFid := ⟨compareOn ObjectId.lustre⟩

instance : TransOrd LuFid := inferInstanceAs (Std.TransCmp (compareOn ObjectId.lustre))

instance : LawfulEqOrd LuFid where
  eq_of_compare {a b} h :=
    ObjectId.lustre.inj (LawfulEqOrd.eq_of_compare
      (show compare (ObjectId.lustre a) (ObjectId.lustre b) = .eq from h))

structure EntryKey where
  filesystem : FileSystemId
  object : ObjectId
deriving DecidableEq

/-! ## §2 — Rows -/

/-- Entry kind, the `kind` column. -/
inductive EntryKind where
  | file
  | directory
  | symlink
  | charDevice
  | blockDevice
  | fifo
  | socket
deriving DecidableEq, Repr

/-- **One row of `scoped_entries`.** -/
structure ScopedEntryRow where
  key : EntryKey
  parent : Option EntryKey
  name : Name
  kind : EntryKind
  size : UInt64
  blocks : UInt64
  uid : UInt32
  gid : UInt32
  projid : UInt32
  mode : UInt32
  nlink : UInt32
  atime : Int
  mtime : Int
  ctime : Int
  stripeCount : Option UInt16
  stripeSize : Option UInt32
  stripeItems : List UInt32
  poolName : Option String
  smStatus : Json
  lastSeen : Int
  depth : UInt32
deriving DecidableEq

structure ScopedRemovedEntry where
  entry : ScopedEntryRow
  rmTime : Int
deriving DecidableEq

/-- `BaselineState`. -/
inductive BaselineState where
  | scanning
  | catchingUp
  | ready
  | invalid
deriving DecidableEq, Repr

/-- A row of `filesystem_baselines`. -/
structure FilesystemBaseline where
  state : BaselineState
  scanStartedAt : Option Int
  completedAt : Option Int
  lastVersion : Option UInt64
  invalidReason : Option String
deriving DecidableEq

/-- **One namespace link** of a filesystem. -/
structure ScopedNamespaceEdge where
  filesystem : FileSystemId
  parent : ObjectId
  name : Name
  object : ObjectId
deriving DecidableEq

structure EdgeKey where
  parent : ObjectId
  name : Name
deriving DecidableEq, Repr

instance : Ord EdgeKey := ⟨compareLex (compareOn EdgeKey.parent) (compareOn EdgeKey.name)⟩

instance : TransOrd EdgeKey :=
  inferInstanceAs (Std.TransCmp (compareLex (compareOn EdgeKey.parent) (compareOn EdgeKey.name)))

instance : LawfulEqOrd EdgeKey where
  eq_of_compare {a b} h := by
    obtain ⟨hparent, hname⟩ := compareLex_eq_eq.1
      (show compareLex (compareOn EdgeKey.parent) (compareOn EdgeKey.name) a b = .eq from h)
    cases a
    cases b
    exact congrArg₂ EdgeKey.mk (Std.LawfulEqOrd.eq_of_compare hparent)
      (Std.LawfulEqOrd.eq_of_compare hname)

def ScopedNamespaceEdge.edgeKey (edge : ScopedNamespaceEdge) : EdgeKey := ⟨edge.parent, edge.name⟩

end Robinhood.Store
