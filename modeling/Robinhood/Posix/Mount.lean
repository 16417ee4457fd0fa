/-
# Posix.Mount — the live filesystem as the daemon sees it

The daemon reads a mounted filesystem through `symlink_metadata`, which does not follow a final
symbolic link, and `canonicalize`, which resolves all of them; on Lustre also through the two
translations between FIDs and paths.  A `Mount` is one instant of that view; nothing is assumed of the
answers here.
-/
import Mathlib
import Robinhood.Store.Types

namespace Robinhood.Posix

open Store (EntryKind LuFid)

structure IoError where
  errno : ℕ
deriving DecidableEq, Repr

/-- `ENOENT`. -/
def IoError.notFound : IoError := ⟨2⟩

/-- The fields of `std::fs::Metadata` the daemon reads. -/
structure Metadata where
  kind : EntryKind
  ino : UInt64
  nlink : UInt64
  size : UInt64
  blocks : UInt64
  uid : UInt32
  gid : UInt32
  mode : UInt32
  atime : Int
  mtime : Int
  ctime : Int
deriving DecidableEq, Repr

/-- **One instant of a mounted filesystem.** -/
structure Mount where
  symlinkMetadata : Path → Except IoError Metadata
  canonicalize : Path → Except IoError Path
  fidToPath : LuFid → Except IoError Path
  pathToFid : Path → Except IoError LuFid

end Robinhood.Posix
