/-
# Changelog.Event — the records of a Lustre changelog

`lustre-changelog/src/event.rs`: one constructor for each kind of record the reader hands on, and the
envelope that carries its place in the stream of one MDT.
-/
import Mathlib
import Robinhood.Store.Types

namespace Robinhood.Changelog

open Posix (Name)
open Store (LuFid)

/-- **`ChangelogEvent`.** -/
inductive ChangelogEvent where
  | create (fid parent : LuFid) (name : Name) (jobid : Option String) (uid gid : Option UInt32)
  | mkdir (fid parent : LuFid) (name : Name) (jobid : Option String) (uid gid : Option UInt32)
  | mknod (fid parent : LuFid) (name : Name) (jobid : Option String) (uid gid : Option UInt32)
  | hardlink (fid parent : LuFid) (name : Name)
  | softlink (fid parent : LuFid) (name : Name)
  | unlink (fid parent : LuFid) (name : Name) (lastLink hsmExists : Bool)
  | rmdir (fid parent : LuFid) (name : Name)
  | rename (fid parent : LuFid) (name : Name) (srcParent : LuFid) (srcName : Name)
  | close (fid parent : LuFid) (name : Name)
  | truncate (fid : LuFid)
  | setAttr (fid : LuFid)
  | mTime (fid : LuFid)
  | cTime (fid : LuFid)
  | xAttr (fid : LuFid) (xattrName : Name)
  | layout (fid : LuFid)
  | hsm (fid : LuFid) (hsmEvent hsmFlags hsmError : UInt8)
deriving DecidableEq, Repr

/-- The answers of `kind_name`. -/
inductive EventKind where
  | creat | mkdir | mknod | hlink | slink | unlnk | rmdir | renme | close | trunc | sattr | mtime
  | ctime | xattr | lyout | hsm
deriving DecidableEq, Repr

namespace ChangelogEvent

/-- `ChangelogEvent::fid`. -/
def fid : ChangelogEvent → LuFid
  | create fid .. | mkdir fid .. | mknod fid .. | hardlink fid .. | softlink fid .. | unlink fid ..
  | rmdir fid .. | rename fid .. | close fid .. | truncate fid | setAttr fid | mTime fid | cTime fid
  | xAttr fid _ | layout fid | hsm fid .. => fid

/-- `ChangelogEvent::kind_name`. -/
def kindName : ChangelogEvent → EventKind
  | create .. => .creat
  | mkdir .. => .mkdir
  | mknod .. => .mknod
  | hardlink .. => .hlink
  | softlink .. => .slink
  | unlink .. => .unlnk
  | rmdir .. => .rmdir
  | rename .. => .renme
  | close .. => .close
  | truncate _ => .trunc
  | setAttr _ => .sattr
  | mTime _ => .mtime
  | cTime _ => .ctime
  | xAttr .. => .xattr
  | layout _ => .lyout
  | hsm .. => .hsm

end ChangelogEvent

/-- **`ChangelogEventEnvelope`.** -/
structure ChangelogEventEnvelope where
  mdt : String
  index : UInt64
  time : Int
  event : ChangelogEvent
deriving DecidableEq, Repr

end Robinhood.Changelog
