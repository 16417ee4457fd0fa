/-
# Ingest.Change — the backend-neutral change stream (`rbh-change-source/src/lib.rs`)
-/
import Mathlib
import Robinhood.Store.Types

namespace Robinhood.Ingest

open Posix Store

/-- `CreatedMetadata`: what a CREATE record itself carries. -/
structure CreatedMetadata where
  uid : UInt32
  gid : UInt32
  mode : UInt32
deriving DecidableEq, Repr

/-- `MetadataChangeKind`. -/
inductive MetadataChangeKind where
  | attributes
  | xattr
deriving DecidableEq, Repr

/-- `ContentChangeKind`. -/
inductive ContentChangeKind where
  | data
  | truncate
deriving DecidableEq, Repr

/-- `BackendChange`. -/
inductive BackendChange where
  | lustreHsm (object : ObjectId) (event flags error : UInt8) (time : Int)
  | lustreLayout (object : ObjectId) (time : Int)
deriving DecidableEq, Repr

/-- **One change** of a filesystem, as ingest receives it. -/
inductive Change where
  | created (object parent : ObjectId) (name : Name) (kind : EntryKind)
      (metadata : Option CreatedMetadata) (time : Int)
  | hardlinked (object parent : ObjectId) (name : Name) (time : Int)
  | removed (object parent : ObjectId) (name : Name) (lastLink directory : Bool) (time : Int)
  | renamed (object sourceParent : ObjectId) (sourceName : Name) (parent : ObjectId) (name : Name)
      (time : Int)
  | metadataChanged (object : ObjectId) (kind : MetadataChangeKind) (time : Int)
  | contentChanged (object : ObjectId) (parent : Option ObjectId) (name : Name)
      (kind : ContentChangeKind) (time : Int)
  | backend (change : BackendChange)
deriving DecidableEq, Repr

namespace Change

/-- `change_object`. -/
def object : Change → ObjectId
  | created object .. | hardlinked object .. | removed object .. | renamed object ..
  | metadataChanged object .. | contentChanged object .. => object
  | backend (.lustreHsm object ..) | backend (.lustreLayout object ..) => object

/-- `Change::time`. -/
def time : Change → Int
  | created _ _ _ _ _ time | hardlinked _ _ _ time | removed _ _ _ _ _ time
  | renamed _ _ _ _ _ time | metadataChanged _ _ time | contentChanged _ _ _ _ time => time
  | backend (.lustreHsm _ _ _ _ time) | backend (.lustreLayout _ time) => time

end Change

end Robinhood.Ingest
