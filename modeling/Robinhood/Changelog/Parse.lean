/-
# Changelog.Parse — from a raw record to an event

`lustre-changelog/src/parse.rs`: the record types that the reader knows, the fields it takes from a record,
and `parse_event`.  Types that carry no news for the catalog, and types it does not know, give no event; a
rename without its source is an error.
-/
import Mathlib
import Robinhood.Changelog.Event
import Robinhood.Scan.Posix

namespace Robinhood.Changelog

open Posix (Name)
open Store (LuFid)

/-- **`ChangelogEventType`.** -/
inductive ChangelogEventType where
  | mark | create | mkdir | hardlink | softlink | mknod | unlink | rmdir | rename | renameTo | opened
  | close | layout | truncate | setAttr | xAttr | hsm | mTime | cTime | aTime | migrate | flrWrite
  | resync | getXattr | noOpen
  | unknown (raw : UInt32)
deriving DecidableEq, Repr

/-- **`RawRec`**: what `parse_event` asks a record for. -/
structure RawRec where
  eventType : ChangelogEventType
  index : UInt64
  /-- seconds and nanoseconds, packed -/
  time : UInt64
  targetFid : LuFid
  parentFid : LuFid
  name : Name
  sourceName : Option Name
  renameSourceFid : Option LuFid
  renameSourceParentFid : Option LuFid
  uid : Option UInt32
  gid : Option UInt32
  jobid : Option (List UInt8)
  flags : UInt16
deriving DecidableEq, Repr

/-- `ChangelogError::Parse`. -/
inductive ChangelogError where
  | parse (index : UInt64) (reason : String)
deriving DecidableEq, Repr

/-- `CLF_FLAGMASK`: the bits of the flags that belong to the type. -/
def clfFlagmask : UInt16 := 0x0FFF

/-- `CLF_UNLINK_LAST`. -/
def clfUnlinkLast : UInt16 := 0x0001

/-- `CLF_UNLINK_HSM_EXISTS`. -/
def clfUnlinkHsmExists : UInt16 := 0x0002

/-- `String::from_utf8_lossy` as a string. -/
def lossyText (bytes : List UInt8) : String :=
  (String.fromUTF8? ⟨(Scan.toStringLossy bytes).toArray⟩).getD ""

def jobidOf (rec : RawRec) : Option String :=
  rec.jobid.bind fun bytes => if bytes = [] then none else some (lossyText bytes)

def renameSource (rec : RawRec) : Except ChangelogError (LuFid × Name) := do
  let srcParent ← match rec.renameSourceParentFid with
    | some fid => .ok fid
    | none => .error (.parse rec.index "rename missing source parent FID")
  match rec.sourceName with
  | some srcName => .ok (srcParent, srcName)
  | none => .error (.parse rec.index "rename missing source name")

def eventOf (rec : RawRec) : Except ChangelogError (Option ChangelogEvent) :=
  let fid := rec.targetFid
  let parent := rec.parentFid
  let typeFlags := rec.flags &&& clfFlagmask
  match rec.eventType with
  | .create => .ok (some (.create fid parent rec.name (jobidOf rec) rec.uid rec.gid))
  | .mkdir => .ok (some (.mkdir fid parent rec.name (jobidOf rec) rec.uid rec.gid))
  | .mknod => .ok (some (.mknod fid parent rec.name (jobidOf rec) rec.uid rec.gid))
  | .hardlink => .ok (some (.hardlink fid parent rec.name))
  | .softlink => .ok (some (.softlink fid parent rec.name))
  | .unlink => .ok (some (.unlink fid parent rec.name (typeFlags &&& clfUnlinkLast != 0)
      (typeFlags &&& clfUnlinkHsmExists != 0)))
  | .rmdir => .ok (some (.rmdir fid parent rec.name))
  | .rename | .renameTo => do
    let (srcParent, srcName) ← renameSource rec
    -- the FID of the object is in the extension; the target of the record is zero
    .ok (some (.rename (rec.renameSourceFid.getD fid) parent rec.name srcParent srcName))
  | .close => .ok (some (.close fid parent rec.name))
  | .truncate => .ok (some (.truncate fid))
  | .setAttr => .ok (some (.setAttr fid))
  | .mTime => .ok (some (.mTime fid))
  | .cTime => .ok (some (.cTime fid))
  | .xAttr => .ok (some (.xAttr fid rec.name))
  | .layout => .ok (some (.layout fid))
  | .hsm => .ok (some (.hsm fid ((typeFlags >>> 7) &&& 0x0007).toUInt8 ((typeFlags >>> 10) &&& 0x0003).toUInt8
      (typeFlags &&& 0x007F).toUInt8))
  | .mark | .opened | .noOpen | .aTime | .migrate | .flrWrite | .resync | .getXattr | .unknown _ => .ok none

/-- **`parse_event`.** -/
def parseEvent (mdt : String) (rec : RawRec) : Except ChangelogError (Option ChangelogEventEnvelope) := do
  let event ← eventOf rec
  .ok (event.map fun event => ⟨mdt, rec.index, (rec.time >>> 30).toNat, event⟩)

theorem parseEvent_index {mdt : String} {rec : RawRec} {env : ChangelogEventEnvelope}
    (h : parseEvent mdt rec = .ok (some env)) : env.index = rec.index := by
  unfold parseEvent at h
  cases hevent : eventOf rec with
  | error e => simp [hevent, bind, Except.bind] at h
  | ok event =>
    simp only [hevent, bind, Except.bind, Except.ok.injEq, Option.map_eq_some_iff] at h
    obtain ⟨_, -, rfl⟩ := h
    rfl

end Robinhood.Changelog
