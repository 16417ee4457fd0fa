/-
# ChangeSource.Lustre — Lustre records as neutral changes

`normalize_lustre` (`rbh-change-source/src/lib.rs`) turns a changelog event into the change that ingest
receives.  It keeps less than the event has: a device node becomes a file, the three attribute records
become one kind, a zero parent becomes none, and the name of an extended attribute and the HSM flag of a
removal are dropped.

`LustreChangeSource` hands the events of a listener's batch out one by one, each with a checkpoint of its own,
and gives the next only when the last was committed.
-/
import Mathlib
import Robinhood.Changelog.Listener
import Robinhood.ChangeSource.Batch

namespace Robinhood.ChangeSource

open Store Ingest Changelog

/-- **`normalize_lustre`.** -/
def normalizeLustre (event : ChangelogEvent) (time : Int) : Change :=
  match event with
  | .create fid parent name .. => .created (.lustre fid) (.lustre parent) name .file none time
  | .mkdir fid parent name .. => .created (.lustre fid) (.lustre parent) name .directory none time
  | .mknod fid parent name .. => .created (.lustre fid) (.lustre parent) name .file none time
  | .softlink fid parent name => .created (.lustre fid) (.lustre parent) name .symlink none time
  | .hardlink fid parent name => .hardlinked (.lustre fid) (.lustre parent) name time
  | .unlink fid parent name lastLink _ => .removed (.lustre fid) (.lustre parent) name lastLink false time
  | .rmdir fid parent name => .removed (.lustre fid) (.lustre parent) name true true time
  | .rename fid parent name srcParent srcName =>
    .renamed (.lustre fid) (.lustre srcParent) srcName (.lustre parent) name time
  | .close fid parent name =>
    .contentChanged (.lustre fid) (if parent.isZero then none else some (.lustre parent)) name .data time
  | .truncate fid => .contentChanged (.lustre fid) none [] .truncate time
  | .setAttr fid | .mTime fid | .cTime fid => .metadataChanged (.lustre fid) .attributes time
  | .xAttr fid _ => .metadataChanged (.lustre fid) .xattr time
  | .hsm fid hsmEvent hsmFlags hsmError =>
    .backend (.lustreHsm (.lustre fid) hsmEvent hsmFlags hsmError time)
  | .layout fid => .backend (.lustreLayout (.lustre fid) time)

/-- **`LustreChangeSource`** without the channels of its handle. -/
structure LustreChangeSource where
  filesystem : FileSystemId
  pending : Option Checkpoint
  ready : List ChangeBatch

namespace LustreChangeSource

/-- `LustreChangeSource::new`. -/
def new (filesystem : FileSystemId) : LustreChangeSource := ⟨filesystem, none, []⟩

def single (filesystem : FileSystemId) (env : ChangelogEventEnvelope) : ChangeBatch where
  filesystem := filesystem
  changes := [normalizeLustre env.event env.time]
  checkpoint := ⟨env.mdt, env.index⟩

def batchesOf (filesystem : FileSystemId) (batch : EventBatch) : List ChangeBatch :=
  if batch.events = [] then [⟨filesystem, [], ⟨batch.mdt, batch.maxIndex⟩⟩]
  else batch.events.map (single filesystem)

/-- `next_batch` with a batch that is ready. -/
def handOut (self : LustreChangeSource) (batch : ChangeBatch) (rest : List ChangeBatch) :
    LustreChangeSource :=
  { self with pending := some batch.checkpoint, ready := rest }

/-- `commit` once the acknowledgement is sent. -/
def committed (self : LustreChangeSource) : LustreChangeSource := { self with pending := none }

end LustreChangeSource

end Robinhood.ChangeSource
