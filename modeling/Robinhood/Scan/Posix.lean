/-
# Scan.Posix — the walker

`PosixWalker::run` (`rbh-fs-scan/src/posix.rs`) walks a mounted tree with several workers that share one
queue of directories, and leaves out what the `.rbh_ignore` file at the root of the scan names
(`rbh-fs-scan/src/walker.rs`).  The mount is one instant: `process_directory` is then a script, the
operations on the queue and the event channel it performs one after the other, and `Lib.WorkQueue` is the
interleaving of the workers.
-/
import Mathlib
import Robinhood.Agent.Cursor
import Robinhood.Ingest.JuiceFs
import Robinhood.Lib.WorkQueue
import Robinhood.Scan.JuiceFs

namespace Robinhood.Scan

open Lib Posix Store Ingest

/-! ## §1 — Names as text -/

/-- The number of bytes of the UTF-8 sequence a byte begins; zero if it begins none. -/
def utf8CharWidth (b : UInt8) : ℕ :=
  if b < 0x80 then 1
  else if 0xC2 ≤ b ∧ b ≤ 0xDF then 2
  else if 0xE0 ≤ b ∧ b ≤ 0xEF then 3
  else if 0xF0 ≤ b ∧ b ≤ 0xF4 then 4
  else 0

def isContinuation (b : UInt8) : Bool := 0x80 ≤ b && b ≤ 0xBF

/-- The bytes that may come second; overlong forms, surrogates and what lies above U+10FFFF are out. -/
def isSecond (lead b : UInt8) : Bool :=
  if lead = 0xE0 then 0xA0 ≤ b && b ≤ 0xBF
  else if lead = 0xED then 0x80 ≤ b && b ≤ 0x9F
  else if lead = 0xF0 then 0x90 ≤ b && b ≤ 0xBF
  else if lead = 0xF4 then 0x80 ≤ b && b ≤ 0x8F
  else isContinuation b

/-- U+FFFD. -/
def replacement : List UInt8 := [0xEF, 0xBF, 0xBD]

/-- The byte goes on with the sequence of which `seen` was read. -/
def continues (seen : List UInt8) (b : UInt8) : Bool :=
  match seen with
  | [lead] => isSecond lead b
  | _ => isContinuation b

/-- The text of the bytes, after `seen` of a sequence that still misses `missing` bytes.  A byte that does
not go on with it begins anew. -/
def lossyFrom : List UInt8 → ℕ → Name → List UInt8
  | _, missing, [] => if missing = 0 then [] else replacement
  | seen, missing, b :: rest =>
    if missing ≠ 0 ∧ continues seen b then
      if missing = 1 then seen ++ b :: lossyFrom [] 0 rest else lossyFrom (seen ++ [b]) (missing - 1) rest
    else
      (if missing = 0 then [] else replacement) ++
        match utf8CharWidth b with
        | 0 => replacement ++ lossyFrom [] 0 rest
        | 1 => b :: lossyFrom [] 0 rest
        | width + 2 => lossyFrom [b] (width + 1) rest

/-- `to_string_lossy`, as the bytes of the text: a sequence that breaks off or is not UTF-8 becomes one
replacement character. -/
def toStringLossy (name : Name) : List UInt8 := lossyFrom [] 0 name

/-! ## §2 — Ignored names -/

/-- The inner `matches` of `glob_matches`.  Every call shortens the pattern, so its length is fuel
enough. -/
def globFrom : ℕ → List UInt8 → List UInt8 → Bool
  | _, [], value => value.isEmpty
  | 0, _ :: _, _ => false
  | fuel + 1, p :: pattern, value =>
    if p = 42 then (List.range (value.length + 1)).any fun offset => globFrom fuel pattern (value.drop offset)
    else if p = 63 then
      match value with
      | [] => false
      | _ :: value => globFrom fuel pattern value
    else if p = 91 then
      -- the bytes up to the first `]`; without one nothing matches
      match pattern.findIdx? (· = 93), value with
      | some close, v :: value =>
        (pattern.take close).contains v && globFrom fuel (pattern.drop (close + 1)) value
      | _, _ => false
    else
      match value with
      | [] => false
      | v :: value => v = p && globFrom fuel pattern value

/-- `glob_matches`. -/
def globMatches (pattern : String) (value : List UInt8) : Bool :=
  globFrom pattern.toUTF8.toList.length pattern.toUTF8.toList value

example : globMatches "*.[ch]" [97, 46, 99] = true := by decide +kernel

structure DirEntry where
  fileName : Name
  fileType : Except IoError EntryKind

/-- **One instant of a mount that can be listed.**  A listing may break off with an error; the texts are
those the events show. -/
structure WalkMount extends Mount where
  readDir : Path → Except IoError (List (Except IoError DirEntry))
  readToString : Path → Except IoError String
  describe : IoError → String
  display : Path → String

/-- The name `.rbh_ignore`. -/
def rbhIgnore : Name := [46, 114, 98, 104, 95, 105, 103, 110, 111, 114, 101]

/-- `load_rbh_ignore_file`.  What sets `lines` apart from a split at the line feeds falls to `trim` and to
the filter. -/
def loadRbhIgnoreFile (mount : WalkMount) (root : Path) : List String :=
  match mount.readToString (root.push rbhIgnore) with
  | .ok contents =>
    (((contents.toList.splitOn '\n').map trimSpace).filter fun line =>
      line ≠ [] ∧ line.head? ≠ some '#').map String.ofList
  | .error _ => []

/-! ## §3 — Directories -/

/-- `ScanConfig`. -/
structure ScanConfig where
  root : Path
  concurrency : ℕ
  maxDepth : Option ℕ
  channelSize : ℕ
  sinceMtime : Option Int
  ignoreGlobs : List String

/-- The entry `stat_entry` builds.  The path, the parent's path and the device are left out. -/
def posixEntry (path : Path) (metadata : Metadata) (parentInode : Option UInt64) (depth : UInt32) :
    PosixEntry where
  name := path.fileName.getD []
  kind := metadata.kind
  inode := metadata.ino
  parentInode := parentInode
  size := metadata.size
  blocks := metadata.blocks
  uid := metadata.uid
  gid := metadata.gid
  mode := metadata.mode
  nlink := truncate32 metadata.nlink
  atime := metadata.atime
  mtime := metadata.mtime
  ctime := metadata.ctime
  depth := depth

section Walker

variable (mount : WalkMount)

/-- `stat_entry`. -/
def statEntry (path : Path) (depth : UInt32) : Except IoError PosixEntry := do
  let metadata ← mount.symlinkMetadata path
  let parentInode ←
    if depth = 0 then .ok none
    else match path.parent with
      | none => .ok none
      | some parent => (mount.symlinkMetadata parent).map fun parent => some parent.ino
  .ok (posixEntry path metadata parentInode depth)

variable (config : ScanConfig)

def ignorePatterns : List String := config.ignoreGlobs ++ loadRbhIgnoreFile mount config.root

def ignored (name : Name) : Bool :=
  (ignorePatterns mount config).any fun pattern => globMatches pattern (toStringLossy name)

abbrev WalkOp := JobOp (Path × ℕ) PosixWalkEvent

/-- `emit_error`. -/
def emitError (path : Path) (error : String) : WalkOp := .emit (.error (mount.display path) error)

/-- `emit_path`. -/
def emitPath (path : Path) (depth : UInt32) (directory : Bool) : List WalkOp :=
  match statEntry mount path depth with
  | .ok entry =>
    if !directory && config.sinceMtime.any fun cutoff => entry.mtime < cutoff then []
    else [.emit (.entry entry)]
  | .error error => [emitError mount path (mount.describe error)]

/-- One round of the loop of `process_directory`.  A release build adds one to the depth with wrap-around. -/
def processEntry (directory : Path) (depth : ℕ) (entry : DirEntry) : List WalkOp :=
  let path := directory.push entry.fileName
  if ignored mount config entry.fileName then []
  else match entry.fileType with
    | .ok .directory => if config.maxDepth.all fun maximum => depth < maximum then [.push (path, depth + 1)] else []
    | .ok _ => emitPath mount config path (UInt32.ofNat depth + 1) false
    | .error error => [emitError mount path ("file_type failed: " ++ mount.describe error)]

/-- The loop of `process_directory`. -/
def processEntries (directory : Path) (depth : ℕ) : List (Except IoError DirEntry) → List WalkOp
  | [] => []
  | .ok entry :: entries => processEntry mount config directory depth entry ++ processEntries directory depth entries
  | .error error :: _ => [emitError mount directory ("readdir failed: " ++ mount.describe error)]

/-- **`process_directory`**, as the operations it performs. -/
def processDirectory : Path × ℕ → List WalkOp
  | (directory, depth) =>
    emitPath mount config directory (UInt32.ofNat depth) true ++
      match mount.readDir directory with
      | .ok entries => processEntries mount config directory depth entries
      | .error error => [emitError mount directory ("readdir failed: " ++ mount.describe error)]

/-! ## §4 — Walks -/

/-- The state of a walk: `worker` is a `QueueWorker`, `pending` the counter they share. -/
abbrev WalkState := WorkQueue (Path × ℕ) PosixWalkEvent

/-- **`PosixWalker::run`**, in any interleaving of its workers. -/
def Walking (state : WalkState) : Prop :=
  WorkQueue.Runs (processDirectory mount config) config.channelSize (config.root, 0)
    (max config.concurrency 1) state

/-- **The events of a walk** that has come to its end, in the order in which they were received. -/
def Walks (events : List PosixWalkEvent) : Prop :=
  ∃ state, Walking mount config state ∧ state.Finished ∧ state.received = events

end Walker

/-- The scan of `verify_juicefs_namespace` and of `run_juicefs_baseline`. -/
def namespaceScan (mount : Path) : ScanConfig where
  root := mount
  concurrency := 4
  maxDepth := none
  channelSize := 1024
  sinceMtime := none
  ignoreGlobs := []

/-! ## §5 — What a walk can report -/

section Reports

variable {mount : WalkMount} {config : ScanConfig}

/-- `stat_entry` at the root of the scan. -/
theorem statEntry_root {path : Path} {md : Metadata} (hmd : mount.symlinkMetadata path = .ok md) :
    statEntry mount path 0 = .ok (posixEntry path md none 0) := by
  simp only [statEntry, hmd, bind, Except.bind, if_true]

/-- `stat_entry` below the root. -/
theorem statEntry_below {path : Path} {name : Name} {md parent : Metadata} {depth : UInt32}
    (hdepth : depth ≠ 0) (hmd : mount.symlinkMetadata (path ++ [.normal name]) = .ok md)
    (hparent : mount.symlinkMetadata path = .ok parent) :
    statEntry mount (path ++ [.normal name]) depth =
      .ok (posixEntry (path ++ [.normal name]) md (some parent.ino) depth) := by
  have hpath : Path.parent (path ++ [.normal name]) = some path := by simp [Path.parent]
  simp only [statEntry, hmd, bind, Except.bind, if_neg hdepth, hpath, hparent, Except.map]

theorem edgeKey_posixEntry_below {path : Path} {name : Name} {md : Metadata} {parent : UInt64}
    {depth : UInt32} :
    (posixEntry (path ++ [.normal name]) md (some parent) depth).edgeKey =
      some ⟨.juiceFs parent, name⟩ := by
  simp [PosixEntry.edgeKey, posixEntry, Path.fileName]

theorem mem_processEntries {directory : Path} {depth : ℕ} {entries : List DirEntry} {op : WalkOp} :
    op ∈ processEntries mount config directory depth (entries.map .ok) ↔
      ∃ entry ∈ entries, op ∈ processEntry mount config directory depth entry := by
  induction entries with
  | nil => simp [processEntries]
  | cons entry entries ih => simp [processEntries, ih]

/-- **The events of a walk** are those of the directories that can be reached. -/
theorem Walks.mem_iff {events : List PosixWalkEvent} (h : Walks mount config events)
    {event : PosixWalkEvent} :
    event ∈ events ↔ ∃ job, WorkQueue.Reached (processDirectory mount config) (config.root, 0) job ∧
      .emit event ∈ processDirectory mount config job := by
  obtain ⟨state, hruns, hfinished, rfl⟩ := h
  exact WorkQueue.mem_received_of_finished (by omega) hruns hfinished

end Reports

end Robinhood.Scan
