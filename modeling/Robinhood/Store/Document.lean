/-
# Store.Document — rows as documents

A row of `scoped_entries` is stored twice: as a document in `entry_data`, from which it is read back, and in
columns that queries look at.  An upsert writes both; a hard link and an unlink rewrite the document and two
of the columns.  How a name, a FID and a key are written is the program's own; how `serde_json` reads a document
is a parameter, and what is proved is for documents that it reads back.  It does so for every document without
a float, but not for every float: the program does not turn `float_roundtrip` on, and then the column keeps a
number that the document has lost, `float_status_drifts`.

A row is found under its owner, as in `Store.Database`: two identifiers of a filesystem that differ by the case
of letters share it, and only the one that wrote it reads it.
-/
import Mathlib
import Robinhood.Lib.Base64
import Robinhood.Lib.Text
import Robinhood.Store.Database
import Robinhood.Store.Fid
import Robinhood.Store.MariaDb

namespace Robinhood.Store

open Lib Lib.Sql Posix

/-! ## §1 — Names and keys in a document -/

/-- `Repr` of `serde_bytes_compat`. -/
inductive NameRepr where
  | utf8 (text : String)
  | b64 (base64 : String)
  deriving DecidableEq

/-- `serde_bytes_compat::serialize`. -/
def serializeName (name : Name) : NameRepr :=
  match String.fromUTF8? ⟨name.toArray⟩ with
  | some text => .utf8 text
  | none => .b64 (String.ofList (Base64.encode name))

/-- `serde_bytes_compat::deserialize`. -/
def deserializeName : NameRepr → Option Name
  | .utf8 text => some text.toUTF8.toList
  | .b64 text => Base64.decode text.toList

/-- **A name of any bytes is read back.** -/
theorem deserialize_serializeName (name : Name) : deserializeName (serializeName name) = some name := by
  unfold serializeName
  split
  next text htext =>
    obtain ⟨hvalid, rfl⟩ : ∃ h, String.fromUTF8 ⟨name.toArray⟩ h = text := by
      unfold String.fromUTF8? at htext
      split at htext
      next h => exact ⟨h, Option.some.inj htext⟩
      next => cases htext
    exact congrArg some ((toList_byteArray _).trans (List.toList_toArray))
  next =>
    rw [deserializeName, String.toList_ofList]
    exact Base64.decode_encode name

inductive ObjectRepr where
  | lustre (fid : String)
  | juiceFs (inode : UInt64)
  deriving DecidableEq

structure KeyRepr where
  filesystem : String
  object : ObjectRepr
  deriving DecidableEq

def serializeKey (key : EntryKey) : KeyRepr where
  filesystem := key.filesystem.value
  object := match key.object with
    | .lustre fid => .lustre fid.display
    | .juiceFs inode => .juiceFs inode

def deserializeKey (key : KeyRepr) : Option EntryKey :=
  if h : FileSystemId.Valid key.filesystem then
    match key.object with
    | .lustre fid => (LuFid.fromStr fid).toOption.map fun fid => ⟨⟨key.filesystem, h⟩, .lustre fid⟩
    | .juiceFs inode => some ⟨⟨key.filesystem, h⟩, .juiceFs inode⟩
  else none

theorem deserialize_serializeKey (key : EntryKey) : deserializeKey (serializeKey key) = some key := by
  obtain ⟨⟨value, valid⟩, object⟩ := key
  cases object with
  | lustre fid => simp [deserializeKey, serializeKey, valid, LuFid.fromStr_display, Except.toOption]
  | juiceFs => simp [deserializeKey, serializeKey, valid]

/-- **The document of a scoped row**; `other` has the members that are written as they are. -/
structure ScopedDocument where
  key : KeyRepr
  parent : Option KeyRepr
  name : NameRepr
  other : ScopedEntryRow
  deriving DecidableEq

/-! ## §2 — Text -/

/-- A character inside a JSON string. -/
def escaped (c : Char) : List Char :=
  if c = '"' then ['\\', '"']
  else if c = '\\' then ['\\', '\\']
  else if c = '\n' then ['\\', 'n']
  else if c = '\r' then ['\\', 'r']
  else if c = '\t' then ['\\', 't']
  else if c.toNat = 8 then ['\\', 'b']
  else if c.toNat = 12 then ['\\', 'f']
  else if c.toNat < 32 then
    ['\\', 'u', '0', '0', (c.toNat / 16).digitChar, (c.toNat % 16).digitChar]
  else [c]

def quoted (s : String) : List Char := '"' :: s.toList.flatMap escaped ++ ['"']

section Text

variable (float : UInt64 → String)

mutual

/-- **The compact text of a value**, given the texts of floats. -/
def jsonChars : Json → List Char
  | .null => "null".toList
  | .bool b => (if b then "true" else "false").toList
  | .int n => n.repr.toList
  | .float bits => (float bits).toList
  | .str s => quoted s
  | .arr items => '[' :: jsonItems items ++ [']']
  | .obj members => '\x7b' :: jsonMembers members ++ ['\x7d']

def jsonItems : List Json → List Char
  | [] => []
  | item :: rest => jsonChars item ++ (if rest = [] then [] else ',' :: jsonItems rest)

def jsonMembers : List (String × Json) → List Char
  | [] => []
  | (key, value) :: rest =>
    quoted key ++ ':' :: jsonChars value ++ (if rest = [] then [] else ',' :: jsonMembers rest)

end

/-- `serde_json::to_vec` of a value. -/
def jsonBytes (value : Json) : List UInt8 := (jsonChars float value).flatMap String.utf8EncodeChar

end Text

def NameRepr.json : NameRepr → Json
  | .utf8 text => .str text
  | .b64 text => .obj [("base64", .str text)]

def KeyRepr.json (key : KeyRepr) : Json :=
  .obj [("filesystem", .str key.filesystem), ("object", match key.object with
    | .lustre fid => .obj [("lustre", .str fid)]
    | .juiceFs inode => .obj [("juice_fs", .int inode.toNat)])]

def optionJson {α : Type} (json : α → Json) : Option α → Json
  | none => .null
  | some a => json a

def kindName : EntryKind → String
  | .file => "File"
  | .directory => "Directory"
  | .symlink => "Symlink"
  | .charDevice => "CharDevice"
  | .blockDevice => "BlockDevice"
  | .fifo => "Fifo"
  | .socket => "Socket"

/-- The members of a row after its name, as the derived `Serialize` lists them. -/
def otherMembers (e : ScopedEntryRow) : List (String × Json) :=
  [("kind", .str (kindName e.kind)), ("size", .int e.size.toNat), ("blocks", .int e.blocks.toNat),
    ("uid", .int e.uid.toNat), ("gid", .int e.gid.toNat), ("projid", .int e.projid.toNat),
    ("mode", .int e.mode.toNat), ("nlink", .int e.nlink.toNat), ("atime", .int e.atime), ("mtime", .int e.mtime),
    ("ctime", .int e.ctime), ("stripe_count", optionJson (fun n => .int n.toNat) e.stripeCount),
    ("stripe_size", optionJson (fun n => .int n.toNat) e.stripeSize),
    ("stripe_items", .arr (e.stripeItems.map fun n => .int n.toNat)), ("pool_name", optionJson .str e.poolName),
    ("sm_status", e.smStatus), ("last_seen", .int e.lastSeen), ("depth", .int e.depth.toNat)]

def ScopedDocument.json (document : ScopedDocument) : Json :=
  .obj ([("key", document.key.json), ("parent", optionJson KeyRepr.json document.parent),
    ("name", document.name.json)] ++ otherMembers document.other)

/-- **`serde_json` for a type of documents**: what it writes, and what it reads. -/
structure JsonText (Document : Type) where
  write : Document → List UInt8
  read : List UInt8 → Option Document

abbrev Documents := JsonText ScopedDocument

namespace Documents

variable (d : Documents)

def document (entry : ScopedEntryRow) : ScopedDocument :=
  ⟨serializeKey entry.key, entry.parent.map serializeKey, serializeName entry.name, entry⟩

/-- `serde_json::to_string` of a row. -/
def write (entry : ScopedEntryRow) : List UInt8 := JsonText.write d (document entry)

/-- `serde_json::from_slice` of a row. -/
def read (text : List UInt8) : Option ScopedEntryRow := do
  let document ← JsonText.read d text
  let key ← deserializeKey document.key
  let parent ← document.parent.mapM deserializeKey
  let name ← deserializeName document.name
  pure { document.other with key := key, parent := parent, name := name }

/-- **The document of a row is read back** as it was written. -/
def Keeps (entry : ScopedEntryRow) : Prop := JsonText.read d (d.write entry) = some (document entry)

variable {d} in
/-- A text that `serde_json` reads as the document of a row is read as the row. -/
theorem read_of_document {text : List UInt8} {entry : ScopedEntryRow}
    (h : JsonText.read d text = some (document entry)) : d.read text = some entry := by
  have hparent : (entry.parent.map serializeKey).mapM deserializeKey = some entry.parent := by
    rcases entry.parent with _ | parent
    · rfl
    · exact congrArg (Option.map some) (deserialize_serializeKey parent)
  simp only [read, h, document, deserialize_serializeKey, deserialize_serializeName, hparent,
    Option.pure_def, Option.bind_eq_bind, Option.bind_some]

/-! ## §3 — Columns and document -/

/-- A row of `scoped_entries` in the database. -/
structure StoredRow where
  columns : Row SqlValue
  entryData : List UInt8

/-- What the primary key of `scoped_entries` compares. -/
abbrev RowKey := CollationKey × ObjectId

def rowKey (key : EntryKey) : RowKey := (key.filesystem.owner, key.object)

/-- The columns of the primary key, which `ON DUPLICATE KEY UPDATE` leaves as they are. -/
def keyColumns : List String := ["filesystem_id", "object_kind", "object_id"]

abbrev ScopedEntries := RowKey → Option StoredRow

/-- **What is written to `scoped_entries`.**  Upserts, batches, renames, status patches and tag updates are
`upsert`s of whole rows; `link` and `unlink` are the row's part of a hard link and of an unlink whose edge
was found; `remove` and `clear` delete. -/
inductive Write where
  | upsert (entry : ScopedEntryRow)
  | link (key : EntryKey) (observedAt : Int)
  | unlink (key : EntryKey) (observedAt : Int) (directory : Bool)
  | remove (key : EntryKey)
  | clear (filesystem : FileSystemId)

def linked (entry : ScopedEntryRow) (observedAt : Int) : ScopedEntryRow :=
  { entry with nlink := saturatingSucc entry.nlink, lastSeen := observedAt }

def unlinked (entry : ScopedEntryRow) (observedAt : Int) : ScopedEntryRow :=
  { entry with nlink := entry.nlink - 1, lastSeen := observedAt }

/-- `INSERT INTO scoped_entries … ON DUPLICATE KEY UPDATE …`. -/
def insert (before : Option StoredRow) (entry : ScopedEntryRow) : StoredRow where
  columns := match before with
    | none => storedRow entry
    | some row => fun column => if column ∈ keyColumns then row.columns column else storedRow entry column
  entryData := d.write entry

/-- `UPDATE scoped_entries SET entry_data = ?, nlink = ?, last_seen = ?`. -/
def update (row : StoredRow) (entry : ScopedEntryRow) : StoredRow where
  columns := Function.update (Function.update row.columns "nlink" (some (.int entry.nlink.toNat)))
    "last_seen" (some (.int (bigint entry.lastSeen)))
  entryData := d.write entry

/-- A parent of another filesystem is refused. -/
def ParentOk (entry : ScopedEntryRow) : Prop := ∀ parent ∈ entry.parent, parent.filesystem = entry.key.filesystem

instance (entry : ScopedEntryRow) : Decidable (ParentOk entry) :=
  inferInstanceAs (Decidable (∀ parent ∈ entry.parent, parent.filesystem = entry.key.filesystem))

def exec (rows : ScopedEntries) : Write → ScopedEntries
  | .upsert entry =>
    if ParentOk entry then
      Function.update rows (rowKey entry.key) (some (d.insert (rows (rowKey entry.key)) entry))
    else rows
  | .link key observedAt =>
    match rows (rowKey key) with
    | none => rows
    | some row =>
      match d.read row.entryData with
      | none => rows
      | some entry => Function.update rows (rowKey key) (some (d.update row (linked entry observedAt)))
  | .unlink key observedAt directory =>
    match rows (rowKey key) with
    | none => rows
    | some row =>
      match d.read row.entryData with
      | none => rows
      | some entry =>
        if !directory && entry.nlink > 1 then
          Function.update rows (rowKey key) (some (d.update row (unlinked entry observedAt)))
        else Function.update rows (rowKey key) none
  | .remove key => Function.update rows (rowKey key) none
  | .clear filesystem => fun key => if key.1 = filesystem.owner then none else rows key

/-- What `get_scoped_entry` answers for the row it found. -/
def answer (key : EntryKey) : Option ScopedEntryRow → Except String (Option ScopedEntryRow)
  | none => .ok none
  | some entry =>
    if entry.key = key then .ok (some entry)
    else .error "scoped entry key does not match its primary key"

/-- `EntryStore::get_scoped_entry` on the stored rows. -/
def getScopedEntry (rows : ScopedEntries) (key : EntryKey) : Except String (Option ScopedEntryRow) :=
  match rows (rowKey key) with
  | none => answer key none
  | some row =>
    match d.read row.entryData with
    | none => .error "serde_json"
    | some entry => answer key (some entry)

/-! ## §4 — What the writes are for -/

abbrev Entries := RowKey → Option ScopedEntryRow

/-- **What a write is for**: its effect on the catalog as a map from keys to rows. -/
def apply (entries : Entries) : Write → Entries
  | .upsert entry => if ParentOk entry then Function.update entries (rowKey entry.key) (some entry) else entries
  | .link key observedAt =>
    Function.update entries (rowKey key) ((entries (rowKey key)).map (linked · observedAt))
  | .unlink key observedAt directory =>
    Function.update entries (rowKey key) ((entries (rowKey key)).bind fun entry =>
      if !directory && entry.nlink > 1 then some (unlinked entry observedAt) else none)
  | .remove key => Function.update entries (rowKey key) none
  | .clear filesystem => fun key => if key.1 = filesystem.owner then none else entries key

/-- The key of the row whose document a write makes new. -/
def Write.rewrites : Write → Option RowKey
  | .upsert entry => some (rowKey entry.key)
  | .link key _ | .unlink key _ _ => some (rowKey key)
  | .remove _ | .clear _ => none

/-- **Every document that a run writes is read back.** -/
def AllKept : Entries → List Write → Prop
  | _, [] => True
  | entries, w :: writes =>
    (∀ key ∈ w.rewrites, ∀ entry ∈ apply entries w key, d.Keeps entry) ∧ AllKept (apply entries w) writes

/-- A stored row that has the document and, apart from its key, the columns of an entry. -/
structure Mirrors (row : StoredRow) (entry : ScopedEntryRow) : Prop where
  document : row.entryData = d.write entry
  columns : ∀ column ∉ keyColumns, row.columns column = storedRow entry column

/-- The rows stored for a catalog: each under its own key, with a document that is read back. -/
structure Stored (rows : ScopedEntries) (entries : Entries) : Prop where
  mirrors : ∀ key, Option.Rel d.Mirrors (rows key) (entries key)
  keyed : ∀ key, ∀ entry ∈ entries key, rowKey entry.key = key
  kept : ∀ key, ∀ entry ∈ entries key, d.Keeps entry

section Step

variable {d} {rows : ScopedEntries} {entries : Entries} {key : RowKey} {w : Write}

theorem mirrors_insert (before : Option StoredRow) (entry : ScopedEntryRow) : d.Mirrors (d.insert before entry) entry := by
  refine ⟨rfl, fun column hcolumn => ?_⟩
  cases before with
  | none => rfl
  | some row => exact if_neg hcolumn

theorem Mirrors.update {row : StoredRow} {entry : ScopedEntryRow} (h : d.Mirrors row entry) (nlink : UInt32)
    (lastSeen : Int) :
    d.Mirrors (d.update row { entry with nlink := nlink, lastSeen := lastSeen })
      { entry with nlink := nlink, lastSeen := lastSeen } := by
  refine ⟨rfl, fun column hcolumn => ?_⟩
  by_cases hseen : column = "last_seen"
  · rw [hseen]
    rfl
  · by_cases hlinks : column = "nlink"
    · rw [hlinks]
      rfl
    · simp only [Documents.update, Function.update_of_ne hseen, Function.update_of_ne hlinks, h.columns column hcolumn]
      unfold storedRow
      split <;> first | rfl | contradiction

theorem Stored.update (h : d.Stored rows entries) {row : Option StoredRow} {entry : Option ScopedEntryRow}
    (hmirrors : Option.Rel d.Mirrors row entry) (hkeyed : ∀ e ∈ entry, rowKey e.key = key)
    (hkept : ∀ e ∈ entry, d.Keeps e) :
    d.Stored (Function.update rows key row) (Function.update entries key entry) := by
  refine ⟨fun k => ?_, fun k e he => ?_, fun k e he => ?_⟩ <;> by_cases hk : k = key
  · subst hk
    simpa using hmirrors
  · simpa [hk] using h.mirrors k
  · subst hk
    exact hkeyed e (by simpa using he)
  · exact h.keyed k e (by simpa [hk] using he)
  · subst hk
    exact hkept e (by simpa using he)
  · exact h.kept k e (by simpa [hk] using he)

theorem Stored.erase (h : d.Stored rows entries) (key : RowKey) :
    d.Stored (Function.update rows key none) (Function.update entries key none) :=
  h.update .none (fun _ he => absurd he (Option.not_mem_none _)) (fun _ he => absurd he (Option.not_mem_none _))

/-- What is found under a key, in both. -/
theorem Stored.cases (h : d.Stored rows entries) (key : RowKey) :
    rows key = none ∧ entries key = none ∨ ∃ row entry, rows key = some row ∧ entries key = some entry ∧
      d.Mirrors row entry ∧ d.read row.entryData = some entry ∧ rowKey entry.key = key := by
  have hrel := h.mirrors key
  cases hrow : rows key with
  | none =>
    rw [hrow] at hrel
    cases hentry : entries key with
    | none => exact .inl ⟨rfl, rfl⟩
    | some entry =>
      rw [hentry] at hrel
      cases hrel
  | some row =>
    rw [hrow] at hrel
    cases hentry : entries key with
    | none =>
      rw [hentry] at hrel
      cases hrel
    | some entry =>
      rw [hentry] at hrel
      cases hrel with
      | some hmirrors =>
        refine .inr ⟨row, entry, rfl, rfl, hmirrors, ?_, h.keyed key entry hentry⟩
        rw [hmirrors.document]
        exact read_of_document (h.kept key entry hentry)

theorem apply_link_of_none {key : EntryKey} {observedAt : Int} (h : entries (rowKey key) = none) :
    apply entries (.link key observedAt) = entries := by
  rw [apply, h]
  exact Function.update_eq_self_iff.2 h.symm

theorem apply_unlink_of_none {key : EntryKey} {observedAt : Int} {directory : Bool}
    (h : entries (rowKey key) = none) : apply entries (.unlink key observedAt directory) = entries := by
  rw [apply, h]
  exact Function.update_eq_self_iff.2 h.symm

/-- **One write**: rows stored for a catalog become rows stored for the catalog after the write. -/
theorem Stored.exec (h : d.Stored rows entries)
    (hkept : ∀ key ∈ w.rewrites, ∀ entry ∈ apply entries w key, d.Keeps entry) :
    d.Stored (d.exec rows w) (apply entries w) := by
  cases w with
  | upsert entry =>
    have hkept := hkept _ rfl
    rw [Documents.exec, apply] at *
    split_ifs at hkept ⊢
    · refine h.update (.some (mirrors_insert _ entry)) (by simp) ?_
      rintro e ⟨⟩
      exact hkept entry (by simp)
    · exact h
  | link key observedAt =>
    have hkept := hkept _ rfl
    rcases h.cases (rowKey key) with ⟨hrow, hentry⟩ | ⟨row, entry, hrow, hentry, hmirrors, hread, hkey⟩
    · rw [apply_link_of_none hentry]
      simpa only [Documents.exec, hrow] using h
    · simp only [apply, hentry, Option.map_some, Function.update_self] at hkept
      simp only [Documents.exec, apply, hrow, hread, hentry, Option.map_some]
      refine h.update (.some (hmirrors.update _ _)) ?_ hkept
      rintro e ⟨⟩
      exact hkey
  | unlink key observedAt directory =>
    have hkept := hkept _ rfl
    rcases h.cases (rowKey key) with ⟨hrow, hentry⟩ | ⟨row, entry, hrow, hentry, hmirrors, hread, hkey⟩
    · rw [apply_unlink_of_none hentry]
      simpa only [Documents.exec, hrow] using h
    · simp only [apply, hentry, Option.bind_some, Function.update_self] at hkept
      simp only [Documents.exec, apply, hrow, hread, hentry, Option.bind_some]
      split_ifs at hkept ⊢
      · refine h.update (.some (hmirrors.update _ _)) ?_ hkept
        rintro e ⟨⟩
        exact hkey
      · exact h.erase _
  | remove key =>
    rw [Documents.exec, apply]
    exact h.erase _
  | clear filesystem =>
    refine ⟨fun k => ?_, fun k e he => ?_, fun k e he => ?_⟩
    · simp only [Documents.exec, apply]
      split_ifs
      · exact .none
      · exact h.mirrors k
    · simp only [apply, Option.mem_def, Option.ite_none_left_eq_some] at he
      exact h.keyed k e he.2
    · simp only [apply, Option.mem_def, Option.ite_none_left_eq_some] at he
      exact h.kept k e he.2

/-- **A whole run.** -/
theorem Stored.run {writes : List Write} (h : d.Stored rows entries) (hkept : d.AllKept entries writes) :
    d.Stored (writes.foldl d.exec rows) (writes.foldl apply entries) := by
  induction writes generalizing rows entries with
  | nil => exact h
  | cons w writes ih => exact ih (h.exec hkept.1) hkept.2

theorem Stored.getScopedEntry (h : d.Stored rows entries) (key : EntryKey) :
    d.getScopedEntry rows key = answer key (entries (rowKey key)) := by
  rw [Documents.getScopedEntry]
  rcases h.cases (rowKey key) with ⟨hrow, hentry⟩ | ⟨row, entry, hrow, hentry, -, hread, -⟩
  · rw [hrow, hentry]
  · simp only [hrow, hentry, hread]

end Step

/-- **The columns mirror the document.**  Whatever writes have been executed on an empty table, if each document
they wrote is read back, each stored row's columns, those of its key apart, are the columns of the row its
document reads back as; reading answers what the writes were for, and after an upsert the row written. -/
theorem columns_mirror_document (writes : List Write) (hkept : d.AllKept (fun _ => none) writes) :
    let rows := writes.foldl d.exec fun _ => none
    let entries := writes.foldl apply fun _ => none
    (∀ key, ∀ row ∈ rows key, ∃ entry, d.read row.entryData = some entry ∧ rowKey entry.key = key ∧
      ∀ column ∉ keyColumns, row.columns column = storedRow entry column) ∧
    (∀ key, d.getScopedEntry rows key = answer key (entries (rowKey key))) ∧
    ∀ entry, ParentOk entry → d.Keeps entry →
      d.getScopedEntry (d.exec rows (.upsert entry)) entry.key = .ok (some entry) := by
  intro rows entries
  have hempty : d.Stored (fun _ => none) fun _ => none :=
    ⟨fun _ => .none, fun _ _ he => absurd he (Option.not_mem_none _), fun _ _ he => absurd he (Option.not_mem_none _)⟩
  have hstored : d.Stored rows entries := hempty.run hkept
  refine ⟨fun key row hrow => ?_, hstored.getScopedEntry, fun entry hparent hentry => ?_⟩
  · rcases hstored.cases key with ⟨hnone, -⟩ | ⟨row', entry, hrow', -, hmirrors, hread, hkey⟩
    · rw [hnone] at hrow
      cases hrow
    · obtain rfl : row' = row := Option.some.inj (hrow'.symm.trans hrow)
      exact ⟨entry, hread, hkey, hmirrors.columns⟩
  · have hupserted : apply entries (.upsert entry) = Function.update entries (rowKey entry.key) (some entry) :=
      if_pos hparent
    have hnext := hstored.exec (w := .upsert entry) (by
      rintro key ⟨⟩ e he
      rw [hupserted, Function.update_self] at he
      cases he
      exact hentry)
    rw [hnext.getScopedEntry, hupserted, Function.update_self, answer, if_pos rfl]

/-! ## A raw name and a float -/

section Linked

variable {d} {entry found : ScopedEntryRow}

theorem answer_self (entry : ScopedEntryRow) : answer entry.key (some entry) = .ok (some entry) := if_pos rfl

theorem apply_created (hparent : ParentOk entry) (observedAt : Int) :
    apply (fun _ => none) (.upsert entry) (rowKey entry.key) = some entry ∧
      apply (apply (fun _ => none) (.upsert entry)) (.link entry.key observedAt) (rowKey entry.key) =
        some (linked entry observedAt) := by
  simp only [apply, if_pos hparent, Function.update_self, Option.map_some, and_self]

theorem allKept_linked (hparent : ParentOk entry) {observedAt : Int} (hkeeps : d.Keeps entry)
    (hlinked : d.Keeps (linked entry observedAt)) :
    d.AllKept (fun _ => none) [.upsert entry, .link entry.key observedAt] := by
  obtain ⟨hcreated, hlink⟩ := apply_created hparent observedAt
  refine ⟨fun key hkey e he => ?_, fun key hkey e he => ?_, trivial⟩
  · obtain rfl := Option.some.inj hkey
    obtain rfl := Option.some.inj (hcreated.symm.trans he)
    exact hkeeps
  · obtain rfl := Option.some.inj hkey
    obtain rfl := Option.some.inj (hlink.symm.trans he)
    exact hlinked

/-- The row of an upsert whose document is read as another row, before and after a hard link. -/
theorem exec_misread (hparent : ParentOk entry) (hread : d.read (d.write entry) = some found) (observedAt : Int) :
    d.getScopedEntry (d.exec (fun _ => none) (.upsert entry)) entry.key = answer entry.key (some found) ∧
      d.exec (d.exec (fun _ => none) (.upsert entry)) (.link entry.key observedAt) (rowKey entry.key) =
        some (d.update ⟨storedRow entry, d.write entry⟩ (linked found observedAt)) := by
  have hrow : d.exec (fun _ => none) (.upsert entry) (rowKey entry.key) =
      some ⟨storedRow entry, d.write entry⟩ := by
    rw [exec, if_pos hparent, Function.update_self]
    rfl
  constructor
  · rw [getScopedEntry, hrow]
    simp only [hread]
  · simp only [exec.eq_2, hrow, hread, Function.update_self]

end Linked

namespace Sample

open Store.Sample (lustre file)

/-- The shortest texts of two neighbouring floats. -/
def floatText (bits : UInt64) : String :=
  if bits = 4629487979381582466 then "31.245270191439438" else "31.24527019143944"

/-- `serde_json` on a list of rows, each with the row that is read from its text. -/
def serde (texts : List (ScopedEntryRow × ScopedEntryRow)) : Documents where
  write document := jsonBytes floatText document.json
  read text := (texts.find? fun row => jsonBytes floatText (document row.1).json = text).map
    fun row => document row.2

/-- A file with a name that is not UTF-8. -/
def rawFile : ScopedEntryRow := .fromLustre lustre (file 2 [255])

def rawSerde : Documents := serde [(rawFile, rawFile), (linked rawFile 7, linked rawFile 7)]

theorem rawSerde_keeps : rawSerde.Keeps rawFile ∧ rawSerde.Keeps (linked rawFile 7) := by
  unfold Keeps
  decide +kernel

/-- The file is created and linked once: two documents, both read back. -/
theorem raw_name_mirrored :
    rawSerde.getScopedEntry ([.upsert rawFile, .link rawFile.key 7].foldl rawSerde.exec fun _ => none) rawFile.key =
      .ok (some (linked rawFile 7)) := by
  have hparent : ParentOk rawFile := by decide
  have hkept := allKept_linked hparent rawSerde_keeps.1 rawSerde_keeps.2
  refine ((rawSerde.columns_mirror_document _ hkept).2.1 rawFile.key).trans ?_
  refine (congrArg (answer rawFile.key) (apply_created hparent 7).2).trans ?_
  exact answer_self (linked rawFile 7)

def floatFile (bits : UInt64) : ScopedEntryRow :=
  { rawFile with smStatus := .obj [("x", .float bits)] }

/-- Without `float_roundtrip` the text `31.245270191439438` is read as the next float, and the text of that one
as itself. -/
def floatSerde : Documents :=
  serde [(floatFile 4629487979381582466, floatFile 4629487979381582467),
    (linked (floatFile 4629487979381582467) 7, linked (floatFile 4629487979381582467) 7)]

theorem floatSerde_reads :
    JsonText.read floatSerde (floatSerde.write (floatFile 4629487979381582466)) =
        some (document (floatFile 4629487979381582467)) ∧
      JsonText.read floatSerde (floatSerde.write (linked (floatFile 4629487979381582467) 7)) =
        some (document (linked (floatFile 4629487979381582467) 7)) := by
  decide +kernel

def floatRows : ScopedEntries := floatSerde.exec (fun _ => none) (.upsert (floatFile 4629487979381582466))

/-- **A float in the status drifts**: what is read after the upsert is not the row written, and after a hard link
the document has the other float while the column still has the first. -/
theorem float_status_drifts :
    floatSerde.getScopedEntry floatRows (floatFile 4629487979381582466).key =
        .ok (some (floatFile 4629487979381582467)) ∧
      floatFile 4629487979381582467 ≠ floatFile 4629487979381582466 ∧
      ∃ row entry, floatSerde.exec floatRows (.link (floatFile 4629487979381582466).key 7)
          (rowKey (floatFile 4629487979381582466).key) = some row ∧
        floatSerde.read row.entryData = some entry ∧ entry.smStatus = .obj [("x", .float 4629487979381582467)] ∧
        row.columns "sm_status" = some (.json (.obj [("x", .float 4629487979381582466)])) := by
  obtain ⟨hget, hlinked⟩ := exec_misread (d := floatSerde) (by decide) (read_of_document floatSerde_reads.1) 7
  exact ⟨hget.trans (answer_self (floatFile 4629487979381582467)), by decide +kernel, _,
    linked (floatFile 4629487979381582467) 7, hlinked, read_of_document floatSerde_reads.2, rfl, rfl⟩

end Sample

end Documents

end Robinhood.Store
