/-
# Store.MariaDb — rows of the catalog as the database sees them

`upsert_scoped_entry_tx` writes an entry into the columns of `scoped_entries`; predicates and queries are
evaluated there.  Numbers compare as numbers, signed with unsigned; texts compare under the collation of
the column they come from, and the collation is a parameter, because the migrations name the character
set only.  LIKE, REGEXP and comparisons across types are parameters too: nothing here depends on them.
-/
import Mathlib
import Robinhood.Lib.Sql.Semantics
import Robinhood.Store.JsonPath
import Robinhood.Store.Types

namespace Robinhood.Store

open Lib.Sql

/-! ## §1 — values -/

/-- Where a text comes from; it says whose collation a comparison uses. -/
inductive TextSource
  | column
  | json
  | param
  deriving DecidableEq, Repr

inductive SqlValue
  | null
  | int (n : ℤ)
  | text (source : TextSource) (s : String)
  | bytes (b : List UInt8)
  | json (j : Json)

def TextSource.join : TextSource → TextSource → TextSource
  | param, s => s
  | s, _ => s

def holds : Comparison → Ordering → Bool
  | .eq, o => o.isEq
  | .ne, o => !o.isEq
  | .gt, o => o.isGT
  | .ge, o => o.isGE
  | .lt, o => o.isLT
  | .le, o => o.isLE

/-- **A server**: its JSON paths, its collations, and what is left open of the rest. -/
structure MariaDb extends PathSyntax where
  collate : TextSource → String → String → Ordering
  collate_self : ∀ source s, collate source s s = .eq
  /-- the text of a number that is not an integer -/
  float : UInt64 → String
  lower : SqlValue → SqlValue
  /-- LIKE and REGEXP, and comparisons of values of different types -/
  other : Test → SqlValue → SqlValue → Truth

namespace MariaDb

variable (db : MariaDb)

def test (t : Test) : SqlValue → SqlValue → Truth
  | .null, _ => .unknown
  | _, .null => .unknown
  | .int a, .int b =>
    match t with
    | .compare op => .ofBool (holds op (compare a b))
    | t => db.other t (.int a) (.int b)
  | .text s a, .text s' b =>
    match t with
    | .compare op => .ofBool (holds op (db.collate (s.join s') a b))
    | t => db.other t (.text s a) (.text s' b)
  | x, y => db.other t x y

def call (f : String) (x : SqlValue) : Option SqlValue :=
  match f, x with
  | "JSON_UNQUOTE", .json j => some (.text .json (j.unquote db.float))
  | "JSON_UNQUOTE", .null => some .null
  | "LOWER", .null => some .null
  | "LOWER", x => some (db.lower x)
  | _, _ => none

def call₂ (f : String) (x y : SqlValue) : Option SqlValue :=
  match f, x, y with
  | "JSON_EXTRACT", .json j, .text _ path =>
    match jsonExtract db.toPathSyntax j path with
    | some j => some (.json j)
    | none => some .null
  | "JSON_EXTRACT", .null, _ => some .null
  | _, _, _ => none

def server : Server SqlValue where
  number n := .int n
  text s := .text .param s
  test := db.test
  call := db.call
  call₂ := db.call₂

end MariaDb

/-- A server whose collation ignores the case of ASCII letters, as the default collation of `utf8mb4` does. -/
def MariaDb.generalCi : MariaDb where
  nameChar c := c.isAlphanum || c == '_'
  nameChar_of_isAlphanum c h := by rcases h with h | rfl <;> simp_all
  subscript _ := none
  collate _ a b := compare (a.toList.map Char.toLower) (b.toList.map Char.toLower)
  collate_self _ _ := Std.ReflCmp.compare_self
  float _ := "0.5"
  lower x := x
  other _ _ _ := .unknown

/-! ## §2 — rows -/

def beBytes (width n : ℕ) : List UInt8 :=
  (List.range width).map fun i => UInt8.ofNat (n / 256 ^ (width - 1 - i) % 256)

/-- `fid_codec::encode`. -/
def LuFid.encode (fid : LuFid) : List UInt8 :=
  beBytes 8 fid.seq.toNat ++ beBytes 4 fid.oid.toNat ++ beBytes 4 fid.ver.toNat

/-- `encode_object_id`. -/
def encodeObjectId : ObjectId → ℕ × List UInt8
  | .lustre fid => (0, fid.encode)
  | .juiceFs inode => (1, List.replicate 8 0 ++ beBytes 8 inode.toNat)

def EntryKind.toNat : EntryKind → ℕ
  | file => 0
  | directory => 1
  | symlink => 2
  | charDevice => 3
  | blockDevice => 4
  | fifo => 5
  | socket => 6

def nullable {α : Type} (f : α → SqlValue) : Option α → SqlValue
  | some a => f a
  | none => .null

/-- A time of a row, an `i64` in the source. -/
def bigint (t : Int) : ℤ := (Int64.ofInt t).toInt

/-- **The columns of `scoped_entries`** that `upsert_scoped_entry_tx` writes; `entry_data`, the whole entry
as text, is the entry itself here. -/
def storedRow (e : ScopedEntryRow) : Row SqlValue
  | "filesystem_id" => some (.text .column e.key.filesystem.value)
  | "object_kind" => some (.int (encodeObjectId e.key.object).1)
  | "object_id" => some (.bytes (encodeObjectId e.key.object).2)
  | "parent_kind" => some (nullable (fun p => .int (encodeObjectId p.object).1) e.parent)
  | "parent_id" => some (nullable (fun p => .bytes (encodeObjectId p.object).2) e.parent)
  | "fid" => some (match e.key.object with
    | .lustre fid => .bytes fid.encode
    | .juiceFs _ => .null)
  | "name" => some (.bytes e.name)
  | "kind" => some (.int e.kind.toNat)
  | "size" => some (.int e.size.toNat)
  | "blocks" => some (.int e.blocks.toNat)
  | "uid" => some (.int e.uid.toNat)
  | "gid" => some (.int e.gid.toNat)
  | "projid" => some (.int e.projid.toNat)
  | "mode" => some (.int e.mode.toNat)
  | "nlink" => some (.int e.nlink.toNat)
  | "atime" => some (.int (bigint e.atime))
  | "mtime" => some (.int (bigint e.mtime))
  | "ctime" => some (.int (bigint e.ctime))
  | "stripe_count" => some (nullable (fun n => .int n.toNat) e.stripeCount)
  | "stripe_size" => some (nullable (fun n => .int n.toNat) e.stripeSize)
  | "pool_name" => some (nullable (.text .column) e.poolName)
  | "sm_status" => some (.json e.smStatus)
  | "last_seen" => some (.int (bigint e.lastSeen))
  | "depth" => some (.int e.depth.toNat)
  | _ => none

/-- A row of `scoped_stripe_items`. -/
structure StripeItem where
  filesystem : FileSystemId
  object : ObjectId
  stripeIndex : ℕ
  ostIndex : UInt32
  deriving DecidableEq

def StripeItem.row (s : StripeItem) : Row SqlValue
  | "filesystem_id" => some (.text .column s.filesystem.value)
  | "object_kind" => some (.int (encodeObjectId s.object).1)
  | "object_id" => some (.bytes (encodeObjectId s.object).2)
  | "stripe_index" => some (.int s.stripeIndex)
  | "ost_index" => some (.int s.ostIndex.toNat)
  | _ => none

structure Tables where
  entries : List ScopedEntryRow
  stripeItems : List StripeItem

def Tables.rows (tables : Tables) : String → List (Row SqlValue)
  | "scoped_entries" => tables.entries.map storedRow
  | "scoped_stripe_items" => tables.stripeItems.map StripeItem.row
  | _ => []

end Robinhood.Store
