/-
# Predicate.Eval — predicate trees and their evaluation in memory

`rbh-predicate/src/lib.rs` and `eval.rs`.  A predicate is a boolean tree over tests of one entry.
`matches` (here `matchesEntry`, the other word being taken) evaluates it on an entry held in memory, as
classifiers do; a missing stripe count or size is read as zero there and a size above `i64::MAX` is
clamped to it.

The library functions that are called on texts, `str::to_lowercase` and its like and the regular
expressions of the `regex` crate, are parameters.
-/
import Mathlib
import Robinhood.Store.MariaDb
import Robinhood.Store.Xattr

namespace Robinhood

open Store Posix

namespace Predicate

/-! ## §1 — the tree -/

/-- The filterable columns. -/
inductive Field
  | size | blocks | uid | gid | projid | mode | nlink | mtime | atime | ctime | kind | stripeCount
  | stripeSize | lastSeen | depth
  deriving DecidableEq, Repr

inductive CmpOp
  | eq | ne | gt | ge | lt | le
  deriving DecidableEq, Repr

inductive Value
  | num (n : Int64)
  | str (s : String)
  deriving DecidableEq, Repr

end Predicate

open Predicate

/-- **A predicate over entry attributes.** -/
inductive Predicate
  | and (children : List Predicate)
  | or (children : List Predicate)
  | not (inner : Predicate)
  | cmp (field : Field) (cmp : CmpOp) (value : Value)
  | nameLike (pattern : String)
  | inameLike (pattern : String)
  | nameRegex (pattern : String)
  | xattr (key : String) (cmp : CmpOp) (value : Value)
  | inPool (pool : String)
  | onOst (osts : List UInt32)
  | hsmStateEq (state : String)
  | tags (matchTags : TagMap)
  | true
  | false

namespace Predicate

@[elab_as_elim]
theorem induct {motive : Predicate → Prop}
    (and : ∀ children, (∀ c ∈ children, motive c) → motive (.and children))
    (or : ∀ children, (∀ c ∈ children, motive c) → motive (.or children))
    (not : ∀ inner, motive inner → motive (.not inner))
    (cmp : ∀ field cmp value, motive (.cmp field cmp value))
    (nameLike : ∀ pattern, motive (.nameLike pattern))
    (inameLike : ∀ pattern, motive (.inameLike pattern))
    (nameRegex : ∀ pattern, motive (.nameRegex pattern))
    (xattr : ∀ key cmp value, motive (.xattr key cmp value))
    (inPool : ∀ pool, motive (.inPool pool))
    (onOst : ∀ osts, motive (.onOst osts))
    (hsmStateEq : ∀ state, motive (.hsmStateEq state))
    (tags : ∀ matchTags, motive (.tags matchTags))
    (true : motive .true) (false : motive .false) (p : Predicate) : motive p :=
  @Predicate.rec motive (fun cs => ∀ c ∈ cs, motive c) and or not cmp nameLike inameLike nameRegex xattr
    inPool onOst hsmStateEq tags true false (fun _ h => absurd h List.not_mem_nil)
    (fun _ _ hc hcs _ h => (List.mem_cons.1 h).elim (fun e => e ▸ hc) (hcs _)) p

/-! ## §2 — evaluation -/

/-- `str::to_lowercase` and `str::to_uppercase`, and a search of a regular expression in a text; `none`
where the expression is malformed. -/
structure TextLibrary where
  toLowercase : String → String
  toUppercase : String → String
  isMatch : String → String → Option Bool

section
variable {α : Type} [DecidableEq α] [LT α] [LE α] [DecidableLT α] [DecidableLE α]

def cmpOrd (a : α) (op : CmpOp) (b : α) : Bool :=
  match op with
  | .eq => a = b
  | .ne => a ≠ b
  | .gt => b < a
  | .ge => b ≤ a
  | .lt => a < b
  | .le => a ≤ b

end

def compare : Value → CmpOp → Value → Bool
  | .num a, op, .num b => cmpOrd a op b
  | .str a, op, .str b => cmpOrd a op b
  | _, _, _ => .false

/-- Clamp a `u64` to `i64`. -/
def clampU64 (v : UInt64) : Int64 := if v.toNat < 2 ^ 63 then Int64.ofNat v.toNat else Int64.maxValue

def extractField (field : Field) (entry : ScopedEntryRow) : Value :=
  .num <| match field with
    | .size => clampU64 entry.size
    | .blocks => clampU64 entry.blocks
    | .uid => Int64.ofNat entry.uid.toNat
    | .gid => Int64.ofNat entry.gid.toNat
    | .projid => Int64.ofNat entry.projid.toNat
    | .mode => Int64.ofNat entry.mode.toNat
    | .nlink => Int64.ofNat entry.nlink.toNat
    | .mtime => Int64.ofInt entry.mtime
    | .atime => Int64.ofInt entry.atime
    | .ctime => Int64.ofInt entry.ctime
    | .kind => Int64.ofNat entry.kind.toNat
    | .stripeCount => Int64.ofNat (entry.stripeCount.getD 0).toNat
    | .stripeSize => Int64.ofNat (entry.stripeSize.getD 0).toNat
    | .lastSeen => Int64.ofInt entry.lastSeen
    | .depth => Int64.ofNat entry.depth.toNat

def maxLikePatternLen : ℕ := 256

/-- `like_match`: `%` is any run of bytes, `_` any one byte. -/
def likeMatch (text : List UInt8) (pattern : List UInt8) : Bool :=
  if pattern.length > maxLikePatternLen then .false
  else match pattern with
    | [] => text.isEmpty
    | c :: rest =>
      if c = '%'.toUInt8 then (List.range (text.length + 1)).any fun i => likeMatch (text.drop i) rest
      else match text with
        | [] => .false
        | t :: text => if c = '_'.toUInt8 then likeMatch text rest else t = c && likeMatch text rest

def toAsciiLowercase (name : Name) : Name :=
  name.map fun b => if 'A'.toUInt8 ≤ b ∧ b ≤ 'Z'.toUInt8 then b + 32 else b

variable (lib : TextLibrary)

mutual

/-- **`matches`**: evaluation in memory. -/
def matchesEntry (entry : ScopedEntryRow) : Predicate → Bool
  | .true => .true
  | .false => .false
  | and children => matchesAll entry children
  | or children => matchesAny entry children
  | not inner => !matchesEntry entry inner
  | cmp field op value => compare (extractField field entry) op value
  | nameLike pattern => likeMatch entry.name pattern.toUTF8.toList
  | inameLike pattern => likeMatch (toAsciiLowercase entry.name) (lib.toLowercase pattern).toUTF8.toList
  | nameRegex pattern =>
    match String.fromUTF8? ⟨entry.name.toArray⟩ with
    | some name => (lib.isMatch pattern name).getD .false
    | none => .false
  | xattr key op value =>
    match (entry.smStatus.get "xattr").bind (Json.get key), value with
    | some (.str s), .str rhs => compare (.str s) op (.str rhs)
    | some (.int n), .num rhs => compare (.num ((Json.int n).asI64.getD 0)) op (.num rhs)
    | some (.float _), .num rhs => compare (.num 0) op (.num rhs)
    | _, _ => .false
  | inPool pool => entry.poolName = some pool
  | hsmStateEq state => (entry.smStatus.get "hsm_state").bind Json.asStr = some state
  -- an entry in memory has no list of OSTs
  | onOst _ => .false
  | tags matchTags =>
    matchTags.isEmpty || matchTags.toList.all fun (k, v) =>
      ((entry.smStatus.get "xattr").bind (Json.get k)).bind Json.asStr = some v

def matchesAll (entry : ScopedEntryRow) : List Predicate → Bool
  | [] => .true
  | c :: cs => matchesEntry entry c && matchesAll entry cs

def matchesAny (entry : ScopedEntryRow) : List Predicate → Bool
  | [] => .false
  | c :: cs => matchesEntry entry c || matchesAny entry cs

end

end Predicate

end Robinhood
