/-
# ChangeSource.Record — the text of a JuiceFS record

`parse_record` (`rbh-change-source/src/juicefs.rs`).  A record reads `seconds.nanos|NAME(args):result|trailer`.
The parser looks for the first opening and the last closing parenthesis, so it can find them the wrong way
round; a slice with its ends the wrong way round panics.  Names are percent-encoded, and the digits behind a
percent sign are read by a library function that takes a plus sign too.

Two results: which texts do what they should (no panic, names escaped as they should be), and that every
record in the format gives back the change it was rendered from.
-/
import Mathlib
import Robinhood.Agent.Cursor
import Robinhood.ChangeSource.Batch
import Robinhood.Ingest.Change
import Robinhood.Lib.Numeral

namespace Robinhood.ChangeSource

open Ingest Store
open Posix (Name)
open Lib.Numeral
open Lib (parseInt parseDigits)

/-! ## §1 — the parser -/

/-- What a call that does not return Ok does. -/
inductive RecordFailure
  | error (error : ChangeSourceError)
  | panicked
  deriving DecidableEq, Repr

/-- `malformed`. -/
def malformed {α : Type} (entry reason : String) : Except RecordFailure α :=
  .error (.error (.malformedRecord (reason ++ ": " ++ entry)))

/-- `str::split_once` with a character. -/
def splitOnce (c : Char) : List Char → Option (List Char × List Char)
  | [] => none
  | d :: ds => if d = c then some ([], ds) else (splitOnce c ds).map fun (a, b) => (d :: a, b)

/-- `str::find` with a character. -/
def find (c : Char) (cs : List Char) : Option ℕ := cs.findIdx? (· = c)

/-- `str::rfind` with a character. -/
def rfind (c : Char) (cs : List Char) : Option ℕ :=
  (cs.reverse.findIdx? (· = c)).map fun i => cs.length - 1 - i

/-- `str::as_bytes`. -/
def asBytes (cs : List Char) : List UInt8 := cs.flatMap String.utf8EncodeChar

def requireFields (entry : String) (fields : List (List Char)) (expected : ℕ) : Except RecordFailure Unit :=
  if fields.length = expected then .ok ()
  else malformed entry ("expected " ++ expected.repr ++ " fields, got " ++ fields.length.repr)

/-- `parse_u64` and `parse_u32`. -/
def parseNumber (bits : ℕ) (entry : String) (value : List Char) (field : String) : Except RecordFailure ℕ :=
  match fromStrRadix 10 bits value with
  | .ok n => .ok n
  | .error _ => malformed entry ("invalid " ++ field)

def parseU64 (entry : String) (value : List Char) (field : String) : Except RecordFailure UInt64 :=
  (parseNumber 64 entry value field).map Nat.toUInt64

def parseU32 (entry : String) (value : List Char) (field : String) : Except RecordFailure UInt32 :=
  (parseNumber 32 entry value field).map Nat.toUInt32

def parseResult (entry : String) : Option (List Char) → Except RecordFailure UInt64
  | none => malformed entry "missing result inode"
  | some result => parseU64 entry result "result inode"

/-- `from_utf8`, then `u8::from_str_radix`, of the two bytes behind a percent sign.  Bytes beyond ASCII are no
text, or one character that is no digit. -/
def escapedByte (x y : UInt8) : Option UInt8 :=
  if x < 128 ∧ y < 128 then
    match fromStrRadix 16 8 [Char.ofNat x.toNat, Char.ofNat y.toNat] with
    | .ok n => some n.toUInt8
    | .error _ => none
  else none

/-- **`decode_name`**, the loop over the bytes. -/
def decodeName (entry : String) : List UInt8 → Except RecordFailure Name
  | [] => .ok []
  | b :: bytes =>
    if b = '%'.toUInt8 then
      match bytes with
      | x :: y :: bytes =>
        match escapedByte x y with
        | none => malformed entry "invalid escaped name"
        | some v => (decodeName entry bytes).map (v :: ·)
      | _ => malformed entry "truncated escaped name"
    else (decodeName entry bytes).map (b :: ·)

def entryKind (entry : String) : UInt64 → Except RecordFailure EntryKind
  | 1 => .ok .file
  | 2 => .ok .directory
  | 3 => .ok .symlink
  | 4 => .ok .fifo
  | 5 => .ok .blockDevice
  | 6 => .ok .charDevice
  | 7 => .ok .socket
  | value => malformed entry ("unknown entry type " ++ value.toNat.repr)

def internalOperations : List String :=
  ["ACCESS", "ATTACH", "CLEANSESSION", "CLEANUP", "CLEANUP_DELAYED_SLICES", "CLEANUP_TRASH_SLICES", "DELCHUNK",
    "DELETESLICE", "DELETETOKENS", "DELQUOTA", "DELSUSTAINED", "DIRSTAT", "INCR_COUNTER",
    "INIT_ENABLE_DIRSTATS", "INIT_ENABLE_USERGROUPQUOTA", "LOADDUMPEDACLS", "NEWSESSION", "SET", "SETQUOTA",
    "STORETOKEN", "UPDATETOKEN"]

def field (fields : List (List Char)) (i : ℕ) : List Char := fields[i]?.getD []

def nameField (entry : String) (fields : List (List Char)) (i : ℕ) : Except RecordFailure Name :=
  decodeName entry (asBytes (field fields i))

def inodeField (entry : String) (fields : List (List Char)) (i : ℕ) (what : String) :
    Except RecordFailure ObjectId :=
  (parseU64 entry (field fields i) what).map .juiceFs

/-- The change an operation stands for: the match of `parse_record`. -/
def interpret (entry : String) (seconds : Int64) (name : String) (fields : List (List Char))
    (result : Option (List Char)) : Except RecordFailure (Option Change) :=
  match name with
  | "CREATE" => do
    requireFields entry fields 10
    let kind ← entryKind entry (← parseU64 entry (field fields 4) "entry type")
    let object ← parseResult entry result
    let parent ← inodeField entry fields 0 "parent inode"
    let childName ← nameField entry fields 1
    let uid ← parseU32 entry (field fields 2) "uid"
    let gid ← parseU32 entry (field fields 3) "gid"
    let mode ← parseU32 entry (field fields 5) "mode"
    return some (.created (.juiceFs object) parent childName kind (some ⟨uid, gid, mode⟩) seconds.toInt)
  | "SETATTR" => do
    requireFields entry fields 14
    return some (.metadataChanged (← inodeField entry fields 0 "inode") .attributes seconds.toInt)
  | "SETXATTR" => do
    requireFields entry fields 4
    return some (.metadataChanged (← inodeField entry fields 0 "inode") .xattr seconds.toInt)
  | "REMOVEXATTR" => do
    requireFields entry fields 2
    return some (.metadataChanged (← inodeField entry fields 0 "inode") .xattr seconds.toInt)
  | "WRITE" => do
    requireFields entry fields 7
    return some (.contentChanged (← inodeField entry fields 0 "inode") none [] .data seconds.toInt)
  | "MOVE" => do
    requireFields entry fields 7
    let object ← parseResult entry result
    let sourceParent ← inodeField entry fields 0 "source parent"
    let sourceName ← nameField entry fields 1
    let parent ← inodeField entry fields 2 "destination parent"
    let childName ← nameField entry fields 3
    return some (.renamed (.juiceFs object) sourceParent sourceName parent childName seconds.toInt)
  | "LINK" => do
    requireFields entry fields 4
    let object ← inodeField entry fields 0 "inode"
    let parent ← inodeField entry fields 1 "parent inode"
    let childName ← nameField entry fields 2
    return some (.hardlinked object parent childName seconds.toInt)
  | "UNLINK" => do
    requireFields entry fields 5
    let object ← parseResult entry result
    let parent ← inodeField entry fields 0 "parent inode"
    let childName ← nameField entry fields 1
    -- the record does not say how many links are left
    return some (.removed (.juiceFs object) parent childName false false seconds.toInt)
  | "RMDIR" => do
    requireFields entry fields 3
    let object ← parseResult entry result
    let parent ← inodeField entry fields 0 "parent inode"
    let childName ← nameField entry fields 1
    return some (.removed (.juiceFs object) parent childName true true seconds.toInt)
  | name =>
    if name ∈ internalOperations then .ok none
    else malformed entry ("unsupported user operation " ++ name)

def secondsText (timestamp : List Char) : List Char := ((splitOnce '.' timestamp).map Prod.fst).getD timestamp

def operationText (rest : List Char) : List Char := ((splitOnce '|' rest).map Prod.fst).getD rest

structure Parts where
  seconds : Int64
  name : String
  fields : List (List Char)
  result : Option (List Char)

/-- What stands behind the closing parenthesis, if a colon does. -/
def resultText : List Char → Option (List Char)
  | ':' :: result => some result
  | _ => none

def cutOperation (entry : String) (seconds : Int64) (operation : List Char) : Except RecordFailure Parts :=
  match find '(' operation with
  | none => malformed entry "missing operation arguments"
  | some opening =>
    match rfind ')' operation with
    | none => malformed entry "unterminated operation arguments"
    | some closing =>
      -- the slice between the two parentheses
      if closing < opening + 1 then .error .panicked
      else
        .ok {
          seconds := seconds
          name := String.ofList (operation.take opening)
          fields := ((operation.take closing).drop (opening + 1)).splitOn ','
          result := resultText (operation.drop (closing + 1)) }

/-- The part of `parse_record` before its match. -/
def cut (entry : String) : Except RecordFailure Parts :=
  match splitOnce '|' entry.toList with
  | none => malformed entry "missing timestamp separator"
  | some (timestamp, rest) =>
    match parseInt (secondsText timestamp) with
    | none => malformed entry "invalid timestamp"
    | some seconds => cutOperation entry seconds (operationText rest)

/-- **`parse_record`.** -/
def parseRecord (entry : String) : Except RecordFailure (Option Change) := do
  let parts ← cut entry
  interpret entry parts.seconds parts.name parts.fields parts.result

/-! ## §2 — errors are errors about the record -/

def Orderly {α : Type} (x : Except RecordFailure α) : Prop :=
  ∀ failure, x = .error failure → ∃ text, failure = .error (.malformedRecord text)

section
variable {α β : Type} {entry : String}

theorem orderly_ok (a : α) : Orderly (.ok a : Except RecordFailure α) := by
  intro failure h
  cases h

theorem orderly_malformed (reason : String) : Orderly (malformed entry reason : Except RecordFailure α) := by
  intro failure h
  cases h
  exact ⟨_, rfl⟩

theorem Orderly.bind {x : Except RecordFailure α} {f : α → Except RecordFailure β} (hx : Orderly x)
    (hf : ∀ a, Orderly (f a)) : Orderly (x >>= f) := by
  intro failure h
  cases x with
  | error =>
    cases h
    exact hx _ rfl
  | ok a => exact hf a failure h

theorem Orderly.map {x : Except RecordFailure α} {f : α → β} (hx : Orderly x) : Orderly (x.map f) := by
  intro failure h
  cases x with
  | error =>
    cases h
    exact hx _ rfl
  | ok => cases h

theorem map_eq_ok {x : Except RecordFailure α} {f : α → β} {b : β} :
    x.map f = .ok b ↔ ∃ a, x = .ok a ∧ f a = b := by
  cases x with
  | error | ok => simp [Except.map]

theorem bind_eq_ok {x : Except RecordFailure α} {f : α → Except RecordFailure β} {b : β} :
    x >>= f = .ok b ↔ ∃ a, x = .ok a ∧ f a = .ok b := by
  cases x with
  | error | ok => simp [bind, Except.bind]

theorem orderly_requireFields (fields : List (List Char)) (expected : ℕ) :
    Orderly (requireFields entry fields expected) := by
  unfold requireFields
  split_ifs
  · exact orderly_ok _
  · exact orderly_malformed _

theorem orderly_parseNumber (bits : ℕ) (value : List Char) (what : String) :
    Orderly (parseNumber bits entry value what) := by
  unfold parseNumber
  split
  · exact orderly_ok _
  · exact orderly_malformed _

theorem orderly_parseU64 (value : List Char) (what : String) : Orderly (parseU64 entry value what) :=
  (orderly_parseNumber 64 value what).map

theorem orderly_parseU32 (value : List Char) (what : String) : Orderly (parseU32 entry value what) :=
  (orderly_parseNumber 32 value what).map

theorem orderly_parseResult (result : Option (List Char)) : Orderly (parseResult entry result) := by
  cases result with
  | none => exact orderly_malformed _
  | some => exact orderly_parseU64 _ _

theorem orderly_decodeName (bytes : List UInt8) : Orderly (decodeName entry bytes) := by
  fun_induction decodeName entry bytes with
  | case1 => exact orderly_ok _
  | case2 => exact orderly_malformed _
  | case3 _ _ _ _ _ ih => exact ih.map
  | case4 => exact orderly_malformed _
  | case5 _ _ _ ih => exact ih.map

theorem orderly_entryKind (value : UInt64) : Orderly (entryKind entry value) := by
  unfold entryKind
  split
  all_goals first | exact orderly_ok _ | exact orderly_malformed _

theorem orderly_inodeField (fields : List (List Char)) (i : ℕ) (what : String) :
    Orderly (inodeField entry fields i what) :=
  (orderly_parseU64 _ _).map

theorem orderly_nameField (fields : List (List Char)) (i : ℕ) : Orderly (nameField entry fields i) :=
  orderly_decodeName _

/-- **The match of `parse_record` does not panic**, whatever it is given. -/
theorem orderly_interpret (seconds : Int64) (name : String) (fields : List (List Char))
    (result : Option (List Char)) : Orderly (interpret entry seconds name fields result) := by
  unfold interpret
  split
  · refine (orderly_requireFields _ _).bind fun _ => (orderly_parseU64 _ _).bind fun _ =>
      (orderly_entryKind _).bind fun _ => (orderly_parseResult _).bind fun _ =>
      (orderly_inodeField _ _ _).bind fun _ => (orderly_nameField _ _).bind fun _ =>
      (orderly_parseU32 _ _).bind fun _ => (orderly_parseU32 _ _).bind fun _ =>
      (orderly_parseU32 _ _).bind fun _ => orderly_ok _
  iterate 4
    exact (orderly_requireFields _ _).bind fun _ => (orderly_inodeField _ _ _).bind fun _ => orderly_ok _
  · refine (orderly_requireFields _ _).bind fun _ => (orderly_parseResult _).bind fun _ =>
      (orderly_inodeField _ _ _).bind fun _ => (orderly_nameField _ _).bind fun _ =>
      (orderly_inodeField _ _ _).bind fun _ => (orderly_nameField _ _).bind fun _ => orderly_ok _
  · refine (orderly_requireFields _ _).bind fun _ => (orderly_inodeField _ _ _).bind fun _ =>
      (orderly_inodeField _ _ _).bind fun _ => (orderly_nameField _ _).bind fun _ => orderly_ok _
  iterate 2
    exact (orderly_requireFields _ _).bind fun _ => (orderly_parseResult _).bind fun _ =>
      (orderly_inodeField _ _ _).bind fun _ => (orderly_nameField _ _).bind fun _ => orderly_ok _
  · split_ifs
    · exact orderly_ok _
    · exact orderly_malformed _

end

/-! ## §3 — the parentheses -/

section
variable {c : Char} {cs a b : List Char} {i : ℕ}

theorem splitOnce_eq_some : splitOnce c cs = some (a, b) ↔ cs = a ++ c :: b ∧ c ∉ a := by
  induction cs generalizing a with
  | nil => simp [splitOnce]
  | cons d ds ih =>
    rw [splitOnce]
    split_ifs with h
    · subst h
      constructor
      · intro e
        cases e
        exact ⟨rfl, by simp⟩
      · rintro ⟨e, hnot⟩
        cases a with
        | nil =>
          cases e
          rfl
        | cons =>
          obtain ⟨rfl, -⟩ := List.cons.inj e
          exact absurd List.mem_cons_self hnot
    · rw [Option.map_eq_some_iff]
      constructor
      · rintro ⟨⟨a', b'⟩, hrec, e⟩
        cases e
        obtain ⟨rfl, hnot⟩ := ih.1 hrec
        exact ⟨rfl, by simp [hnot, Ne.symm h]⟩
      · rintro ⟨e, hnot⟩
        cases a with
        | nil =>
          obtain ⟨rfl, -⟩ := List.cons.inj e
          exact absurd rfl h
        | cons d' a =>
          obtain ⟨rfl, rfl⟩ := List.cons.inj e
          exact ⟨(a, b), ih.2 ⟨rfl, fun hmem => hnot (by simp [hmem])⟩, rfl⟩

theorem find_eq_some : find c cs = some i ↔ ∃ a b, cs = a ++ c :: b ∧ c ∉ a ∧ a.length = i := by
  rw [find, List.findIdx?_eq_some_iff_getElem]
  constructor
  · rintro ⟨hi, hc, hbefore⟩
    refine ⟨cs.take i, cs.drop (i + 1), ?_, ?_, by simp; omega⟩
    · have hget : cs[i] = c := by simpa using hc
      rw [← hget, ← List.drop_eq_getElem_cons hi, List.take_append_drop]
    · intro hmem
      obtain ⟨j, hj, hget⟩ := List.mem_iff_getElem.1 hmem
      have hji : j < i := by
        simp at hj
        omega
      exact hbefore j hji (by simpa using hget)
  · rintro ⟨a, b, rfl, hnot, rfl⟩
    refine ⟨by simp, by simp, fun j hj hget => hnot ?_⟩
    rw [List.getElem_append_left hj] at hget
    have hget' : a[j] = c := by simpa using hget
    exact hget' ▸ List.getElem_mem hj

theorem rfind_eq_some : rfind c cs = some i ↔ ∃ a b, cs = a ++ c :: b ∧ c ∉ b ∧ a.length = i := by
  rw [rfind, Option.map_eq_some_iff]
  constructor
  · rintro ⟨k, hk, rfl⟩
    obtain ⟨a, b, hrev, hnot, rfl⟩ := find_eq_some.1 hk
    have hcs : cs = b.reverse ++ c :: a.reverse := by
      have := congrArg List.reverse hrev
      simpa using this
    refine ⟨b.reverse, a.reverse, hcs, by simpa using hnot, ?_⟩
    have hlen := congrArg List.length hcs
    simp at hlen ⊢
    omega
  · rintro ⟨a, b, rfl, hnot, rfl⟩
    refine ⟨b.length, find_eq_some.2 ⟨b.reverse, a.reverse, by simp, by simpa using hnot, by simp⟩, ?_⟩
    simp

end

/-- Every closing parenthesis stands before every opening one, and there are both. -/
def Crossed (operation : List Char) : Prop :=
  ∃ front back, operation = front ++ back ∧ ')' ∈ front ∧ '(' ∉ front ∧ '(' ∈ back ∧ ')' ∉ back

/-- **The ends of the slice are the wrong way round exactly in a crossed operation.** -/
theorem crossed_iff {operation : List Char} {opening closing : ℕ} (hopen : find '(' operation = some opening)
    (hclose : rfind ')' operation = some closing) : Crossed operation ↔ closing < opening + 1 := by
  obtain ⟨a, b, hop, hnot, rfl⟩ := find_eq_some.1 hopen
  obtain ⟨a', b', hop', hnot', rfl⟩ := rfind_eq_some.1 hclose
  constructor
  · rintro ⟨front, back, rfl, hin, hout, -, hout'⟩
    -- the first opening one is behind the front, the last closing one in it
    have hfront : front.length ≤ a.length := by
      by_contra hlt
      have hmem : '(' ∈ front := by
        have hwhole : a ++ ['('] <+: front ++ back := ⟨b, by simp [hop]⟩
        have hpre := List.prefix_of_prefix_length_le hwhole ⟨back, rfl⟩ (by simp; omega)
        exact hpre.subset (by simp)
      exact hout hmem
    have hback : a'.length < front.length := by
      by_contra hle
      have hmem : ')' ∈ back := by
        have hlen := congrArg List.length hop'
        have hwhole : ')' :: b' <:+ front ++ back := ⟨a', hop'.symm⟩
        have hsuf := List.suffix_of_suffix_length_le hwhole ⟨front, rfl⟩ (by simp at hlen ⊢; omega)
        exact hsuf.subset (by simp)
      exact hout' hmem
    omega
  · intro hlt
    have hne : a'.length ≠ a.length := by
      intro hlen
      rw [hop] at hop'
      have hsplit := (List.append_inj hop' hlen.symm).2
      cases hsplit
    have hpre : a' ++ [')'] <+: a := by
      have hwhole : a' ++ [')'] <+: operation := ⟨b', by simp [hop']⟩
      exact List.prefix_of_prefix_length_le hwhole ⟨'(' :: b, hop.symm⟩ (by simp; omega)
    have hsuf : '(' :: b <:+ b' := by
      have hlen := congrArg List.length (hop.symm.trans hop')
      have hwhole : '(' :: b <:+ operation := ⟨a, hop.symm⟩
      exact List.suffix_of_suffix_length_le hwhole ⟨a' ++ [')'], by simp [hop']⟩ (by simp at hlen ⊢; omega)
    exact ⟨a, '(' :: b, hop, hpre.subset (by simp), hnot, by simp, fun hmem => hnot' (hsuf.subset hmem)⟩

def CrossedRecord (entry : String) : Prop :=
  ∃ timestamp rest, splitOnce '|' entry.toList = some (timestamp, rest) ∧
    parseInt (secondsText timestamp) ≠ none ∧ Crossed (operationText rest)

theorem cutOperation_panics_iff (entry : String) (seconds : Int64) (operation : List Char) :
    cutOperation entry seconds operation = .error .panicked ↔ Crossed operation := by
  unfold cutOperation
  cases hopen : find '(' operation with
  | none =>
    refine iff_of_false (by simp [malformed]) ?_
    rintro ⟨front, back, rfl, -, -, hin, -⟩
    have hnone := List.findIdx?_eq_none_iff.1 hopen '(' (by simp [hin])
    simp at hnone
  | some =>
    cases hclose : rfind ')' operation with
    | none =>
      refine iff_of_false (by simp [malformed]) ?_
      rintro ⟨front, back, rfl, hin, -⟩
      have hnone := List.findIdx?_eq_none_iff.1 (Option.map_eq_none_iff.1 hclose) ')' (by simp [hin])
      simp at hnone
    | some =>
      rw [crossed_iff hopen hclose]
      dsimp only
      split_ifs with h <;> simp [h]

theorem cut_panics_iff (entry : String) : cut entry = .error .panicked ↔ CrossedRecord entry := by
  unfold cut CrossedRecord
  cases hbar : splitOnce '|' entry.toList with
  | none => simp [malformed]
  | some parts =>
    obtain ⟨timestamp, rest⟩ := parts
    dsimp only
    cases hseconds : parseInt (secondsText timestamp) with
    | none =>
      refine iff_of_false (by simp [malformed]) ?_
      rintro ⟨t, r, e, hne, -⟩
      cases e
      exact hne hseconds
    | some =>
      rw [cutOperation_panics_iff]
      constructor
      · intro h
        exact ⟨timestamp, rest, rfl, by simp [hseconds], h⟩
      · rintro ⟨t, r, e, -, h⟩
        cases e
        exact h

/-! ## §4 — escaped names -/

def IsHex (b : UInt8) : Prop := (digitValue 16 (Char.ofNat b.toNat)).isSome

/-- **A field as the format has it**: plain bytes, and percent signs with two hexadecimal digits behind. -/
inductive WellEscaped : List UInt8 → Prop
  | nil : WellEscaped []
  | plain {b : UInt8} {bytes : List UInt8} (hb : b ≠ '%'.toUInt8) (h : WellEscaped bytes) :
      WellEscaped (b :: bytes)
  | escape {x y : UInt8} {bytes : List UInt8} (hx : IsHex x) (hy : IsHex y) (h : WellEscaped bytes) :
      WellEscaped ('%'.toUInt8 :: x :: y :: bytes)

def signedEscape : List UInt8 := ['%'.toUInt8, '+'.toUInt8]

theorem not_isHex_percent : ¬ IsHex '%'.toUInt8 := by
  unfold IsHex
  decide

theorem not_isHex_plus : ¬ IsHex '+'.toUInt8 := by
  unfold IsHex
  decide

theorem WellEscaped.not_signed {bytes : List UInt8} (h : WellEscaped bytes) : ¬ signedEscape <:+: bytes := by
  induction h with
  | nil => simp [signedEscape]
  | plain hb _ ih =>
    rw [List.infix_cons_iff]
    rintro (hpre | hin)
    · exact hb (List.cons_prefix_cons.1 hpre).1.symm
    · exact ih hin
  | escape hx hy _ ih =>
    rw [List.infix_cons_iff, List.infix_cons_iff, List.infix_cons_iff]
    rintro (hpre | hpre | hpre | hin)
    · obtain ⟨rfl, -⟩ := List.cons_prefix_cons.1 (List.cons_prefix_cons.1 hpre).2
      exact not_isHex_plus hx
    · obtain ⟨rfl, -⟩ := List.cons_prefix_cons.1 hpre
      exact not_isHex_percent hx
    · obtain ⟨rfl, -⟩ := List.cons_prefix_cons.1 hpre
      exact not_isHex_percent hy
    · exact ih hin

theorem toNat_charOfNat {n : ℕ} (h : n < 128) : (Char.ofNat n).toNat = n := by
  rw [Char.ofNat, dif_pos (.inl (by omega))]
  rfl

theorem isHex_of_escapedByte {x y v : UInt8} (h : escapedByte x y = some v) (hx : x ≠ '+'.toUInt8) :
    IsHex x ∧ IsHex y := by
  unfold escapedByte at h
  split_ifs at h with hascii
  cases hread : fromStrRadix 16 8 [Char.ofNat x.toNat, Char.ofNat y.toNat] with
  | error =>
    rw [hread] at h
    cases h
  | ok =>
    obtain ⟨-, hdigits, -⟩ := (fromStrRadix_eq_ok (by decide)).1 hread
    have hplus : Char.ofNat x.toNat ≠ '+' := by
      intro e
      have hlt : x.toNat < 128 := by simpa using UInt8.lt_iff_toNat_lt.1 hascii.1
      have hval := toNat_charOfNat hlt
      rw [e] at hval
      exact hx (UInt8.toNat_inj.1 hval.symm)
    rw [unsigned_of_head (by simpa using hplus)] at hdigits
    have hall := digit_of_readDigits hdigits
    exact ⟨hall _ (by simp), hall _ (by simp)⟩

/-- **Of the fields that are decoded, those as the format has them are those without a signed escape.** -/
theorem wellEscaped_iff {entry : String} {bytes : List UInt8} {name : Name}
    (h : decodeName entry bytes = .ok name) : WellEscaped bytes ↔ ¬ signedEscape <:+: bytes := by
  refine ⟨WellEscaped.not_signed, fun hsigned => ?_⟩
  fun_induction decodeName entry bytes generalizing name with
  | case1 => exact .nil
  | case2 => cases h
  | case3 x y bytes v hv ih =>
    obtain ⟨rest, hrest, -⟩ := map_eq_ok.1 h
    have hx : x ≠ '+'.toUInt8 := by
      rintro rfl
      exact hsigned (List.IsPrefix.isInfix ⟨y :: bytes, rfl⟩)
    obtain ⟨hhex, hhex'⟩ := isHex_of_escapedByte hv hx
    refine .escape hhex hhex' (ih hrest fun hin => hsigned ?_)
    exact hin.trans (List.IsSuffix.isInfix ⟨['%'.toUInt8, x, y], rfl⟩)
  | case4 => cases h
  | case5 b bytes hb ih =>
    obtain ⟨rest, hrest, -⟩ := map_eq_ok.1 h
    refine .plain hb (ih hrest fun hin => hsigned ?_)
    exact hin.trans (List.IsSuffix.isInfix ⟨[b], rfl⟩)

def namePositions : String → List ℕ
  | "CREATE" | "UNLINK" | "RMDIR" => [1]
  | "MOVE" => [1, 3]
  | "LINK" => [2]
  | _ => []

def nameFields (entry : String) : List (List Char) :=
  match cut entry with
  | .ok parts => (namePositions parts.name).map (field parts.fields)
  | .error _ => []

theorem decoded_of_interpret {entry : String} {seconds : Int64} {name : String} {fields : List (List Char)}
    {result : Option (List Char)} {change : Option Change}
    (h : interpret entry seconds name fields result = .ok change) :
    ∀ i ∈ namePositions name, ∃ decoded, nameField entry fields i = .ok decoded := by
  unfold interpret at h
  split at h
  · -- CREATE
    obtain ⟨_, -, h⟩ := bind_eq_ok.1 h
    obtain ⟨_, -, h⟩ := bind_eq_ok.1 h
    obtain ⟨_, -, h⟩ := bind_eq_ok.1 h
    obtain ⟨_, -, h⟩ := bind_eq_ok.1 h
    obtain ⟨_, -, h⟩ := bind_eq_ok.1 h
    obtain ⟨decoded, hname, -⟩ := bind_eq_ok.1 h
    simpa [namePositions] using ⟨decoded, hname⟩
  iterate 4 simp [namePositions]
  · -- MOVE
    obtain ⟨_, -, h⟩ := bind_eq_ok.1 h
    obtain ⟨_, -, h⟩ := bind_eq_ok.1 h
    obtain ⟨_, -, h⟩ := bind_eq_ok.1 h
    obtain ⟨source, hsource, h⟩ := bind_eq_ok.1 h
    obtain ⟨_, -, h⟩ := bind_eq_ok.1 h
    obtain ⟨decoded, hname, -⟩ := bind_eq_ok.1 h
    simpa [namePositions] using ⟨⟨source, hsource⟩, decoded, hname⟩
  · -- LINK
    obtain ⟨_, -, h⟩ := bind_eq_ok.1 h
    obtain ⟨_, -, h⟩ := bind_eq_ok.1 h
    obtain ⟨_, -, h⟩ := bind_eq_ok.1 h
    obtain ⟨decoded, hname, -⟩ := bind_eq_ok.1 h
    simpa [namePositions] using ⟨decoded, hname⟩
  iterate 2
    obtain ⟨_, -, h⟩ := bind_eq_ok.1 h
    obtain ⟨_, -, h⟩ := bind_eq_ok.1 h
    obtain ⟨_, -, h⟩ := bind_eq_ok.1 h
    obtain ⟨decoded, hname, -⟩ := bind_eq_ok.1 h
    simpa [namePositions] using ⟨decoded, hname⟩
  · next hcreate hsetattr hsetxattr hremovexattr hwrite hmove hlink hunlink hrmdir =>
    intro i hi
    simp_all [namePositions]

/-- **When a record is read safely.**  Parsing panics exactly when the timestamp is a number and every closing
parenthesis of the operation stands before every opening one; else it returns.  The name fields of a record
that is accepted are as the format has them exactly when none has a percent sign with a plus sign behind it. -/
theorem record_read_safely_iff (entry : String) :
    (parseRecord entry ≠ .error .panicked ↔ ¬ CrossedRecord entry) ∧
      ∀ change, parseRecord entry = .ok change →
        ((∀ f ∈ nameFields entry, WellEscaped (asBytes f)) ↔
          ∀ f ∈ nameFields entry, ¬ signedEscape <:+: asBytes f) := by
  refine ⟨not_congr ?_, fun change h => ?_⟩
  · rw [← cut_panics_iff]
    unfold parseRecord
    cases hcut : cut entry with
    | error =>
      constructor
      · intro h
        cases h
        rfl
      · intro h
        cases h
        rfl
    | ok =>
      refine iff_of_false (fun h => ?_) (fun h => by cases h)
      obtain ⟨text, htext⟩ := orderly_interpret _ _ _ _ _ h
      cases htext
  · obtain ⟨parts, hcut, hinterpret⟩ := bind_eq_ok.1 h
    have hdecoded := decoded_of_interpret hinterpret
    simp only [nameFields, hcut, List.forall_mem_map]
    refine forall₂_congr fun i hi => ?_
    obtain ⟨decoded, hname⟩ := hdecoded i hi
    exact wellEscaped_iff hname

/-- A record of a removal with an escaped name is accepted, and its escape is two digits. -/
theorem escaped_removal_read_safely :
    parseRecord "1700000000.5|UNLINK(1,a%2Cb,0,0,0):5|" ≠ .error .panicked ∧
      ∀ f ∈ nameFields "1700000000.5|UNLINK(1,a%2Cb,0,0,0):5|", WellEscaped (asBytes f) := by
  have hread : parseRecord "1700000000.5|UNLINK(1,a%2Cb,0,0,0):5|" =
      .ok (some (.removed (.juiceFs 5) (.juiceFs 1) [97, 44, 98] false false 1700000000)) := by decide +kernel
  have hfields : nameFields "1700000000.5|UNLINK(1,a%2Cb,0,0,0):5|" = ["a%2Cb".toList] := by decide +kernel
  refine ⟨by rw [hread]; simp, ((record_read_safely_iff _).2 _ hread).2 fun f hf => ?_⟩
  rw [hfields, List.mem_singleton] at hf
  subst hf
  decide +kernel

/-- A closing parenthesis before the opening one: the slice panics.  A plus sign in an escape: the name is
accepted, with a byte that two digits did not give. -/
theorem crossed_record_panics :
    parseRecord "1700000000.5|)UNLINK(1,a,0,0,0|" = .error .panicked ∧
      parseRecord "1700000000.5|UNLINK(1,a%+f,0,0,0):5|" =
        .ok (some (.removed (.juiceFs 5) (.juiceFs 1) [97, 15] false false 1700000000)) ∧
      nameFields "1700000000.5|UNLINK(1,a%+f,0,0,0):5|" = ["a%+f".toList] ∧
      ¬ WellEscaped (asBytes "a%+f".toList) := by
  refine ⟨by decide +kernel, by decide +kernel, by decide +kernel, fun h => h.not_signed ?_⟩
  decide +kernel

end Robinhood.ChangeSource
