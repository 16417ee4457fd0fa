/-
# ChangeSource.Format — the record format of JuiceFS

What JuiceFS writes into its changelog, `seconds.nanos|NAME(args):result|trailer`, as a value and as text: the
operations the catalog takes an interest in, with names percent-encoded, and with arguments nobody reads.
`parse_record` gives back exactly the change a record was rendered from.
-/
import Mathlib
import Robinhood.ChangeSource.Record

namespace Robinhood.ChangeSource

open Ingest Store
open Posix (Name)
open Lib.Numeral
open Lib (parseInt parseDigits parseDigits_toDigits parseInt_toDigits)

/-! ## §1 — rendering -/

def separators : List Char := [',', '(', ')', '|']

/-- A text without separators. -/
def Plain (cs : List Char) : Prop := ∀ c ∈ cs, c ∉ separators

/-- A byte that a name shows as it is: printable, and neither a separator nor a percent sign. -/
def Literal (b : UInt8) : Prop :=
  32 ≤ b.toNat ∧ b.toNat ≤ 126 ∧ Char.ofNat b.toNat ∉ '%' :: separators

instance (b : UInt8) : Decidable (Literal b) := inferInstanceAs (Decidable (_ ∧ _ ∧ _))

def hexChar (upper : Bool) (k : ℕ) : Char := if upper then k.digitChar.toUpper else k.digitChar

def escapeByte (upper : Bool) (b : UInt8) : List Char :=
  if Literal b then [Char.ofNat b.toNat]
  else ['%', hexChar upper (b.toNat / 16), hexChar upper (b.toNat % 16)]

/-- **A name, percent-encoded.** -/
def escapeName (upper : Bool) (name : Name) : List Char := name.flatMap (escapeByte upper)

/-- A signed number. -/
def decimal (n : ℤ) : List Char :=
  if n < 0 then '-' :: Nat.toDigits 10 n.natAbs else Nat.toDigits 10 n.natAbs

def digits64 (n : UInt64) : List Char := Nat.toDigits 10 n.toNat

def digits32 (n : UInt32) : List Char := Nat.toDigits 10 n.toNat

/-- So many arguments that nothing reads. -/
structure Unused (count : ℕ) where
  texts : List (List Char)
  length_eq : texts.length = count
  plain : ∀ t ∈ texts, Plain t

/-- A result that nothing reads. -/
structure PlainText where
  text : List Char
  plain : Plain text

/-- **An operation of the changelog** that changes the catalog. -/
inductive Operation
  | create (parent : UInt64) (name : Name) (uid gid : UInt32) (kind : EntryKind) (mode : UInt32)
      (unused : Unused 4) (inode : UInt64)
  | setattr (inode : UInt64) (unused : Unused 13) (result : PlainText)
  | setxattr (inode : UInt64) (unused : Unused 3) (result : PlainText)
  | removexattr (inode : UInt64) (unused : Unused 1) (result : PlainText)
  | write (inode : UInt64) (unused : Unused 6) (result : PlainText)
  | move (sourceParent : UInt64) (sourceName : Name) (parent : UInt64) (name : Name) (unused : Unused 3)
      (inode : UInt64)
  | link (inode parent : UInt64) (name : Name) (unused : Unused 1) (result : PlainText)
  | unlink (parent : UInt64) (name : Name) (unused : Unused 3) (inode : UInt64)
  | rmdir (parent : UInt64) (name : Name) (unused : Unused 1) (inode : UInt64)

def kindNumber : EntryKind → UInt64
  | .file => 1
  | .directory => 2
  | .symlink => 3
  | .fifo => 4
  | .blockDevice => 5
  | .charDevice => 6
  | .socket => 7

namespace Operation

def name : Operation → String
  | create .. => "CREATE"
  | setattr .. => "SETATTR"
  | setxattr .. => "SETXATTR"
  | removexattr .. => "REMOVEXATTR"
  | write .. => "WRITE"
  | move .. => "MOVE"
  | link .. => "LINK"
  | unlink .. => "UNLINK"
  | rmdir .. => "RMDIR"

def args (upper : Bool) : Operation → List (List Char)
  | create parent name uid gid kind mode unused _ =>
    digits64 parent :: escapeName upper name :: digits32 uid :: digits32 gid :: digits64 (kindNumber kind) ::
      digits32 mode :: unused.texts
  | setattr inode unused _ => digits64 inode :: unused.texts
  | setxattr inode unused _ => digits64 inode :: unused.texts
  | removexattr inode unused _ => digits64 inode :: unused.texts
  | write inode unused _ => digits64 inode :: unused.texts
  | move sourceParent sourceName parent name unused _ =>
    digits64 sourceParent :: escapeName upper sourceName :: digits64 parent :: escapeName upper name ::
      unused.texts
  | link inode parent name unused _ =>
    digits64 inode :: digits64 parent :: escapeName upper name :: unused.texts
  | unlink parent name unused _ => digits64 parent :: escapeName upper name :: unused.texts
  | rmdir parent name unused _ => digits64 parent :: escapeName upper name :: unused.texts

def result : Operation → List Char
  | create _ _ _ _ _ _ _ inode | move _ _ _ _ _ inode | unlink _ _ _ inode | rmdir _ _ _ inode => digits64 inode
  | setattr _ _ result | setxattr _ _ result | removexattr _ _ result | write _ _ result
  | link _ _ _ _ result => result.text

def change (seconds : Int64) : Operation → Change
  | create parent name uid gid kind mode _ inode =>
    .created (.juiceFs inode) (.juiceFs parent) name kind (some ⟨uid, gid, mode⟩) seconds.toInt
  | setattr inode _ _ => .metadataChanged (.juiceFs inode) .attributes seconds.toInt
  | setxattr inode _ _ => .metadataChanged (.juiceFs inode) .xattr seconds.toInt
  | removexattr inode _ _ => .metadataChanged (.juiceFs inode) .xattr seconds.toInt
  | write inode _ _ => .contentChanged (.juiceFs inode) none [] .data seconds.toInt
  | move sourceParent sourceName parent name _ inode =>
    .renamed (.juiceFs inode) (.juiceFs sourceParent) sourceName (.juiceFs parent) name seconds.toInt
  | link inode parent name _ _ => .hardlinked (.juiceFs inode) (.juiceFs parent) name seconds.toInt
  | unlink parent name _ inode => .removed (.juiceFs inode) (.juiceFs parent) name false false seconds.toInt
  | rmdir parent name _ inode => .removed (.juiceFs inode) (.juiceFs parent) name true true seconds.toInt

/-- `NAME(args):result`. -/
def text (upper : Bool) (op : Operation) : List Char :=
  (op.name.toList ++ '(' :: [','].intercalate (op.args upper)) ++ ')' :: ':' :: op.result

end Operation

/-- **A record**: an operation, its time, and what is behind it. -/
structure LogRecord where
  seconds : Int64
  nanos : List Char
  nanos_bar : '|' ∉ nanos
  operation : Operation
  trailer : List Char
  /-- the case of the letters in escapes -/
  upper : Bool

/-- `seconds.nanos|NAME(args):result|trailer`. -/
def LogRecord.render (r : LogRecord) : String :=
  String.ofList ((decimal r.seconds.toInt ++ '.' :: r.nanos) ++ '|' ::
    (r.operation.text r.upper ++ '|' :: r.trailer))

/-! ## §2 — names -/

theorem asBytes_append (cs ds : List Char) : asBytes (cs ++ ds) = asBytes cs ++ asBytes ds :=
  List.flatMap_append

theorem asBytes_ascii {cs : List Char} (h : ∀ c ∈ cs, c.toNat < 128) :
    asBytes cs = cs.map fun c => UInt8.ofNat c.toNat := by
  induction cs with
  | nil => rfl
  | cons c cs ih =>
    have hc : c.toNat < 128 := h c (by simp)
    have hone : String.utf8EncodeChar c = [UInt8.ofNat c.toNat] := by
      rw [String.utf8EncodeChar]
      exact if_pos (show c.toNat ≤ 127 by omega)
    rw [show asBytes (c :: cs) = String.utf8EncodeChar c ++ asBytes cs from rfl, hone,
      ih fun d hd => h d (by simp [hd])]
    rfl

theorem hexChar_lt (upper : Bool) {k : ℕ} (hk : k < 16) : (hexChar upper k).toNat < 128 := by
  cases upper <;> interval_cases k <;> decide

theorem digitValue_hexChar (upper : Bool) {k : ℕ} (hk : k < 16) : digitValue 16 (hexChar upper k) = some k := by
  cases upper <;> interval_cases k <;> decide

theorem plain_hexChar (upper : Bool) {k : ℕ} (hk : k < 16) : hexChar upper k ∉ separators := by
  cases upper <;> interval_cases k <;> decide

/-- **The two digits of a byte give the byte.** -/
theorem escapedByte_hexChar (upper : Bool) (b : UInt8) :
    escapedByte (UInt8.ofNat (hexChar upper (b.toNat / 16)).toNat)
      (UInt8.ofNat (hexChar upper (b.toNat % 16)).toNat) = some b := by
  have hb : b.toNat < 256 := b.toNat_lt
  have hhi : b.toNat / 16 < 16 := by omega
  have hlo : b.toNat % 16 < 16 := by omega
  have hback : ∀ k < 16, Char.ofNat (UInt8.ofNat (hexChar upper k).toNat).toNat = hexChar upper k := by
    intro k hk
    have hlt := hexChar_lt upper hk
    rw [UInt8.toNat_ofNat_of_lt' (by rw [UInt8.size]; omega), Char.ofNat_toNat]
  have hascii : ∀ k < 16, UInt8.ofNat (hexChar upper k).toNat < 128 := by
    intro k hk
    have hlt := hexChar_lt upper hk
    rw [UInt8.lt_iff_toNat_lt, UInt8.toNat_ofNat_of_lt' (by rw [UInt8.size]; omega)]
    exact hlt
  have hread : fromStrRadix 16 8 [hexChar upper (b.toNat / 16), hexChar upper (b.toNat % 16)] =
      .ok b.toNat := by
    have hdigits : readDigits 16 [hexChar upper (b.toNat / 16), hexChar upper (b.toNat % 16)] =
        some b.toNat := by
      have hvalue : 16 * (b.toNat / 16) + b.toNat % 16 = b.toNat := Nat.div_add_mod _ _
      simp [readDigits, digitValue_hexChar upper hhi, digitValue_hexChar upper hlo, hvalue]
    have hplus : hexChar upper (b.toNat / 16) ≠ '+' := by
      intro e
      have hval := digitValue_hexChar upper hhi
      rw [e, digitValue_plus] at hval
      cases hval
    exact (fromStrRadix_eq_ok (by decide)).2 ⟨by simp, by rwa [unsigned_of_head (by simpa using hplus)], hb⟩
  rw [escapedByte, if_pos ⟨hascii _ hhi, hascii _ hlo⟩, hback _ hhi, hback _ hlo, hread]
  simp

/-- **An encoded name decodes to its bytes.** -/
theorem decodeName_escapeName (entry : String) (upper : Bool) (name : Name) :
    decodeName entry (asBytes (escapeName upper name)) = .ok name := by
  induction name with
  | nil => rfl
  | cons b name ih =>
    rw [escapeName, List.flatMap_cons, asBytes_append, escapeByte]
    split_ifs with hliteral
    · obtain ⟨hlo, hhi, hnot⟩ := hliteral
      have hval : (Char.ofNat b.toNat).toNat = b.toNat := toNat_charOfNat (by omega)
      have hbyte : asBytes [Char.ofNat b.toNat] = [b] := by
        rw [asBytes_ascii (by simp [hval]; omega)]
        simp [hval]
      have hne : b ≠ '%'.toUInt8 := by
        rintro rfl
        exact hnot (by decide)
      rw [hbyte, List.singleton_append, decodeName.eq_def]
      simp only [if_neg hne]
      rw [show asBytes (List.flatMap (escapeByte upper) name) = asBytes (escapeName upper name) from rfl, ih]
      rfl
    · have hb : b.toNat < 256 := b.toNat_lt
      have hbytes : asBytes ['%', hexChar upper (b.toNat / 16), hexChar upper (b.toNat % 16)] =
          ['%'.toUInt8, UInt8.ofNat (hexChar upper (b.toNat / 16)).toNat,
            UInt8.ofNat (hexChar upper (b.toNat % 16)).toNat] := by
        refine asBytes_ascii fun c hc => ?_
        simp only [List.mem_cons, List.not_mem_nil, or_false] at hc
        rcases hc with rfl | rfl | rfl
        · decide
        · exact hexChar_lt upper (by omega)
        · exact hexChar_lt upper (by omega)
      rw [hbytes]
      simp only [List.cons_append, List.nil_append, decodeName, if_true, escapedByte_hexChar]
      rw [show asBytes (List.flatMap (escapeByte upper) name) = asBytes (escapeName upper name) from rfl, ih]
      rfl

theorem plain_escapeName (upper : Bool) (name : Name) : Plain (escapeName upper name) := by
  intro c hc
  obtain ⟨b, -, hcb⟩ := List.mem_flatMap.1 hc
  unfold escapeByte at hcb
  split_ifs at hcb with hliteral
  · rw [List.mem_singleton] at hcb
    subst hcb
    exact fun hmem => hliteral.2.2 (by simp [hmem])
  · have hb : b.toNat < 256 := b.toNat_lt
    simp only [List.mem_cons, List.not_mem_nil, or_false] at hcb
    rcases hcb with rfl | rfl | rfl
    · decide
    · exact plain_hexChar upper (by omega)
    · exact plain_hexChar upper (by omega)

/-! ## §3 — numbers -/

theorem isDigit_of_mem_toDigits {n : ℕ} {c : Char} (h : c ∈ Nat.toDigits 10 n) : c.isDigit = true :=
  Nat.isDigit_of_mem_toDigits (by decide) (by decide) h

theorem plain_toDigits (n : ℕ) : Plain (Nat.toDigits 10 n) := by
  intro c hc hmem
  have hdigit := isDigit_of_mem_toDigits hc
  simp only [separators, List.mem_cons, List.not_mem_nil, or_false] at hmem
  rcases hmem with rfl | rfl | rfl | rfl <;> cases hdigit

theorem parseU64_digits64 (entry : String) (n : UInt64) (what : String) :
    parseU64 entry (digits64 n) what = .ok n := by
  have hread : fromStrRadix 10 64 (digits64 n) = .ok n.toNat :=
    fromStrRadix_toDigits (by decide) (by decide) n.toNat_lt
  simp [parseU64, parseNumber, hread, Except.map]

theorem parseU32_digits32 (entry : String) (n : UInt32) (what : String) :
    parseU32 entry (digits32 n) what = .ok n := by
  have hread : fromStrRadix 10 32 (digits32 n) = .ok n.toNat :=
    fromStrRadix_toDigits (by decide) (by decide) n.toNat_lt
  simp [parseU32, parseNumber, hread, Except.map]

theorem mem_decimal {n : ℤ} {c : Char} (h : c ∈ decimal n) : c = '-' ∨ c.isDigit = true := by
  unfold decimal at h
  split_ifs at h
  · rcases List.mem_cons.1 h with rfl | h
    · exact .inl rfl
    · exact .inr (isDigit_of_mem_toDigits h)
  · exact .inr (isDigit_of_mem_toDigits h)

/-- **A signed number reads back.** -/
theorem parseInt_decimal (n : Int64) : parseInt (decimal n.toInt) = some n := by
  have hlo := n.le_toInt
  have hhi := n.toInt_lt
  unfold decimal
  split_ifs with hneg
  · have habs : (n.toInt.natAbs : ℤ) = -n.toInt := by omega
    have hle : n.toInt.natAbs ≤ 2 ^ 63 := by omega
    rw [parseInt, if_neg Nat.toDigits_ne_nil, parseDigits_toDigits, Option.bind_some, if_pos hle, habs]
    simp
  · have habs : (n.toInt.natAbs : ℤ) = n.toInt := by omega
    rw [parseInt_toDigits (by omega), habs]
    simp

/-! ## §4 — the parts of a record -/

namespace Operation

variable (upper : Bool) (op : Operation)

theorem plain_args : ∀ arg ∈ op.args upper, Plain arg := by
  have hnum : ∀ n : UInt64, Plain (digits64 n) := fun n => plain_toDigits _
  have hnum' : ∀ n : UInt32, Plain (digits32 n) := fun n => plain_toDigits _
  have hname := plain_escapeName upper
  intro arg harg
  cases op with
  | create parent name uid gid kind mode unused =>
    simp only [args, List.mem_cons] at harg
    rcases harg with rfl | rfl | rfl | rfl | rfl | rfl | harg
    exacts [hnum _, hname _, hnum' _, hnum' _, hnum _, hnum' _, unused.plain _ harg]
  | setattr _ unused | setxattr _ unused | removexattr _ unused | write _ unused =>
    rcases List.mem_cons.1 harg with rfl | harg
    exacts [hnum _, unused.plain _ harg]
  | move sourceParent sourceName parent name unused =>
    simp only [args, List.mem_cons] at harg
    rcases harg with rfl | rfl | rfl | rfl | harg
    exacts [hnum _, hname _, hnum _, hname _, unused.plain _ harg]
  | link inode parent name unused =>
    simp only [args, List.mem_cons] at harg
    rcases harg with rfl | rfl | rfl | harg
    exacts [hnum _, hnum _, hname _, unused.plain _ harg]
  | unlink _ _ unused | rmdir _ _ unused =>
    simp only [args, List.mem_cons] at harg
    rcases harg with rfl | rfl | harg
    exacts [hnum _, hname _, unused.plain _ harg]

theorem args_ne_nil : op.args upper ≠ [] := by
  cases op <;> simp [args]

theorem plain_name : Plain op.name.toList := by
  have hall : (["CREATE", "SETATTR", "SETXATTR", "REMOVEXATTR", "WRITE", "MOVE", "LINK", "UNLINK", "RMDIR"].all
      fun name => name.toList.all fun c => decide (c ∉ separators)) = true := by
    decide +kernel
  have hmem : op.name ∈ ["CREATE", "SETATTR", "SETXATTR", "REMOVEXATTR", "WRITE", "MOVE", "LINK", "UNLINK",
      "RMDIR"] := by
    cases op <;> simp [name]
  intro c hc
  simpa using List.all_eq_true.1 (List.all_eq_true.1 hall _ hmem) c hc

theorem plain_result : Plain op.result := by
  cases op with
  | create | move | unlink | rmdir => exact plain_toDigits _
  | setattr _ _ result | setxattr _ _ result | removexattr _ _ result | write _ _ result
  | link _ _ _ _ result => exact result.plain

end Operation

theorem Plain.not_mem {cs : List Char} {c : Char} (h : Plain cs) (hc : c ∈ separators) : c ∉ cs :=
  fun hmem => h c hmem hc

theorem not_mem_intercalate {args : List (List Char)} {c : Char} (hargs : ∀ arg ∈ args, Plain arg)
    (hc : c ∈ separators) (hcomma : c ≠ ',') : c ∉ [','].intercalate args := by
  induction args with
  | nil => simp
  | cons arg args ih =>
    have harg := (hargs arg (by simp)).not_mem hc
    have hrest := ih fun a ha => hargs a (by simp [ha])
    cases args with
    | nil => simpa using harg
    | cons =>
      rw [List.intercalate_cons_cons]
      simp [harg, hcomma, hrest]

/-- **A rendered operation is cut where it was joined.** -/
theorem cutOperation_text (entry : String) (seconds : Int64) (upper : Bool) (op : Operation) :
    cutOperation entry seconds (op.text upper) =
      .ok ⟨seconds, op.name, op.args upper, some op.result⟩ := by
  have hname := op.plain_name
  have hargs := op.plain_args upper
  have hresult := op.plain_result
  set joined := [','].intercalate (op.args upper) with hjoined
  have htext : op.text upper = op.name.toList ++ '(' :: (joined ++ ')' :: ':' :: op.result) := by
    simp [Operation.text, hjoined]
  have hopen : find '(' (op.text upper) = some op.name.toList.length :=
    find_eq_some.2 ⟨_, _, htext, hname.not_mem (by decide), rfl⟩
  have hclose : rfind ')' (op.text upper) = some (op.name.toList ++ '(' :: joined).length := by
    refine rfind_eq_some.2 ⟨_, _, rfl, ?_, rfl⟩
    rw [List.mem_cons, not_or]
    exact ⟨by decide, hresult.not_mem (by decide)⟩
  have hfront : (op.text upper).take (op.name.toList ++ '(' :: joined).length = op.name.toList ++ '(' :: joined :=
    List.take_left
  have hback : (op.text upper).drop ((op.name.toList ++ '(' :: joined).length + 1) = ':' :: op.result := by
    rw [Operation.text, ← hjoined, List.drop_append]
    simp
  have hhead : (op.text upper).take op.name.toList.length = op.name.toList := by
    rw [htext, List.take_left]
  have hmiddle : (op.name.toList ++ '(' :: joined).drop (op.name.toList.length + 1) = joined := by
    rw [List.drop_append]
    simp
  have hsplit : joined.splitOn ',' = op.args upper :=
    List.splitOn_intercalate ',' (fun arg harg => (hargs arg harg).not_mem (by decide)) (op.args_ne_nil upper)
  have horder : ¬ (op.name.toList ++ '(' :: joined).length < op.name.toList.length + 1 := by
    simp
  unfold cutOperation
  simp only [hopen, hclose, if_neg horder]
  rw [hfront, hback, hhead, hmiddle, hsplit, String.ofList_toList]
  rfl

theorem splitOnce_append {c : Char} {a b : List Char} (h : c ∉ a) : splitOnce c (a ++ c :: b) = some (a, b) :=
  splitOnce_eq_some.2 ⟨rfl, h⟩

theorem not_mem_text (upper : Bool) (op : Operation) : '|' ∉ op.text upper := by
  have hname := op.plain_name.not_mem (c := '|') (by decide)
  have hargs := not_mem_intercalate (c := '|') (op.plain_args upper) (by decide) (by decide)
  have hresult := op.plain_result.not_mem (c := '|') (by decide)
  simp [Operation.text, hname, hargs, hresult]

theorem cut_render (r : LogRecord) :
    cut r.render = .ok ⟨r.seconds, r.operation.name, r.operation.args r.upper, some r.operation.result⟩ := by
  have hseconds : ∀ c, c ∉ ['-', '0', '1', '2', '3', '4', '5', '6', '7', '8', '9'] →
      c.isDigit = false → c ∉ decimal r.seconds.toInt := by
    intro c hc hdigit hmem
    rcases mem_decimal hmem with rfl | h
    · exact hc (by decide)
    · rw [hdigit] at h
      cases h
  have hbar : '|' ∉ decimal r.seconds.toInt ++ '.' :: r.nanos := by
    have hsec := hseconds '|' (by decide) (by decide)
    simp [hsec, r.nanos_bar]
  have hdot := hseconds '.' (by decide) (by decide)
  unfold cut
  rw [LogRecord.render, String.toList_ofList, splitOnce_append hbar]
  simp only [secondsText, operationText, splitOnce_append hdot, splitOnce_append (not_mem_text _ _),
    Option.map_some, Option.getD_some, parseInt_decimal, cutOperation_text]

/-! ## §5 — a record gives its change back -/

@[simp] theorem field_zero (f : List Char) (fields : List (List Char)) : field (f :: fields) 0 = f := rfl

@[simp] theorem field_succ (f : List Char) (fields : List (List Char)) (i : ℕ) :
    field (f :: fields) (i + 1) = field fields i := rfl

theorem entryKind_kindNumber (entry : String) (kind : EntryKind) :
    entryKind entry (kindNumber kind) = .ok kind := by
  cases kind <;> rfl

theorem ok_bind {α β : Type} (a : α) (f : α → Except RecordFailure β) : (Except.ok a >>= f) = f a := rfl

/-- **An operation with its arguments in place is read as its change.** -/
theorem interpret_operation (entry : String) (seconds : Int64) (upper : Bool) (op : Operation) :
    interpret entry seconds op.name (op.args upper) (some op.result) = .ok (some (op.change seconds)) := by
  have hlen : ∀ {k : ℕ} (unused : Unused k), unused.texts.length = k := fun unused => unused.length_eq
  have hinode := parseU64_digits64 entry
  have hid := parseU32_digits32 entry
  have hname := decodeName_escapeName entry upper
  have hkind := entryKind_kindNumber entry
  cases op <;>
    simp only [Operation.name, Operation.args, Operation.result, Operation.change, interpret, requireFields,
      inodeField, nameField, parseResult, field_zero, field_succ, List.length_cons, hlen, hinode, hid, hname,
      hkind, if_true, ok_bind, Except.map] <;>
    rfl

/-- **Parsing inverts the format**: every record of an operation, whatever its time, its numbers, the bytes of
its names and the arguments nobody reads, gives back the change. -/
theorem parseRecord_render (r : LogRecord) :
    parseRecord r.render = .ok (some (r.operation.change r.seconds)) := by
  unfold parseRecord
  rw [cut_render]
  exact interpret_operation _ _ _ _

namespace Sample

theorem bar_not_mem_nanos : '|' ∉ ['5'] := by decide

theorem plain_unused : ∀ t ∈ [['0']], Plain t := by simp [Plain, separators]

theorem plain_result : Plain ['o', 'k'] := by simp [Plain, separators]

/-- Inode 7 is linked into the root as `a,b`. -/
def linkRecord : LogRecord where
  seconds := 1700000000
  nanos := ['5']
  nanos_bar := bar_not_mem_nanos
  operation := .link 7 1 [97, 44, 98] ⟨[['0']], rfl, plain_unused⟩ ⟨['o', 'k'], plain_result⟩
  trailer := ['(', '3', ')']
  upper := true

end Sample

example : Sample.linkRecord.render = "1700000000.5|LINK(7,1,a%2Cb,0):ok|(3)" := by decide +kernel

example : parseRecord "1700000000.5|LINK(7,1,a%2Cb,0):ok|(3)" =
    .ok (some (.hardlinked (.juiceFs 7) (.juiceFs 1) [97, 44, 98] 1700000000)) := by decide +kernel

end Robinhood.ChangeSource
