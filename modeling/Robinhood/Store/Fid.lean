/-
# Store.Fid — identities as text and as keys

`lustre-api/src/fid.rs` shows a FID as `[0x200000401:0x1a:0x0]` and reads it back; `fid_codec.rs` and
`encode_object_id` (`rbh-entry-store`) make sixteen bytes of an identity, the key of its row.

The reader is wider than the format.  It takes off any number of `0x` in front of a component, none included,
it takes a plus sign, and it cuts the second and third component to 32 bits.  The result below says of an
accepted text exactly when it was read as it is written.
-/
import Mathlib
import Robinhood.Agent.Cursor
import Robinhood.Lib.Numeral
import Robinhood.Lib.Text
import Robinhood.Store.Catalog
import Robinhood.Store.MariaDb

namespace Robinhood.Store

open Lib Lib.Numeral

/-! ## §1 — the text of a FID -/

inductive FidParseError
  | invalidFormat (text : String)
  | invalidHex (error : ParseIntError)
  deriving DecidableEq, Repr

/-- `Display`, without the brackets. -/
def LuFid.bareText (fid : LuFid) : List Char :=
  ('0' :: 'x' :: Nat.toDigits 16 fid.seq.toNat) ++ ':' ::
    (('0' :: 'x' :: Nat.toDigits 16 fid.oid.toNat) ++ ':' :: '0' :: 'x' :: Nat.toDigits 16 fid.ver.toNat)

/-- **`Display`.** -/
def LuFid.display (fid : LuFid) : String := String.ofList ('[' :: fid.bareText ++ [']'])

/-- `trim_start_matches` with a text of two characters: every copy of it at the front goes. -/
def trimStartPair (a b : Char) : List Char → List Char
  | c :: d :: rest => if c = a ∧ d = b then trimStartPair a b rest else c :: d :: rest
  | cs => cs

def stripBrackets : List Char → List Char
  | '[' :: rest => if rest.getLast? = some ']' then rest.dropLast else '[' :: rest
  | cs => cs

/-- `parse_hex`. -/
def parseHex (p : List Char) : Except FidParseError ℕ :=
  (fromStrRadix 16 64 (trimStartPair '0' 'X' (trimStartPair '0' 'x' p))).mapError .invalidHex

/-- **`LuFid::from_str`.** -/
def LuFid.fromStr (s : String) : Except FidParseError LuFid :=
  match (stripBrackets (trimSpace s.toList)).splitOn ':' with
  | [seq, oid, ver] => do
    let seq ← parseHex seq
    let oid ← parseHex oid
    let ver ← parseHex ver
    -- the casts keep the low 32 bits
    return ⟨seq.toUInt64, oid.toUInt32, ver.toUInt32⟩
  | _ => .error (.invalidFormat s)

/-! ## §2 — identities as keys -/

/-- `fid_codec::decode`. -/
def LuFid.decode (buf : List UInt8) : Option LuFid :=
  if buf.length = 16 then
    some ⟨(ofBe (buf.take 8)).toUInt64, (ofBe ((buf.drop 8).take 4)).toUInt32,
      (ofBe (buf.drop 12)).toUInt32⟩
  else none

/-- **`decode_object_id`.** -/
def decodeObjectId (kind : ℕ) (bytes : List UInt8) : Except StoreError ObjectId :=
  match kind with
  | 0 =>
    match LuFid.decode bytes with
    | some fid => .ok (.lustre fid)
    | none => .error (.invalidObjectIdentity "invalid Lustre object id")
  | 1 =>
    if bytes.length = 16 then .ok (.juiceFs (ofBe (bytes.drop 8)).toUInt64)
    else .error (.invalidObjectIdentity "invalid scoped object id")
  | _ => .error (.invalidObjectIdentity "invalid scoped object id")

theorem beBytes_succ (width n : ℕ) :
    beBytes (width + 1) n = UInt8.ofNat (n / 256 ^ width % 256) :: beBytes width n := by
  simp only [beBytes, List.range_succ_eq_map, List.map_cons, List.map_map]
  congr 1
  refine List.map_congr_left fun i _ => ?_
  simp only [Function.comp_apply]
  congr 4
  omega

@[simp] theorem length_beBytes (width n : ℕ) : (beBytes width n).length = width := by simp [beBytes]

theorem ofBe_beBytes {width n : ℕ} (h : n < 256 ^ width) : ofBe (beBytes width n) = n := by
  -- the bytes give the number modulo 256 ^ width, from the highest byte down
  have hmod : ∀ width n, ofBe (beBytes width n) = n % 256 ^ width := by
    intro width n
    induction width with
    | zero => simp [beBytes, ofBe, ofLe, Nat.mod_one]
    | succ width ih =>
      have hbyte : (UInt8.ofNat (n / 256 ^ width % 256)).toNat = n / 256 ^ width % 256 := by simp
      rw [beBytes_succ, ofBe_cons, ih, length_beBytes, hbyte, pow_succ, Nat.mod_mul]
      ring
  rw [hmod, Nat.mod_eq_of_lt h]

theorem LuFid.length_encode (fid : LuFid) : fid.encode.length = 16 := by simp [LuFid.encode]

theorem LuFid.decode_encode (fid : LuFid) : LuFid.decode fid.encode = some fid := by
  obtain ⟨seq, oid, ver⟩ := fid
  have hseq : seq.toNat < 256 ^ 8 := seq.toNat_lt
  have hoid : oid.toNat < 256 ^ 4 := oid.toNat_lt
  have hver : ver.toNat < 256 ^ 4 := ver.toNat_lt
  rw [LuFid.decode, if_pos (LuFid.length_encode _)]
  have hfront : (LuFid.encode ⟨seq, oid, ver⟩).take 8 = beBytes 8 seq.toNat := by
    simp [LuFid.encode]
  have hmiddle : ((LuFid.encode ⟨seq, oid, ver⟩).drop 8).take 4 = beBytes 4 oid.toNat := by
    simp [LuFid.encode]
  have hback : (LuFid.encode ⟨seq, oid, ver⟩).drop 12 = beBytes 4 ver.toNat := by
    simp [LuFid.encode, List.drop_append]
  rw [hfront, hmiddle, hback, ofBe_beBytes hseq, ofBe_beBytes hoid, ofBe_beBytes hver]
  simp

theorem decodeObjectId_encodeObjectId (object : ObjectId) :
    decodeObjectId (encodeObjectId object).1 (encodeObjectId object).2 = .ok object := by
  cases object with
  | lustre => simp only [encodeObjectId, decodeObjectId, LuFid.decode_encode]
  | juiceFs inode =>
    have hinode : inode.toNat < 256 ^ 8 := inode.toNat_lt
    simp [encodeObjectId, decodeObjectId, ofBe_beBytes hinode]

theorem encodeObjectId_injective : Function.Injective encodeObjectId := by
  intro a b h
  have ha := decodeObjectId_encodeObjectId a
  rw [h, decodeObjectId_encodeObjectId b] at ha
  exact (Except.ok.inj ha).symm

/-- **Byte order of the encodings is the order of the three numbers, the first one first.** -/
theorem LuFid.encode_lt_iff (a b : LuFid) :
    a.encode < b.encode ↔
      a.seq < b.seq ∨ a.seq = b.seq ∧ (a.oid < b.oid ∨ a.oid = b.oid ∧ a.ver < b.ver) := by
  have hvalue : ∀ fid : LuFid, ofBe fid.encode =
      (fid.seq.toNat * 256 ^ 4 + fid.oid.toNat) * 256 ^ 4 + fid.ver.toNat := by
    intro fid
    rw [LuFid.encode, ofBe_append, ofBe_append, ofBe_beBytes fid.seq.toNat_lt, ofBe_beBytes fid.oid.toNat_lt,
      ofBe_beBytes fid.ver.toNat_lt, length_beBytes, length_beBytes]
  have hoid := a.oid.toNat_lt
  have hoid' := b.oid.toNat_lt
  have hver := a.ver.toNat_lt
  have hver' := b.ver.toNat_lt
  rw [lt_iff_ofBe_lt (by rw [LuFid.length_encode, LuFid.length_encode]), hvalue, hvalue,
    UInt64.lt_iff_toNat_lt, UInt32.lt_iff_toNat_lt, UInt32.lt_iff_toNat_lt, ← UInt64.toNat_inj,
    ← UInt32.toNat_inj]
  omega

/-! ## §3 — a shown FID reads back -/

theorem trimStartPair_cons (a b : Char) (rest : List Char) :
    trimStartPair a b (a :: b :: rest) = trimStartPair a b rest := by
  simp [trimStartPair]

theorem trimStartPair_eq_self {a b : Char} {cs : List Char} (h : ¬ [a, b] <+: cs) :
    trimStartPair a b cs = cs := by
  match cs, h with
  | [], _ => rfl
  | [_], _ => rfl
  | c :: d :: rest, h =>
    rw [trimStartPair, if_neg]
    rintro ⟨rfl, rfl⟩
    exact h ⟨rest, rfl⟩

theorem stripBrackets_bracketed (cs : List Char) : stripBrackets ('[' :: cs ++ [']']) = cs := by
  simp [stripBrackets]

theorem not_mem_of_readDigits {cs : List Char} {n : ℕ} {c : Char} (h : readDigits 16 cs = some n)
    (hc : digitValue 16 c = none) : c ∉ cs := by
  intro hmem
  have hdigit := digit_of_readDigits h c hmem
  rw [hc] at hdigit
  cases hdigit

theorem not_pair_isPrefix {a b : Char} {cs : List Char} (h : b ∉ cs) : ¬ [a, b] <+: cs := by
  intro hpre
  exact h (hpre.subset (by simp))

/-- **A component as documented** and its number: `0x` and hexadecimal digits. -/
def Component (p : List Char) (n : ℕ) : Prop :=
  ∃ digits, p = '0' :: 'x' :: digits ∧ digits ≠ [] ∧ readDigits 16 digits = some n

theorem Component.not_mem_colon {p : List Char} {n : ℕ} (h : Component p n) : ':' ∉ p := by
  obtain ⟨digits, rfl, -, hread⟩ := h
  have hdigits := not_mem_of_readDigits hread (show digitValue 16 ':' = none by decide)
  simp [hdigits]

theorem Component.parseHex_eq {p : List Char} {n : ℕ} (h : Component p n) (hn : n < 2 ^ 64) :
    parseHex p = .ok n := by
  obtain ⟨digits, rfl, hne, hread⟩ := h
  have hx := not_mem_of_readDigits hread (show digitValue 16 'x' = none by decide)
  have hX := not_mem_of_readDigits hread (show digitValue 16 'X' = none by decide)
  have hplus := not_mem_of_readDigits hread (digitValue_plus 16)
  have hhead : digits.head? ≠ some '+' := fun e => hplus (List.mem_of_mem_head? e)
  rw [parseHex, trimStartPair_cons, trimStartPair_eq_self (not_pair_isPrefix hx),
    trimStartPair_eq_self (not_pair_isPrefix hX),
    (fromStrRadix_eq_ok (by decide)).2 ⟨hne, by rw [unsigned_of_head hhead, hread], hn⟩]
  rfl

theorem component_toDigits (n : ℕ) : Component ('0' :: 'x' :: Nat.toDigits 16 n) n :=
  ⟨_, rfl, Nat.toDigits_ne_nil, readDigits_toDigits (by decide) (by decide) n⟩

theorem splitOn_components {p q r : List Char} (hp : ':' ∉ p) (hq : ':' ∉ q) (hr : ':' ∉ r) :
    (p ++ ':' :: (q ++ ':' :: r)).splitOn ':' = [p, q, r] := by
  rw [List.splitOn_append_cons_self_of_not_mem hp, List.splitOn_append_cons_self_of_not_mem hq,
    List.splitOn_eq_singleton hr]

theorem LuFid.fromStr_of_split {s : String} {p q r : List Char}
    (h : (stripBrackets (trimSpace s.toList)).splitOn ':' = [p, q, r]) {seq oid ver : ℕ}
    (hseq : parseHex p = .ok seq) (hoid : parseHex q = .ok oid) (hver : parseHex r = .ok ver) :
    LuFid.fromStr s = .ok ⟨seq.toUInt64, oid.toUInt32, ver.toUInt32⟩ := by
  simp only [LuFid.fromStr, h, hseq, hoid, hver]
  rfl

theorem LuFid.fromStr_display (fid : LuFid) : LuFid.fromStr fid.display = .ok fid := by
  have hends : ∀ c, c = '[' ∨ c = ']' → isSpace c = false := by
    rintro c (rfl | rfl) <;> rfl
  have htrim : trimSpace fid.display.toList = '[' :: fid.bareText ++ [']'] := by
    rw [LuFid.display, String.toList_ofList]
    refine @trim_eq_self _ isSpace _ (fun c hc => ?_) fun c hc => ?_
    · exact hends c (.inl (by simpa using hc.symm))
    · rw [List.getLast?_concat] at hc
      exact hends c (.inr (Option.some.inj hc).symm)
  have hsplit : (stripBrackets (trimSpace fid.display.toList)).splitOn ':' =
      ['0' :: 'x' :: Nat.toDigits 16 fid.seq.toNat, '0' :: 'x' :: Nat.toDigits 16 fid.oid.toNat,
        '0' :: 'x' :: Nat.toDigits 16 fid.ver.toNat] := by
    rw [htrim, stripBrackets_bracketed]
    exact splitOn_components (component_toDigits _).not_mem_colon (component_toDigits _).not_mem_colon
      (component_toDigits _).not_mem_colon
  have hoid : fid.oid.toNat < 2 ^ 64 := fid.oid.toNat_lt.trans (by decide)
  have hver : fid.ver.toNat < 2 ^ 64 := fid.ver.toNat_lt.trans (by decide)
  rw [LuFid.fromStr_of_split hsplit ((component_toDigits _).parseHex_eq fid.seq.toNat_lt)
    ((component_toDigits _).parseHex_eq hoid) ((component_toDigits _).parseHex_eq hver)]
  simp

/-- **Identities survive their codecs**: a FID shown and read, an identity encoded and decoded; keys are
distinct, and the keys of FIDs are in the order of the FIDs. -/
theorem identity_codecs_faithful :
    (∀ fid : LuFid, LuFid.fromStr fid.display = .ok fid) ∧
      (∀ object, decodeObjectId (encodeObjectId object).1 (encodeObjectId object).2 = .ok object) ∧
      (∀ a b : ObjectId, a ≠ b → encodeObjectId a ≠ encodeObjectId b) ∧
      ∀ a b : LuFid, a.encode < b.encode ↔
        a.seq < b.seq ∨ a.seq = b.seq ∧ (a.oid < b.oid ∨ a.oid = b.oid ∧ a.ver < b.ver) :=
  ⟨LuFid.fromStr_display, decodeObjectId_encodeObjectId, fun _ _ h => encodeObjectId_injective.ne h,
    LuFid.encode_lt_iff⟩

/-! ## §4 — what an accepted text says -/

/-- The text without white space around it and without one pair of brackets. -/
def bare (s : String) : List Char := stripBrackets (trimSpace s.toList)

/-- **The numbers a text denotes** in the documented format. -/
def Denotes (s : String) (seq oid ver : ℕ) : Prop :=
  ∃ p q r, bare s = p ++ ':' :: (q ++ ':' :: r) ∧ Component p seq ∧ Component q oid ∧ Component r ver

/-- A component with `0x` in front, and after it neither another one nor a plus sign. -/
def Plain (p : List Char) : Prop :=
  ['0', 'x'] <+: p ∧ ¬ ['0', 'x'] <+: p.drop 2 ∧ ¬ ['0', 'X'] <+: p.drop 2 ∧ ¬ ['+'] <+: p.drop 2

/-- A component with at most eight characters after `0x` and zeros. -/
def Short (p : List Char) : Prop := ((p.drop 2).dropWhile (· = '0')).length ≤ 8

def Careful (s : String) : Prop :=
  ∀ p q r, (bare s).splitOn ':' = [p, q, r] → Plain p ∧ Plain q ∧ Plain r ∧ Short q ∧ Short r

theorem parseHex_eq_ok {p : List Char} {n : ℕ} :
    parseHex p = .ok n ↔
      fromStrRadix 16 64 (trimStartPair '0' 'X' (trimStartPair '0' 'x' p)) = .ok n := by
  unfold parseHex
  cases fromStrRadix 16 64 (trimStartPair '0' 'X' (trimStartPair '0' 'x' p)) <;> simp [Except.mapError]

theorem LuFid.fromStr_eq_ok {s : String} {fid : LuFid} (h : LuFid.fromStr s = .ok fid) :
    ∃ p q r seq oid ver, (bare s).splitOn ':' = [p, q, r] ∧ parseHex p = .ok seq ∧ parseHex q = .ok oid ∧
      parseHex r = .ok ver ∧ fid = ⟨seq.toUInt64, oid.toUInt32, ver.toUInt32⟩ := by
  unfold LuFid.fromStr at h
  split at h
  · next p q r hsplit =>
    cases hp : parseHex p with
    | error =>
      rw [hp] at h
      cases h
    | ok seq =>
      cases hq : parseHex q with
      | error =>
        rw [hp, hq] at h
        cases h
      | ok oid =>
        cases hr : parseHex r with
        | error =>
          rw [hp, hq, hr] at h
          cases h
        | ok ver =>
          rw [hp, hq, hr] at h
          cases h
          exact ⟨p, q, r, seq, oid, ver, hsplit, hp, hq, hr, rfl⟩
  · cases h

theorem Component.eq_of_parseHex {p : List Char} {m n : ℕ} (h : Component p m) (hp : parseHex p = .ok n) :
    m = n ∧ n < 2 ^ 64 := by
  obtain ⟨digits, rfl, hne, hread⟩ := h
  have hx := not_mem_of_readDigits hread (show digitValue 16 'x' = none by decide)
  have hX := not_mem_of_readDigits hread (show digitValue 16 'X' = none by decide)
  have hplus := not_mem_of_readDigits hread (digitValue_plus 16)
  rw [parseHex_eq_ok, trimStartPair_cons, trimStartPair_eq_self (not_pair_isPrefix hx),
    trimStartPair_eq_self (not_pair_isPrefix hX)] at hp
  obtain ⟨-, hdigits, hlt⟩ := (fromStrRadix_eq_ok (by decide)).1 hp
  rw [unsigned_of_head fun e => hplus (List.mem_of_mem_head? e), hread] at hdigits
  exact ⟨Option.some.inj hdigits, hlt⟩

/-- **Of the components that are read, the plain ones are those of the format.** -/
theorem plain_iff {p : List Char} {n : ℕ} (h : parseHex p = .ok n) : Plain p ↔ Component p n := by
  constructor
  · rintro ⟨⟨rest, rfl⟩, hx, hX, hplus⟩
    rw [parseHex_eq_ok] at h
    change ¬ _ <+: rest at hx hX hplus
    change fromStrRadix 16 64 (trimStartPair '0' 'X' (trimStartPair '0' 'x' ('0' :: 'x' :: rest))) = _ at h
    rw [trimStartPair_cons, trimStartPair_eq_self hx, trimStartPair_eq_self hX] at h
    obtain ⟨hne, hread, -⟩ := (fromStrRadix_eq_ok (by decide)).1 h
    have hhead : rest.head? ≠ some '+' := by
      intro e
      obtain ⟨tail, rfl⟩ := List.head?_eq_some_iff.1 e
      exact hplus ⟨tail, rfl⟩
    rw [unsigned_of_head hhead] at hread
    exact ⟨rest, rfl, hne, hread⟩
  · rintro ⟨digits, rfl, -, hread⟩
    have hx := not_mem_of_readDigits hread (show digitValue 16 'x' = none by decide)
    have hX := not_mem_of_readDigits hread (show digitValue 16 'X' = none by decide)
    have hplus := not_mem_of_readDigits hread (digitValue_plus 16)
    refine ⟨⟨digits, rfl⟩, not_pair_isPrefix hx, not_pair_isPrefix hX, fun hpre => ?_⟩
    exact hplus (hpre.subset (by simp))

theorem Component.short_iff {p : List Char} {n : ℕ} (h : Component p n) : Short p ↔ n < 2 ^ 32 := by
  obtain ⟨digits, rfl, -, hread⟩ := h
  have hlen := lt_pow_iff_length_le (by decide) hread 8
  rw [show (16 : ℕ) ^ 8 = 2 ^ 32 by norm_num] at hlen
  exact hlen.symm

theorem denotes_iff_of_split {s : String} {p q r : List Char} (h : (bare s).splitOn ':' = [p, q, r])
    {seq oid ver : ℕ} : Denotes s seq oid ver ↔ Component p seq ∧ Component q oid ∧ Component r ver := by
  constructor
  · rintro ⟨p', q', r', hbare, hp, hq, hr⟩
    rw [hbare, splitOn_components hp.not_mem_colon hq.not_mem_colon hr.not_mem_colon] at h
    simp only [List.cons.injEq, and_true] at h
    obtain ⟨rfl, rfl, rfl⟩ := h
    exact ⟨hp, hq, hr⟩
  · intro hparts
    have hbare : [':'].intercalate ((bare s).splitOn ':') = bare s := List.intercalate_splitOn ':'
    rw [h] at hbare
    exact ⟨p, q, r, by simpa [List.intercalate] using hbare.symm, hparts⟩

/-- **When an accepted text was read as it is written.**  It is three numbers in the documented format, which
fit, and the FID has just these values, exactly when each component has one `0x` in front and no plus sign, and
the second and the third have at most eight digits.  Texts like that which give one FID denote the same
numbers. -/
theorem fid_read_as_written_iff {s : String} {fid : LuFid} (h : LuFid.fromStr s = .ok fid) :
    ((∃ seq oid ver, Denotes s seq oid ver ∧ seq < 2 ^ 64 ∧ oid < 2 ^ 32 ∧ ver < 2 ^ 32 ∧
        fid.seq.toNat = seq ∧ fid.oid.toNat = oid ∧ fid.ver.toNat = ver) ↔ Careful s) ∧
      ∀ t, LuFid.fromStr t = .ok fid → Careful s → Careful t → ∀ seq oid ver seq' oid' ver',
        Denotes s seq oid ver → Denotes t seq' oid' ver' → (seq, oid, ver) = (seq', oid', ver') := by
  -- a careful text denotes the values of the FID, whatever text it is
  have hcareful : ∀ {t : String}, LuFid.fromStr t = .ok fid → Careful t → ∀ seq oid ver,
      Denotes t seq oid ver → fid.seq.toNat = seq ∧ fid.oid.toNat = oid ∧ fid.ver.toNat = ver := by
    intro t ht hcare seq oid ver hdenotes
    obtain ⟨p, q, r, m, k, l, hsplit, hp, hq, hr, rfl⟩ := LuFid.fromStr_eq_ok ht
    obtain ⟨hseq, hoid, hver⟩ := (denotes_iff_of_split hsplit).1 hdenotes
    obtain ⟨-, -, -, hshort, hshort'⟩ := hcare p q r hsplit
    obtain ⟨rfl, hlt⟩ := hseq.eq_of_parseHex hp
    obtain ⟨rfl, -⟩ := hoid.eq_of_parseHex hq
    obtain ⟨rfl, -⟩ := hver.eq_of_parseHex hr
    have hk := hoid.short_iff.1 hshort
    have hl := hver.short_iff.1 hshort'
    exact ⟨by simpa using hlt, by simpa using hk, by simpa using hl⟩
  refine ⟨⟨?_, ?_⟩, ?_⟩
  · rintro ⟨seq, oid, ver, hdenotes, hseq, hoid, hver, -⟩ p q r hsplit
    obtain ⟨p', q', r', m, k, l, hsplit', hp, hq, hr, -⟩ := LuFid.fromStr_eq_ok h
    rw [hsplit] at hsplit'
    simp only [List.cons.injEq, and_true] at hsplit'
    obtain ⟨rfl, rfl, rfl⟩ := hsplit'
    obtain ⟨cp, cq, cr⟩ := (denotes_iff_of_split hsplit).1 hdenotes
    obtain ⟨rfl, -⟩ := cp.eq_of_parseHex hp
    obtain ⟨rfl, -⟩ := cq.eq_of_parseHex hq
    obtain ⟨rfl, -⟩ := cr.eq_of_parseHex hr
    exact ⟨(plain_iff hp).2 cp, (plain_iff hq).2 cq, (plain_iff hr).2 cr, cq.short_iff.2 hoid,
      cr.short_iff.2 hver⟩
  · intro hcare
    obtain ⟨p, q, r, m, k, l, hsplit, hp, hq, hr, -⟩ := LuFid.fromStr_eq_ok h
    obtain ⟨hplain, hplain', hplain'', hshort, hshort'⟩ := hcare p q r hsplit
    have cp := (plain_iff hp).1 hplain
    have cq := (plain_iff hq).1 hplain'
    have cr := (plain_iff hr).1 hplain''
    have hdenotes : Denotes s m k l := (denotes_iff_of_split hsplit).2 ⟨cp, cq, cr⟩
    exact ⟨m, k, l, hdenotes, (cp.eq_of_parseHex hp).2, cq.short_iff.1 hshort, cr.short_iff.1 hshort',
      hcareful h hcare m k l hdenotes⟩
  · intro t ht hs htc seq oid ver seq' oid' ver' hdenotes hdenotes'
    obtain ⟨rfl, rfl, rfl⟩ := hcareful h hs _ _ _ hdenotes
    obtain ⟨rfl, rfl, rfl⟩ := hcareful ht htc _ _ _ hdenotes'
    rfl

/-- The text of the format's own example. -/
theorem example_fid_read_as_written :
    LuFid.fromStr "[0x200000401:0x1a:0x0]" = .ok ⟨0x200000401, 0x1a, 0⟩ ∧
      ∃ seq oid ver, Denotes "[0x200000401:0x1a:0x0]" seq oid ver ∧ seq < 2 ^ 64 ∧ oid < 2 ^ 32 ∧
        ver < 2 ^ 32 ∧ (⟨0x200000401, 0x1a, 0⟩ : LuFid).seq.toNat = seq ∧
        (⟨0x200000401, 0x1a, 0⟩ : LuFid).oid.toNat = oid ∧ (⟨0x200000401, 0x1a, 0⟩ : LuFid).ver.toNat = ver := by
  have hread : LuFid.fromStr "[0x200000401:0x1a:0x0]" = .ok ⟨0x200000401, 0x1a, 0⟩ := by decide +kernel
  refine ⟨hread, (fid_read_as_written_iff hread).1.2 ?_⟩
  intro p q r hsplit
  have hparts : (bare "[0x200000401:0x1a:0x0]").splitOn ':' =
      ["0x200000401".toList, "0x1a".toList, "0x0".toList] := by decide +kernel
  rw [hparts] at hsplit
  simp only [List.cons.injEq, and_true] at hsplit
  obtain ⟨rfl, rfl, rfl⟩ := hsplit
  simp only [Plain, Short]
  decide +kernel

/-- An object number of 33 bits is cut, so the text gives the FID of another one; and a text without any `0x`
is accepted. -/
theorem long_component_aliases :
    LuFid.fromStr "0x200000401:0x10000001a:0x0" = .ok ⟨0x200000401, 0x1a, 0⟩ ∧
      LuFid.fromStr "0x200000401:0x1a:0x0" = .ok ⟨0x200000401, 0x1a, 0⟩ ∧
      Denotes "0x200000401:0x10000001a:0x0" 0x200000401 0x10000001a 0 ∧
      Denotes "0x200000401:0x1a:0x0" 0x200000401 0x1a 0 ∧
      LuFid.fromStr "200000401:+1a:0x0x0" = .ok ⟨0x200000401, 0x1a, 0⟩ ∧
      ∀ seq oid ver, ¬ Denotes "200000401:+1a:0x0x0" seq oid ver := by
  refine ⟨by decide +kernel, by decide +kernel, ?_, ?_, by decide +kernel, ?_⟩
  · exact ⟨"0x200000401".toList, "0x10000001a".toList, "0x0".toList, by decide +kernel,
      ⟨"200000401".toList, by decide +kernel⟩, ⟨"10000001a".toList, by decide +kernel⟩,
      ⟨"0".toList, by decide +kernel⟩⟩
  · exact ⟨"0x200000401".toList, "0x1a".toList, "0x0".toList, by decide +kernel,
      ⟨"200000401".toList, by decide +kernel⟩, ⟨"1a".toList, by decide +kernel⟩,
      ⟨"0".toList, by decide +kernel⟩⟩
  · intro seq oid ver hdenotes
    have hparts : (bare "200000401:+1a:0x0x0").splitOn ':' =
        ["200000401".toList, "+1a".toList, "0x0x0".toList] := by decide +kernel
    obtain ⟨⟨digits, hp, -⟩, -⟩ := (denotes_iff_of_split hparts).1 hdenotes
    cases hp

end Robinhood.Store
