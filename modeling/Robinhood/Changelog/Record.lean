/-
# Changelog.Record — the fields of a raw record

`lustre-api/src/rec.rs`.  A record is a packed header, then the extensions that its flags announce, then its
names, each with a NUL behind it.  No accessor walks the record: each computes the offset of its field from
the flags, masked in its own way.

The flags and the sizes come from the system's headers and are parameters.  A record here is the memory its
pointer leads to; `Layout` says how a record is laid out, and the result is that every accessor finds what
was laid out, whatever the flags.
-/
import Mathlib
import Robinhood.Changelog.Parse
import Robinhood.Lib.Memory

namespace Robinhood.Changelog

open Posix (Name)
open Store (LuFid)
open Lib.Numeral Lib.Memory

/-! ## §1 — what the headers define -/

/-- **The flags and sizes of the system's headers.**  Flags are distinct bits, and the supported masks have
all of them. -/
structure Abi where
  jobidSize : ℕ
  nidSize : ℕ
  openmodeSize : ℕ
  xattrSize : ℕ
  clfVersion : BitVec 16
  clfRename : BitVec 16
  clfJobid : BitVec 16
  clfExtraFlags : BitVec 16
  clfSupported : BitVec 16
  clfeInvalid : BitVec 32
  clfeUidgid : BitVec 32
  clfeNid : BitVec 32
  clfeOpen : BitVec 32
  clfeXattr : BitVec 32
  clfeSupported : BitVec 32
  clf_distinct : [clfVersion, clfRename, clfJobid, clfExtraFlags].Pairwise fun a b => a &&& b = 0
  clf_supported : ∀ f ∈ [clfRename, clfJobid, clfExtraFlags], clfSupported &&& f = f
  clfe_distinct : [clfeInvalid, clfeUidgid, clfeNid, clfeOpen, clfeXattr].Pairwise fun a b => a &&& b = 0
  clfe_supported : ∀ f ∈ [clfeUidgid, clfeNid, clfeOpen, clfeXattr], clfeSupported &&& f = f

/-- `size_of::<changelog_rec>()`. -/
def headerSize : ℕ := 64

/-- `size_of::<changelog_ext_rename>()`: two FIDs. -/
def renameSize : ℕ := 32

/-- `size_of::<changelog_ext_extra_flags>()`. -/
def extraFlagsSize : ℕ := 8

/-- `size_of::<changelog_ext_uidgid>()`. -/
def uidgidSize : ℕ := 16

/-- `ChangelogEventType::from_raw`. -/
def ChangelogEventType.fromRaw (n : UInt32) : ChangelogEventType :=
  ([.mark, .create, .mkdir, .hardlink, .softlink, .mknod, .unlink, .rmdir, .rename, .renameTo, .opened,
    .close, .layout, .truncate, .setAttr, .xAttr, .hsm, .mTime, .cTime, .aTime, .migrate, .flrWrite,
    .resync, .getXattr, .noOpen] : List ChangelogEventType)[n.toNat]?.getD (.unknown n)

/-! ## §2 — the accessors -/

namespace RecView

/-- `LuFid::from_raw` of the FID at an offset. -/
def fidAt (mem : List UInt8) (off : ℕ) : Option LuFid := do
  let seq ← numberAt mem off 8
  let oid ← numberAt mem (off + 8) 4
  let ver ← numberAt mem (off + 12) 4
  return ⟨seq.toUInt64, oid.toUInt32, ver.toUInt32⟩

variable (abi : Abi) (mem : List UInt8)

def crNamelen : Option ℕ := numberAt mem 0 2

def flags : Option (BitVec 16) := (numberAt mem 2 2).map (BitVec.ofNat 16)

/-- `event_type`: the low twelve bits of the type. -/
def eventType : Option ChangelogEventType :=
  (numberAt mem 4 4).map fun n => .fromRaw (n.toUInt32 &&& 0x0fff)

def index : Option UInt64 := (numberAt mem 8 8).map Nat.toUInt64

def time : Option UInt64 := (numberAt mem 24 8).map Nat.toUInt64

def targetFid : Option LuFid := fidAt mem 32

def parentFid : Option LuFid := fidAt mem 48

/-- **`rec_offset`**: the length of the header and of the extensions that the flags announce. -/
def recOffset (crf : BitVec 16) (cref : BitVec 32) : ℕ :=
  headerSize + (if crf &&& abi.clfRename ≠ 0 then renameSize else 0) +
    (if crf &&& abi.clfJobid ≠ 0 then abi.jobidSize else 0) +
    if crf &&& abi.clfExtraFlags ≠ 0 then
      extraFlagsSize + (if cref &&& abi.clfeUidgid ≠ 0 then uidgidSize else 0) +
        (if cref &&& abi.clfeNid ≠ 0 then abi.nidSize else 0) +
        (if cref &&& abi.clfeOpen ≠ 0 then abi.openmodeSize else 0) +
        if cref &&& abi.clfeXattr ≠ 0 then abi.xattrSize else 0
    else 0

/-- `extra_flags`. -/
def extraFlags : Option (BitVec 32) := do
  let crf ← flags mem
  if crf &&& abi.clfExtraFlags = 0 then return 0
  else
    let off := recOffset abi (crf &&& (abi.clfVersion ||| abi.clfRename ||| abi.clfJobid)) abi.clfeInvalid
    -- the field has 64 bits, the cast keeps 32
    return BitVec.ofNat 32 (← numberAt mem off 8)

def renameFid (place : ℕ) : Option (Option LuFid) := do
  let crf ← flags mem
  if crf &&& abi.clfRename = 0 then return none
  else return some (← fidAt mem (recOffset abi (crf &&& abi.clfVersion) abi.clfeInvalid + place))

def renameSourceFid : Option (Option LuFid) := renameFid abi mem 0

def renameSourceParentFid : Option (Option LuFid) := renameFid abi mem 16

/-- A number of the extension `changelog_ext_uidgid`, at its place in it. -/
def idAt (place : ℕ) : Option (Option UInt32) := do
  let cref ← extraFlags abi mem
  if cref &&& abi.clfeUidgid = 0 then return none
  else
    let crf := (← flags mem) &&& (abi.clfVersion ||| abi.clfRename ||| abi.clfJobid ||| abi.clfExtraFlags)
    return some (← numberAt mem (recOffset abi crf abi.clfeInvalid + place) 8).toUInt32

def uid : Option (Option UInt32) := idAt abi mem 0

def gid : Option (Option UInt32) := idAt abi mem 8

def jobid : Option (Option (List UInt8)) := do
  let crf ← flags mem
  if crf &&& abi.clfJobid = 0 then return none
  else return some (← cstrAt mem (recOffset abi (crf &&& (abi.clfVersion ||| abi.clfRename)) abi.clfeInvalid))

def namesOff : Option ℕ := do
  let crf ← flags mem
  let cref ← extraFlags abi mem
  return recOffset abi (crf &&& abi.clfSupported) (cref &&& abi.clfeSupported)

/-- **`name`.** -/
def name : Option Name := do cstrAt mem (← namesOff abi mem)

/-- **`source_name`.** -/
def sourceName : Option (Option Name) := do
  if (← flags mem) &&& abi.clfRename = 0 then return none
  else
    let off ← namesOff abi mem
    let namelen ← crNamelen mem
    let primary ← cstrAt mem off
    let consumed := primary.length + 1
    if namelen ≤ consumed then return none
    else
      let slice ← bytesAt mem (off + consumed) (namelen - consumed)
      return some (slice.takeWhile (· ≠ 0))

/-- `RecView` as a `RawRec`, what `parse_event` reads. -/
def rawRec : Option RawRec := do
  return {
    eventType := ← eventType mem
    index := ← index mem
    time := ← time mem
    targetFid := ← targetFid mem
    parentFid := ← parentFid mem
    name := ← name abi mem
    sourceName := ← sourceName abi mem
    renameSourceFid := ← renameSourceFid abi mem
    renameSourceParentFid := ← renameSourceParentFid abi mem
    uid := ← uid abi mem
    gid := ← gid abi mem
    jobid := ← jobid abi mem
    flags := ⟨← flags mem⟩ }

end RecView

/-! ## §3 — a record laid out -/

def fidBytes (fid : LuFid) : List UInt8 :=
  toLe 8 fid.seq.toNat ++ (toLe 4 fid.oid.toNat ++ toLe 4 fid.ver.toNat)

def namesBytes (name : Name) (sourceName : Option Name) : List UInt8 :=
  name ++ 0 :: (sourceName.map (· ++ [0])).getD []

/-- **What a record is laid out from**, and what its flags leave out of it.  Texts have no NUL of their own,
and `cr_namelen` can count the names. -/
structure Layout (abi : Abi) where
  flags : BitVec 16
  type : UInt32
  index : UInt64
  prev : UInt64
  time : UInt64
  targetFid : LuFid
  parentFid : LuFid
  sourceFid : LuFid
  sourceParentFid : LuFid
  jobid : List UInt8
  /-- what follows the job and its NUL in their field -/
  jobidPad : List UInt8
  extraFlags : BitVec 64
  uid : UInt32
  gid : UInt32
  nid : List UInt8
  openmode : List UInt8
  xattr : List UInt8
  name : Name
  sourceName : Option Name
  /-- memory behind the record -/
  behind : List UInt8
  jobid_nul : 0 ∉ jobid
  jobid_size : jobid.length + 1 + jobidPad.length = abi.jobidSize
  nid_size : nid.length = abi.nidSize
  openmode_size : openmode.length = abi.openmodeSize
  xattr_size : xattr.length = abi.xattrSize
  name_nul : 0 ∉ name
  sourceName_nul : ∀ s ∈ sourceName, 0 ∉ s
  names_lt : (namesBytes name sourceName).length < 2 ^ 16

namespace Layout

variable {abi : Abi} (r : Layout abi)

/-- The record has the extension `changelog_ext_rename`. -/
def Renames : Prop := r.flags &&& abi.clfRename ≠ 0

/-- The record has the extension `changelog_ext_jobid`. -/
def HasJobid : Prop := r.flags &&& abi.clfJobid ≠ 0

/-- The record has the extension `changelog_ext_extra_flags`. -/
def HasExtra : Prop := r.flags &&& abi.clfExtraFlags ≠ 0

def HasExt (flag : BitVec 32) : Prop := r.HasExtra ∧ r.extraFlags.setWidth 32 &&& flag ≠ 0

instance : Decidable r.Renames := inferInstanceAs (Decidable (_ ≠ _))
instance : Decidable r.HasJobid := inferInstanceAs (Decidable (_ ≠ _))
instance : Decidable r.HasExtra := inferInstanceAs (Decidable (_ ≠ _))
instance (flag : BitVec 32) : Decidable (r.HasExt flag) := inferInstanceAs (Decidable (_ ∧ _))

def namesPart : List UInt8 := namesBytes r.name (if r.Renames then r.sourceName else none)

def header : List UInt8 :=
  toLe 2 r.namesPart.length ++ (toLe 2 r.flags.toNat ++ (toLe 4 r.type.toNat ++ (toLe 8 r.index.toNat ++
    (toLe 8 r.prev.toNat ++ (toLe 8 r.time.toNat ++ (fidBytes r.targetFid ++ fidBytes r.parentFid))))))

def renamePart : List UInt8 := if r.Renames then fidBytes r.sourceFid ++ fidBytes r.sourceParentFid else []

def jobidPart : List UInt8 := if r.HasJobid then r.jobid ++ 0 :: r.jobidPad else []

def extraPart : List UInt8 :=
  if r.HasExtra then
    toLe 8 r.extraFlags.toNat ++
      ((if r.HasExt abi.clfeUidgid then toLe 8 r.uid.toNat ++ toLe 8 r.gid.toNat else []) ++
        ((if r.HasExt abi.clfeNid then r.nid else []) ++
          ((if r.HasExt abi.clfeOpen then r.openmode else []) ++
            if r.HasExt abi.clfeXattr then r.xattr else [])))
  else []

/-- **The record**: header, extensions, names. -/
def bytes : List UInt8 :=
  r.header ++ (r.renamePart ++ (r.jobidPart ++ (r.extraPart ++ (r.namesPart ++ r.behind))))

end Layout

/-! ## §4 — the offsets line up -/

@[simp] theorem length_fidBytes (fid : LuFid) : (fidBytes fid).length = 16 := by simp [fidBytes]

theorem RecView.fidAt_append {mem pre post : List UInt8} {off : ℕ} {fid : LuFid}
    (hmem : mem = pre ++ (fidBytes fid ++ post)) (hoff : off = pre.length) :
    RecView.fidAt mem off = some fid := by
  obtain ⟨seq, oid, ver⟩ := fid
  have hseq : numberAt mem off 8 = some seq.toNat :=
    numberAt_append (by rw [hmem, fidBytes, List.append_assoc]) hoff seq.toNat_lt
  have hoid : numberAt mem (off + 8) 4 = some oid.toNat := by
    have hsplit : mem = (pre ++ toLe 8 seq.toNat) ++ (toLe 4 oid.toNat ++ (toLe 4 ver.toNat ++ post)) := by
      simp [hmem, fidBytes]
    exact numberAt_append hsplit (by simp [hoff]) oid.toNat_lt
  have hver : numberAt mem (off + 12) 4 = some ver.toNat := by
    have hsplit : mem = (pre ++ (toLe 8 seq.toNat ++ toLe 4 oid.toNat)) ++ (toLe 4 ver.toNat ++ post) := by
      simp [hmem, fidBytes]
    exact numberAt_append hsplit (by simp [hoff]) ver.toNat_lt
  simp [RecView.fidAt, hseq, hoid, hver]

namespace Abi

variable (abi : Abi)

theorem clf_and : abi.clfVersion &&& abi.clfRename = 0 ∧ abi.clfVersion &&& abi.clfJobid = 0 ∧
    abi.clfVersion &&& abi.clfExtraFlags = 0 ∧ abi.clfRename &&& abi.clfJobid = 0 ∧
    abi.clfRename &&& abi.clfExtraFlags = 0 ∧ abi.clfJobid &&& abi.clfExtraFlags = 0 := by
  simpa [and_assoc] using abi.clf_distinct

theorem clfeInvalid_and : abi.clfeInvalid &&& abi.clfeUidgid = 0 ∧ abi.clfeInvalid &&& abi.clfeNid = 0 ∧
    abi.clfeInvalid &&& abi.clfeOpen = 0 ∧ abi.clfeInvalid &&& abi.clfeXattr = 0 := by
  have h := (List.pairwise_cons.1 abi.clfe_distinct).1
  exact ⟨h _ (by simp), h _ (by simp), h _ (by simp), h _ (by simp)⟩

end Abi

namespace Layout

variable {abi : Abi} (r : Layout abi)

theorem length_header : r.header.length = headerSize := by simp [header, headerSize]

theorem length_renamePart : r.renamePart.length = if r.Renames then renameSize else 0 := by
  unfold renamePart
  split_ifs <;> simp [renameSize]

theorem length_jobidPart : r.jobidPart.length = if r.HasJobid then abi.jobidSize else 0 := by
  unfold jobidPart
  split_ifs
  · rw [List.length_append, List.length_cons, ← r.jobid_size]
    omega
  · rfl

theorem length_extraPart : r.extraPart.length =
    if r.HasExtra then
      extraFlagsSize + (if r.HasExt abi.clfeUidgid then uidgidSize else 0) +
        (if r.HasExt abi.clfeNid then abi.nidSize else 0) +
        (if r.HasExt abi.clfeOpen then abi.openmodeSize else 0) +
        if r.HasExt abi.clfeXattr then abi.xattrSize else 0
    else 0 := by
  unfold extraPart
  split_ifs <;>
    simp [extraFlagsSize, uidgidSize, r.nid_size, r.openmode_size, r.xattr_size] <;> omega

theorem recOffset_version (cref : BitVec 32) :
    RecView.recOffset abi (r.flags &&& abi.clfVersion) cref = r.header.length := by
  obtain ⟨hr, hj, hx, -⟩ := abi.clf_and
  rw [RecView.recOffset, and_eq_zero_of_drops hr, and_eq_zero_of_drops hj, and_eq_zero_of_drops hx,
    length_header]
  simp

theorem recOffset_jobid (cref : BitVec 32) :
    RecView.recOffset abi (r.flags &&& (abi.clfVersion ||| abi.clfRename)) cref =
      r.header.length + r.renamePart.length := by
  obtain ⟨hr, hj, hx, hrj, hrx, -⟩ := abi.clf_and
  have hrename := and_ne_zero_iff_of_keeps (x := r.flags) (keeps_or_right hr BitVec.and_self)
  rw [RecView.recOffset, and_eq_zero_of_drops (drops_or hj hrj), and_eq_zero_of_drops (drops_or hx hrx),
    length_header, length_renamePart]
  simp only [hrename, ne_eq, not_true_eq_false, if_false, Nat.add_zero]
  rfl

theorem recOffset_extraFlags (cref : BitVec 32) :
    RecView.recOffset abi (r.flags &&& (abi.clfVersion ||| abi.clfRename ||| abi.clfJobid)) cref =
      r.header.length + r.renamePart.length + r.jobidPart.length := by
  obtain ⟨hr, hj, hx, hrj, hrx, hjx⟩ := abi.clf_and
  have hjr : abi.clfJobid &&& abi.clfRename = 0 := by rw [BitVec.and_comm, hrj]
  have hrename := and_ne_zero_iff_of_keeps (x := r.flags)
    (keeps_or_left (keeps_or_right hr BitVec.and_self) hjr)
  have hjob := and_ne_zero_iff_of_keeps (x := r.flags) (keeps_or_right (drops_or hj hrj) BitVec.and_self)
  rw [RecView.recOffset, and_eq_zero_of_drops (drops_or (drops_or hx hrx) hjx), length_header,
    length_renamePart, length_jobidPart]
  simp only [hrename, hjob, ne_eq, not_true_eq_false, if_false, Nat.add_zero]
  rfl

theorem recOffset_uidgid (h : r.HasExtra) :
    RecView.recOffset abi
        (r.flags &&& (abi.clfVersion ||| abi.clfRename ||| abi.clfJobid ||| abi.clfExtraFlags))
        abi.clfeInvalid =
      r.header.length + r.renamePart.length + r.jobidPart.length + extraFlagsSize := by
  obtain ⟨hr, hj, hx, hrj, hrx, hjx⟩ := abi.clf_and
  obtain ⟨hu, hn, ho, ha⟩ := abi.clfeInvalid_and
  have hjr : abi.clfJobid &&& abi.clfRename = 0 := by rw [BitVec.and_comm, hrj]
  have hxr : abi.clfExtraFlags &&& abi.clfRename = 0 := by rw [BitVec.and_comm, hrx]
  have hxj : abi.clfExtraFlags &&& abi.clfJobid = 0 := by rw [BitVec.and_comm, hjx]
  have hrename := and_ne_zero_iff_of_keeps (x := r.flags)
    (keeps_or_left (keeps_or_left (keeps_or_right hr BitVec.and_self) hjr) hxr)
  have hjob := and_ne_zero_iff_of_keeps (x := r.flags)
    (keeps_or_left (keeps_or_right (drops_or hj hrj) BitVec.and_self) hxj)
  have hextra := and_ne_zero_iff_of_keeps (x := r.flags)
    (keeps_or_right (drops_or (drops_or hx hrx) hjx) BitVec.and_self)
  rw [RecView.recOffset, length_header, length_renamePart, length_jobidPart, if_pos (hextra.2 h), hu, hn, ho,
    ha]
  simp only [hrename, hjob, ne_eq, not_true_eq_false, if_false, Nat.add_zero]
  rfl

theorem recOffset_names {cref : BitVec 32} (h : r.HasExtra → cref = r.extraFlags.setWidth 32) :
    RecView.recOffset abi (r.flags &&& abi.clfSupported) (cref &&& abi.clfeSupported) =
      r.header.length + r.renamePart.length + r.jobidPart.length + r.extraPart.length := by
  have hrename : r.flags &&& abi.clfSupported &&& abi.clfRename ≠ 0 ↔ r.Renames :=
    and_ne_zero_iff_of_keeps (abi.clf_supported abi.clfRename (by simp))
  have hjob : r.flags &&& abi.clfSupported &&& abi.clfJobid ≠ 0 ↔ r.HasJobid :=
    and_ne_zero_iff_of_keeps (abi.clf_supported abi.clfJobid (by simp))
  have hextra : r.flags &&& abi.clfSupported &&& abi.clfExtraFlags ≠ 0 ↔ r.HasExtra :=
    and_ne_zero_iff_of_keeps (abi.clf_supported abi.clfExtraFlags (by simp))
  have hext : ∀ flag ∈ [abi.clfeUidgid, abi.clfeNid, abi.clfeOpen, abi.clfeXattr], r.HasExtra →
      (cref &&& abi.clfeSupported &&& flag ≠ 0 ↔ r.HasExt flag) := by
    intro flag hflag hx
    rw [and_ne_zero_iff_of_keeps (abi.clfe_supported flag hflag), h hx]
    exact (and_iff_right hx).symm
  rw [RecView.recOffset, length_header, length_renamePart, length_jobidPart, length_extraPart]
  simp only [hrename, hjob, hextra]
  by_cases hx : r.HasExtra
  · simp only [if_pos hx, hext abi.clfeUidgid (by simp) hx, hext abi.clfeNid (by simp) hx,
      hext abi.clfeOpen (by simp) hx, hext abi.clfeXattr (by simp) hx]
  · simp only [if_neg hx]

/-! ## §5 — every accessor finds its field -/

def body : List UInt8 := r.renamePart ++ (r.jobidPart ++ (r.extraPart ++ (r.namesPart ++ r.behind)))

theorem length_namesPart_lt : r.namesPart.length < 256 ^ 2 := by
  have hlt := r.names_lt
  unfold namesPart
  split_ifs
  · exact lt_of_lt_of_eq hlt (by norm_num)
  · simp only [namesBytes, List.length_append, List.length_cons] at hlt ⊢
    simp only [Option.map_none, Option.getD_none, List.length_nil]
    omega

theorem bytes_eq_header : r.bytes = toLe 2 r.namesPart.length ++ (toLe 2 r.flags.toNat ++
    (toLe 4 r.type.toNat ++ (toLe 8 r.index.toNat ++ (toLe 8 r.prev.toNat ++ (toLe 8 r.time.toNat ++
      (fidBytes r.targetFid ++ (fidBytes r.parentFid ++ r.body))))))) := by
  simp [bytes, header, body]

theorem crNamelen_bytes : RecView.crNamelen r.bytes = some r.namesPart.length :=
  numberAt_append (by rw [bytes_eq_header, List.nil_append]) rfl r.length_namesPart_lt

theorem flags_bytes : RecView.flags r.bytes = some r.flags := by
  have hread : numberAt r.bytes 2 2 = some r.flags.toNat :=
    numberAt_append r.bytes_eq_header (by simp) r.flags.isLt
  simp [RecView.flags, hread]

theorem eventType_bytes : RecView.eventType r.bytes = some (.fromRaw (r.type &&& 0x0fff)) := by
  obtain ⟨post, hsplit⟩ : ∃ post, r.bytes =
      (toLe 2 r.namesPart.length ++ toLe 2 r.flags.toNat) ++ (toLe 4 r.type.toNat ++ post) := by
    simp only [bytes_eq_header, List.append_assoc]
    exact ⟨_, rfl⟩
  have hread : numberAt r.bytes 4 4 = some r.type.toNat := numberAt_append hsplit (by simp) r.type.toNat_lt
  simp [RecView.eventType, hread]

theorem index_bytes : RecView.index r.bytes = some r.index := by
  obtain ⟨post, hsplit⟩ : ∃ post, r.bytes = (toLe 2 r.namesPart.length ++ (toLe 2 r.flags.toNat ++
      toLe 4 r.type.toNat)) ++ (toLe 8 r.index.toNat ++ post) := by
    simp only [bytes_eq_header, List.append_assoc]
    exact ⟨_, rfl⟩
  have hread : numberAt r.bytes 8 8 = some r.index.toNat := numberAt_append hsplit (by simp) r.index.toNat_lt
  simp [RecView.index, hread]

theorem time_bytes : RecView.time r.bytes = some r.time := by
  obtain ⟨post, hsplit⟩ : ∃ post, r.bytes = (toLe 2 r.namesPart.length ++ (toLe 2 r.flags.toNat ++
      (toLe 4 r.type.toNat ++ (toLe 8 r.index.toNat ++ toLe 8 r.prev.toNat)))) ++
        (toLe 8 r.time.toNat ++ post) := by
    simp only [bytes_eq_header, List.append_assoc]
    exact ⟨_, rfl⟩
  have hread : numberAt r.bytes 24 8 = some r.time.toNat := numberAt_append hsplit (by simp) r.time.toNat_lt
  simp [RecView.time, hread]

theorem targetFid_bytes : RecView.targetFid r.bytes = some r.targetFid := by
  obtain ⟨post, hsplit⟩ : ∃ post, r.bytes = (toLe 2 r.namesPart.length ++ (toLe 2 r.flags.toNat ++
      (toLe 4 r.type.toNat ++ (toLe 8 r.index.toNat ++ (toLe 8 r.prev.toNat ++ toLe 8 r.time.toNat))))) ++
        (fidBytes r.targetFid ++ post) := by
    simp only [bytes_eq_header, List.append_assoc]
    exact ⟨_, rfl⟩
  exact RecView.fidAt_append hsplit (by simp)

theorem parentFid_bytes : RecView.parentFid r.bytes = some r.parentFid := by
  obtain ⟨post, hsplit⟩ : ∃ post, r.bytes = (toLe 2 r.namesPart.length ++ (toLe 2 r.flags.toNat ++
      (toLe 4 r.type.toNat ++ (toLe 8 r.index.toNat ++ (toLe 8 r.prev.toNat ++ (toLe 8 r.time.toNat ++
        fidBytes r.targetFid)))))) ++ (fidBytes r.parentFid ++ post) := by
    simp only [bytes_eq_header, List.append_assoc]
    exact ⟨_, rfl⟩
  exact RecView.fidAt_append hsplit (by simp)

theorem extraFlags_bytes :
    RecView.extraFlags abi r.bytes = some (if r.HasExtra then r.extraFlags.setWidth 32 else 0) := by
  unfold RecView.extraFlags
  rw [flags_bytes]
  simp only [Option.bind_eq_bind, Option.bind_some]
  by_cases hx : r.HasExtra
  · have hread : numberAt r.bytes (r.header.length + r.renamePart.length + r.jobidPart.length) 8 =
        some r.extraFlags.toNat := by
      have hsplit : ∃ post, r.bytes = (r.header ++ r.renamePart ++ r.jobidPart) ++
          (toLe 8 r.extraFlags.toNat ++ post) := by
        simp only [bytes, extraPart, if_pos hx, List.append_assoc]
        exact ⟨_, rfl⟩
      obtain ⟨post, hsplit⟩ := hsplit
      have hlt : r.extraFlags.toNat < 256 ^ 8 := lt_of_lt_of_eq r.extraFlags.isLt (by norm_num)
      exact numberAt_append hsplit (by simp [Nat.add_assoc]) hlt
    rw [if_neg hx, if_pos hx, recOffset_extraFlags, hread]
    simp
  · rw [if_pos (not_not.1 hx), if_neg hx]
    rfl

theorem renameFid_bytes {place : ℕ} {fid : LuFid}
    (h : r.Renames → ∃ pre, r.header.length + place = pre.length ∧
      ∃ post, r.bytes = pre ++ (fidBytes fid ++ post)) :
    RecView.renameFid abi r.bytes place = some (if r.Renames then some fid else none) := by
  unfold RecView.renameFid
  rw [flags_bytes]
  simp only [Option.bind_eq_bind, Option.bind_some]
  by_cases hr : r.Renames
  · obtain ⟨pre, hoff, post, hsplit⟩ := h hr
    rw [if_neg hr, if_pos hr, recOffset_version, RecView.fidAt_append hsplit hoff]
    rfl
  · rw [if_pos (not_not.1 hr), if_neg hr]
    rfl

theorem renameSourceFid_bytes :
    RecView.renameSourceFid abi r.bytes = some (if r.Renames then some r.sourceFid else none) := by
  refine r.renameFid_bytes fun hr => ⟨r.header, rfl, ?_⟩
  simp only [bytes, renamePart, if_pos hr, List.append_assoc]
  exact ⟨_, rfl⟩

theorem renameSourceParentFid_bytes :
    RecView.renameSourceParentFid abi r.bytes = some (if r.Renames then some r.sourceParentFid else none) := by
  refine r.renameFid_bytes fun hr => ⟨r.header ++ fidBytes r.sourceFid, by simp, ?_⟩
  simp only [bytes, renamePart, if_pos hr, List.append_assoc]
  exact ⟨_, rfl⟩

theorem jobid_bytes : RecView.jobid abi r.bytes = some (if r.HasJobid then some r.jobid else none) := by
  unfold RecView.jobid
  rw [flags_bytes]
  simp only [Option.bind_eq_bind, Option.bind_some]
  by_cases hj : r.HasJobid
  · have hsplit : r.bytes = (r.header ++ r.renamePart) ++ (r.jobid ++ 0 ::
        (r.jobidPad ++ (r.extraPart ++ (r.namesPart ++ r.behind)))) := by
      simp [bytes, jobidPart, if_pos hj]
    rw [if_neg hj, if_pos hj, recOffset_jobid, cstrAt_append hsplit (by simp) r.jobid_nul]
    rfl
  · rw [if_pos (not_not.1 hj), if_neg hj]
    rfl

theorem idAt_bytes {place : ℕ} {id : UInt32}
    (h : r.HasExt abi.clfeUidgid → ∃ pre,
      r.header.length + r.renamePart.length + r.jobidPart.length + extraFlagsSize + place = pre.length ∧
      ∃ post, r.bytes = pre ++ (toLe 8 id.toNat ++ post)) :
    RecView.idAt abi r.bytes place = some (if r.HasExt abi.clfeUidgid then some id else none) := by
  unfold RecView.idAt
  rw [extraFlags_bytes, flags_bytes]
  simp only [Option.bind_eq_bind, Option.bind_some]
  by_cases hu : r.HasExt abi.clfeUidgid
  · obtain ⟨pre, hoff, post, hsplit⟩ := h hu
    have hid : id.toNat < 256 ^ 8 := id.toNat_lt.trans (by norm_num)
    rw [if_pos hu.1, if_neg hu.2, if_pos hu, r.recOffset_uidgid hu.1, numberAt_append hsplit hoff hid]
    simp
  · have hzero : (if r.HasExtra then r.extraFlags.setWidth 32 else 0) &&& abi.clfeUidgid = 0 := by
      by_cases hx : r.HasExtra
      · rw [if_pos hx]
        by_contra hne
        exact hu ⟨hx, hne⟩
      · rw [if_neg hx]
        exact BitVec.zero_and
    rw [if_pos hzero, if_neg hu]
    rfl

theorem uid_bytes : RecView.uid abi r.bytes = some (if r.HasExt abi.clfeUidgid then some r.uid else none) := by
  refine r.idAt_bytes fun hu =>
    ⟨r.header ++ r.renamePart ++ r.jobidPart ++ toLe 8 r.extraFlags.toNat, ?_, ?_⟩
  · simp [extraFlagsSize, Nat.add_assoc]
  · simp only [bytes, extraPart, if_pos hu.1, if_pos hu, List.append_assoc]
    exact ⟨_, rfl⟩

theorem gid_bytes : RecView.gid abi r.bytes = some (if r.HasExt abi.clfeUidgid then some r.gid else none) := by
  refine r.idAt_bytes fun hu =>
    ⟨r.header ++ r.renamePart ++ r.jobidPart ++ toLe 8 r.extraFlags.toNat ++ toLe 8 r.uid.toNat, ?_, ?_⟩
  · simp [extraFlagsSize, Nat.add_assoc]
  · simp only [bytes, extraPart, if_pos hu.1, if_pos hu, List.append_assoc]
    exact ⟨_, rfl⟩

theorem namesOff_bytes : RecView.namesOff abi r.bytes =
    some (r.header ++ r.renamePart ++ r.jobidPart ++ r.extraPart).length := by
  unfold RecView.namesOff
  rw [flags_bytes, extraFlags_bytes]
  simp only [Option.bind_eq_bind, Option.bind_some]
  rw [r.recOffset_names fun hx => if_pos hx]
  simp [Nat.add_assoc]

theorem bytes_eq_names : r.bytes = (r.header ++ r.renamePart ++ r.jobidPart ++ r.extraPart) ++
    (r.name ++ 0 :: ((((if r.Renames then r.sourceName else none).map (· ++ [0])).getD []) ++ r.behind)) := by
  simp [bytes, namesPart, namesBytes]

theorem name_bytes : RecView.name abi r.bytes = some r.name := by
  unfold RecView.name
  rw [namesOff_bytes, Option.bind_eq_bind, Option.bind_some, cstrAt_append r.bytes_eq_names rfl r.name_nul]

theorem sourceName_bytes :
    RecView.sourceName abi r.bytes = some (if r.Renames then r.sourceName else none) := by
  unfold RecView.sourceName
  rw [flags_bytes, namesOff_bytes, crNamelen_bytes]
  simp only [Option.bind_eq_bind, Option.bind_some]
  by_cases hr : r.Renames
  · have hbytes := r.bytes_eq_names
    have hlen : r.namesPart = namesBytes r.name r.sourceName := by rw [namesPart, if_pos hr]
    rw [if_pos hr] at hbytes
    rw [if_neg hr, cstrAt_append hbytes rfl r.name_nul, hlen, if_pos hr]
    simp only [Option.bind_some]
    cases hsource : r.sourceName with
    | none =>
      -- the name and its NUL are all that is counted
      rw [if_pos (by simp [namesBytes])]
      rfl
    | some source =>
      rw [hsource] at hbytes
      have hslice : bytesAt r.bytes ((r.header ++ r.renamePart ++ r.jobidPart ++ r.extraPart).length +
          (r.name.length + 1)) ((namesBytes r.name (some source)).length - (r.name.length + 1)) =
          some (source ++ [0]) := by
        have hsplit : r.bytes = (r.header ++ r.renamePart ++ r.jobidPart ++ r.extraPart ++ (r.name ++ [0])) ++
            ((source ++ [0]) ++ r.behind) := by
          rw [hbytes]
          simp
        refine bytesAt_append hsplit (by simp [Nat.add_assoc]) ?_
        simp [namesBytes]
        omega
      rw [if_neg (by simp [namesBytes]), hslice]
      simp only [Option.bind_some]
      rw [takeWhile_ne_zero (r.sourceName_nul source hsource)]
      rfl
  · rw [if_pos (not_not.1 hr), if_neg hr]
    rfl

/-- What `parse_event` is given of a record: its fields, those of absent extensions left out. -/
theorem rawRec_bytes : RecView.rawRec abi r.bytes = some {
    eventType := .fromRaw (r.type &&& 0x0fff)
    index := r.index
    time := r.time
    targetFid := r.targetFid
    parentFid := r.parentFid
    name := r.name
    sourceName := if r.Renames then r.sourceName else none
    renameSourceFid := if r.Renames then some r.sourceFid else none
    renameSourceParentFid := if r.Renames then some r.sourceParentFid else none
    uid := if r.HasExt abi.clfeUidgid then some r.uid else none
    gid := if r.HasExt abi.clfeUidgid then some r.gid else none
    jobid := if r.HasJobid then some r.jobid else none
    flags := ⟨r.flags⟩ } := by
  simp only [RecView.rawRec, eventType_bytes, index_bytes, time_bytes, targetFid_bytes, parentFid_bytes,
    name_bytes, sourceName_bytes, renameSourceFid_bytes, renameSourceParentFid_bytes, uid_bytes, gid_bytes,
    jobid_bytes, flags_bytes, Option.bind_eq_bind, Option.bind_some, Option.pure_def]

/-- **Every accessor finds what was laid out**, and nothing where nothing was, for every combination of flags
and all contents. -/
theorem accessors_recover (abi : Abi) (r : Layout abi) :
    RecView.name abi r.bytes = some r.name ∧
      RecView.sourceName abi r.bytes = some (if r.Renames then r.sourceName else none) ∧
      RecView.uid abi r.bytes = some (if r.HasExt abi.clfeUidgid then some r.uid else none) ∧
      RecView.gid abi r.bytes = some (if r.HasExt abi.clfeUidgid then some r.gid else none) ∧
      RecView.jobid abi r.bytes = some (if r.HasJobid then some r.jobid else none) ∧
      RecView.renameSourceFid abi r.bytes = some (if r.Renames then some r.sourceFid else none) ∧
      RecView.renameSourceParentFid abi r.bytes =
        some (if r.Renames then some r.sourceParentFid else none) :=
  ⟨r.name_bytes, r.sourceName_bytes, r.uid_bytes, r.gid_bytes, r.jobid_bytes, r.renameSourceFid_bytes,
    r.renameSourceParentFid_bytes⟩

end Layout

namespace Sample

def abi : Abi where
  jobidSize := 32
  nidSize := 24
  openmodeSize := 4
  xattrSize := 256
  clfVersion := 0x1000
  clfRename := 0x2000
  clfJobid := 0x4000
  clfExtraFlags := 0x8000
  clfSupported := 0xF000
  clfeInvalid := 0
  clfeUidgid := 1
  clfeNid := 2
  clfeOpen := 4
  clfeXattr := 8
  clfeSupported := 15
  clf_distinct := by simp
  clf_supported := by simp
  clfe_distinct := by simp
  clfe_supported := by simp

/-- A rename of `a` to `b` by user 7, with the ids but without a job. -/
def renamed : Layout abi where
  flags := 0xB000
  type := 8
  index := 41
  prev := 0
  time := 0
  targetFid := .zero
  parentFid := ⟨1, 2, 0⟩
  sourceFid := ⟨1, 5, 0⟩
  sourceParentFid := ⟨1, 3, 0⟩
  jobid := []
  jobidPad := List.replicate 31 0
  extraFlags := 1
  uid := 7
  gid := 8
  nid := List.replicate 24 0
  openmode := List.replicate 4 0
  xattr := List.replicate 256 0
  name := [98]
  sourceName := some [97]
  behind := []
  jobid_nul := by decide
  jobid_size := by decide +kernel
  nid_size := by decide +kernel
  openmode_size := by decide +kernel
  xattr_size := by decide +kernel
  name_nul := by decide
  sourceName_nul := by simp
  names_lt := by decide +kernel

example : RecView.sourceName abi renamed.bytes = some (some [97]) ∧
    RecView.uid abi renamed.bytes = some (some 7) ∧ RecView.jobid abi renamed.bytes = some none := by
  decide +kernel

end Sample

end Robinhood.Changelog
