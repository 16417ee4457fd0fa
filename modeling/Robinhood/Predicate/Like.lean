/-
# Predicate.Like — name patterns in memory and in the database

`like_match` (`rbh-predicate/src/eval.rs`) knows `%` and `_`, has no escape, and gives up on a pattern of
more than 256 bytes.  The database's LIKE takes a backslash as an escape, and `LOWER` leaves a name, which
is binary, as it is, while the evaluation in memory lower-cases it.  This module says for which patterns
the two agree on every name a directory can hold.
-/
import Mathlib
import Robinhood.Lib.Wildcard
import Robinhood.Predicate.Pushdown

namespace Robinhood.Predicate

open Store Lib Lib.Sql Posix

/-! ## §1 — the two readings of a pattern -/

/-- The byte of the escape. -/
def backslash : UInt8 := 92

def tokenOf (c : UInt8) : Wild UInt8 :=
  if c = '%'.toUInt8 then .run else if c = '_'.toUInt8 then .one else .letter c

/-- A pattern as `like_match` reads it. -/
def plainTokens (pattern : List UInt8) : List (Wild UInt8) := pattern.map tokenOf

/-- **A pattern as LIKE reads it**: a backslash takes the next byte as it is; at the end it stands for
itself. -/
def likeTokens (pattern : List UInt8) : List (Wild UInt8) := Wild.escaped backslash tokenOf pattern

/-- What is assumed of the server: LIKE on the binary name is byte by byte, `LOWER` leaves a binary string
unchanged, and lower-cases a text as the library does. -/
structure LikeServer (db : MariaDb) (lib : TextLibrary) : Prop where
  like : ∀ name source pattern, db.other .like (.bytes name) (.text source pattern) = .true ↔
    Wild.Matches (likeTokens pattern.toUTF8.toList) name
  lower_bytes : ∀ name, db.lower (.bytes name) = .bytes name
  lower_text : ∀ source s, db.lower (.text source s) = .text source (lib.toLowercase s)

/-- `like_match` is the plain reading of a pattern that is not too long. -/
theorem likeMatch_iff (pattern : List UInt8) (text : List UInt8) :
    likeMatch text pattern = Bool.true ↔
      pattern.length ≤ maxLikePatternLen ∧ Wild.Matches (plainTokens pattern) text := by
  by_cases hlong : pattern.length ≤ maxLikePatternLen
  · rw [and_iff_right hlong]
    induction pattern generalizing text with
    | nil =>
      rw [likeMatch.eq_def, if_neg (Nat.not_lt.2 hlong)]
      exact List.isEmpty_iff
    | cons c rest ih =>
      have ih := fun text => ih text (Nat.le_of_succ_le hlong)
      rw [likeMatch.eq_def, if_neg (Nat.not_lt.2 hlong), plainTokens, List.map_cons, tokenOf, ← plainTokens]
      by_cases hrun : c = '%'.toUInt8
      · simp only [if_pos hrun, List.any_eq_true, List.mem_range, ih, Wild.Matches, Nat.lt_succ_iff]
      · simp only [if_neg hrun]
        by_cases hone : c = '_'.toUInt8
        · cases text with
          | nil => simp [hone, Wild.Matches]
          | cons t text =>
            simp only [if_pos hone, Wild.Matches]
            exact ih text
        · cases text with
          | nil => simp [hone, Wild.Matches]
          | cons => simp [hone, ih, Wild.Matches]
  · rw [likeMatch.eq_def, if_pos (Nat.lt_of_not_le hlong)]
    simp [hlong]

/-! ## §2 — where the two readings differ -/

theorem likeTokens_cons {c : UInt8} (h : c ≠ backslash) (rest : List UInt8) :
    likeTokens (c :: rest) = tokenOf c :: likeTokens rest :=
  Wild.escaped_cons h ..

theorem likeTokens_backslash (d : UInt8) (rest : List UInt8) :
    likeTokens (backslash :: d :: rest) = .letter d :: likeTokens rest :=
  Wild.escaped_escape ..

theorem tokenOf_backslash : tokenOf backslash = .letter backslash := by decide

theorem likeTokens_eq_plainTokens {pattern : List UInt8} (h : backslash ∉ pattern.dropLast) :
    likeTokens pattern = plainTokens pattern := by
  induction pattern with
  | nil => rfl
  | cons c rest ih =>
    cases rest with
    | nil => rfl
    | cons =>
      rw [List.dropLast_cons_cons, List.mem_cons, not_or] at h
      rw [likeTokens_cons (Ne.symm h.1), ih h.2]
      rfl

theorem length_places_likeTokens_le (pattern : List UInt8) :
    (Wild.places (likeTokens pattern)).length ≤ (Wild.places (plainTokens pattern)).length := by
  -- the recursion of `Wild.escaped`: an escape takes two bytes
  induction pattern using Wild.escaped.induct backslash with
  | case1 => exact le_rfl
  | case2 => exact le_rfl
  | case3 d rest ih =>
    rw [likeTokens_backslash]
    simp only [plainTokens, List.map_cons, tokenOf_backslash, Wild.places_letter, List.length_cons] at ih ⊢
    have hle : (Wild.places (rest.map tokenOf)).length ≤
        (Wild.places (tokenOf d :: rest.map tokenOf)).length := by
      cases tokenOf d <;> simp
    omega
  | case4 c d rest hc ih =>
    rw [likeTokens_cons hc]
    simp only [plainTokens, List.map_cons] at ih ⊢
    cases tokenOf c <;> simp only [Wild.places_run, Wild.places_one, Wild.places_letter, List.length_cons] <;>
      omega

/-- **An escape shows on the shortest text**: the plain reading of a pattern with an escape does not fit
the shortest text that LIKE takes, nor its image under a map that keeps backslashes apart. -/
theorem not_fits_of_escape {f : UInt8 → UInt8} (hf : ∀ x, f x = backslash ↔ x = backslash) (fill : UInt8)
    {pattern : List UInt8} (h : backslash ∈ pattern.dropLast) :
    ¬ List.Forall₂ Wild.Fits (Wild.places (plainTokens pattern))
      ((Wild.shortest fill (likeTokens pattern)).map f) := by
  induction pattern using Wild.escaped.induct backslash with
  | case1 => cases h
  | case2 => cases h
  | case3 d rest =>
    rw [likeTokens_backslash, plainTokens, List.map_cons, List.map_cons, tokenOf_backslash,
      Wild.places_letter, Wild.shortest_letter, List.map_cons]
    intro hfits
    obtain ⟨hhead, htail⟩ := List.forall₂_cons.1 hfits
    -- the escaped byte stands where the plain reading wants the backslash, so it is one itself
    obtain rfl : d = backslash := (hf d).1 hhead
    rw [tokenOf_backslash, Wild.places_letter] at htail
    have hlength := htail.length_eq
    rw [List.length_cons, List.length_map, Wild.length_shortest] at hlength
    have hle := length_places_likeTokens_le rest
    rw [plainTokens] at hle
    omega
  | case4 c d rest hc ih =>
    rw [List.dropLast_cons_cons, List.mem_cons] at h
    have ih := ih (h.resolve_left (Ne.symm hc))
    rw [likeTokens_cons hc, plainTokens, List.map_cons, ← plainTokens]
    intro hfits
    cases htoken : tokenOf c with
    | run =>
      rw [htoken, Wild.places_run, Wild.shortest_run] at hfits
      exact ih hfits
    | one | letter a =>
      rw [htoken] at hfits
      simp only [Wild.places_one, Wild.places_letter, Wild.shortest_one, Wild.shortest_letter,
        List.map_cons] at hfits
      exact ih (List.forall₂_cons.1 hfits).2

/-! ## §3 — patterns that mean the same -/

def TooLong (pattern : List UInt8) : Prop := 255 < (Wild.places (likeTokens pattern)).length

/-- The pattern is within the limit of `like_match` and has no escape. -/
def ReadAlike (pattern : List UInt8) : Prop :=
  pattern.length ≤ maxLikePatternLen ∧ backslash ∉ pattern.dropLast

instance (pattern : List UInt8) : Decidable (ReadAlike pattern) := inferInstanceAs (Decidable (_ ∧ _))

theorem TooLong.not_matches {pattern name : List UInt8} (h : TooLong pattern) (hname : name.length ≤ 255) :
    ¬ Wild.Matches (likeTokens pattern) name ∧ ¬ Wild.Matches (plainTokens pattern) name := by
  have hle := length_places_likeTokens_le pattern
  unfold TooLong at h
  constructor
  · intro hmatch
    have := hmatch.length_le
    omega
  · intro hmatch
    have := hmatch.length_le
    omega

/-- **The shortest name tells the readings apart**: if `like_match` takes its image, the pattern is read
alike and the image fits letter by letter. -/
theorem readAlike_of_shortest {f : UInt8 → UInt8} (hf : ∀ x, f x = backslash ↔ x = backslash)
    (fill : UInt8) {pattern : List UInt8}
    (h : likeMatch ((Wild.shortest fill (likeTokens pattern)).map f) pattern = Bool.true) :
    ReadAlike pattern ∧ List.Forall₂ Wild.Fits (Wild.places (plainTokens pattern))
      ((Wild.shortest fill (likeTokens pattern)).map f) := by
  obtain ⟨hlength, hmatch⟩ := (likeMatch_iff _ _).1 h
  have hfits := Wild.fits_of_length hmatch (by
    rw [List.length_map, Wild.length_shortest]
    exact length_places_likeTokens_le pattern)
  refine ⟨⟨hlength, fun hescape => ?_⟩, hfits⟩
  exact not_fits_of_escape hf fill hescape hfits

/-- A pattern of `NameLike` means the same in both places on every name exactly if no name can match or
it is read alike. -/
theorem like_agrees_iff (pattern : List UInt8) :
    (∀ name : List UInt8, name.length ≤ 255 →
      (likeMatch name pattern = Bool.true ↔ Wild.Matches (likeTokens pattern) name)) ↔
      TooLong pattern ∨ ReadAlike pattern := by
  constructor
  · intro hagree
    by_cases hlong : TooLong pattern
    · exact .inl hlong
    · have hlength : (Wild.shortest 48 (likeTokens pattern)).length ≤ 255 := by
        rw [Wild.length_shortest]
        exact Nat.not_lt.1 hlong
      have hmatch := (hagree _ hlength).2 (Wild.matches_shortest 48 _)
      rw [← List.map_id (Wild.shortest 48 (likeTokens pattern))] at hmatch
      exact .inr (readAlike_of_shortest (fun x => Iff.rfl) 48 hmatch).1
  · rintro (hlong | ⟨hlength, hescape⟩) name hname
    · obtain ⟨hlike, hplain⟩ := hlong.not_matches hname
      rw [likeMatch_iff]
      exact iff_of_false (fun h => hplain h.2) hlike
    · rw [likeMatch_iff, likeTokens_eq_plainTokens hescape]
      exact and_iff_right hlength

/-- One byte of `to_ascii_lowercase`. -/
def asciiLower (b : UInt8) : UInt8 := if 'A'.toUInt8 ≤ b ∧ b ≤ 'Z'.toUInt8 then b + 32 else b

/-- The capital of a small letter. -/
def asciiUpper (b : UInt8) : UInt8 := if 'a'.toUInt8 ≤ b ∧ b ≤ 'z'.toUInt8 then b - 32 else b

def AsciiLetter (b : UInt8) : Prop :=
  'A'.toUInt8 ≤ b ∧ b ≤ 'Z'.toUInt8 ∨ 'a'.toUInt8 ≤ b ∧ b ≤ 'z'.toUInt8

instance (b : UInt8) : Decidable (AsciiLetter b) := inferInstanceAs (Decidable (_ ∨ _))

theorem toNat_asciiLower (b : UInt8) :
    (asciiLower b).toNat = if 65 ≤ b.toNat ∧ b.toNat ≤ 90 then b.toNat + 32 else b.toNat := by
  show (if 65 ≤ b.toNat ∧ b.toNat ≤ 90 then b + 32 else b).toNat = _
  split_ifs with h
  · rw [UInt8.toNat_add]
    show (b.toNat + 32) % 256 = _
    omega
  · rfl

theorem toNat_asciiUpper (b : UInt8) :
    (asciiUpper b).toNat = if 97 ≤ b.toNat ∧ b.toNat ≤ 122 then b.toNat - 32 else b.toNat := by
  show (if 97 ≤ b.toNat ∧ b.toNat ≤ 122 then b - 32 else b).toNat = _
  split_ifs with h
  · exact UInt8.toNat_sub_of_le _ _ (UInt8.le_iff_toNat_le.2 (by show 32 ≤ b.toNat; omega))
  · rfl

theorem asciiLetter_iff (b : UInt8) :
    AsciiLetter b ↔ 65 ≤ b.toNat ∧ b.toNat ≤ 90 ∨ 97 ≤ b.toNat ∧ b.toNat ≤ 122 := Iff.rfl

theorem asciiLower_eq_iff {a : UInt8} (ha : ¬ AsciiLetter a) (x : UInt8) : asciiLower x = a ↔ x = a := by
  rw [asciiLetter_iff] at ha
  rw [← UInt8.toNat_inj, ← UInt8.toNat_inj, toNat_asciiLower]
  split_ifs <;> omega

theorem asciiLetter_changed {a : UInt8} (ha : AsciiLetter a) (hlower : asciiLower a = a) :
    asciiUpper a ≠ a := by
  rw [asciiLetter_iff] at ha
  rw [← UInt8.toNat_inj, toNat_asciiLower] at hlower
  rw [Ne, ← UInt8.toNat_inj, toNat_asciiUpper]
  split_ifs at hlower ⊢ <;> omega

theorem asciiLower_asciiUpper {a : UInt8} (h : asciiLower a = a) : asciiLower (asciiUpper a) = a := by
  rw [← UInt8.toNat_inj, toNat_asciiLower] at h
  rw [← UInt8.toNat_inj, toNat_asciiLower, toNat_asciiUpper]
  split_ifs at h ⊢ <;> omega

theorem tokenOf_letter {a : UInt8} (h : AsciiLetter a) : tokenOf a = .letter a := by
  unfold tokenOf
  rw [if_neg, if_neg]
  · rintro rfl
    revert h
    decide
  · rintro rfl
    revert h
    decide

/-- A pattern of `InameLike`, lower-cased, means the same in both places on every name exactly if no name
can match, or it is read alike and has no letter that case could change. -/
theorem ilike_agrees_iff (pattern : List UInt8) :
    (∀ name : List UInt8, name.length ≤ 255 →
      (likeMatch (toAsciiLowercase name) pattern = Bool.true ↔ Wild.Matches (likeTokens pattern) name)) ↔
      TooLong pattern ∨ ReadAlike pattern ∧ ∀ b ∈ pattern, ¬ AsciiLetter b := by
  have hbackslash : ∀ x, asciiLower x = backslash ↔ x = backslash := asciiLower_eq_iff (by decide)
  constructor
  · intro hagree
    by_cases hlong : TooLong pattern
    · exact .inl hlong
    · have hlength : (Wild.shortest 48 (likeTokens pattern)).length ≤ 255 := by
        rw [Wild.length_shortest]
        exact Nat.not_lt.1 hlong
      have hmatch := (hagree _ hlength).2 (Wild.matches_shortest 48 _)
      obtain ⟨halike, hfits⟩ := readAlike_of_shortest hbackslash 48 hmatch
      refine .inr ⟨halike, fun b hb hletter => ?_⟩
      have htokens := likeTokens_eq_plainTokens halike.2
      rw [htokens] at hfits hlength
      have hmem := List.mem_map.2 ⟨b, hb, tokenOf_letter hletter⟩
      -- no letter is a capital, so the shortest name in capitals is taken in memory
      have hsmall := Wild.letter_eq_of_fits hfits
      have hcapitals : toAsciiLowercase ((Wild.shortest 48 (plainTokens pattern)).map asciiUpper) =
          Wild.shortest 48 (plainTokens pattern) := by
        rw [show toAsciiLowercase = List.map asciiLower from rfl, List.map_map]
        refine List.map_congr_left (g := id) (fun x hx => ?_) |>.trans (List.map_id _)
        refine asciiLower_asciiUpper ?_
        rcases Wild.mem_shortest hx with rfl | hx
        · decide
        · exact hsmall x hx
      have hupper := (hagree ((Wild.shortest 48 (plainTokens pattern)).map asciiUpper)
        (by simpa using hlength)).1 (by
          rw [hcapitals, likeMatch_iff]
          exact ⟨halike.1, Wild.matches_shortest 48 _⟩)
      rw [htokens] at hupper
      have hfits' := Wild.fits_of_length hupper (by rw [List.length_map, Wild.length_shortest])
      exact asciiLetter_changed hletter (hsmall b hmem) (Wild.letter_eq_of_fits hfits' b hmem)
  · rintro (hlong | ⟨⟨hlength, hescape⟩, hletters⟩) name hname
    · obtain ⟨hlike, -⟩ := hlong.not_matches hname
      have hplain : ¬ Wild.Matches (plainTokens pattern) (toAsciiLowercase name) :=
        (hlong.not_matches (by simpa [toAsciiLowercase] using hname)).2
      rw [likeMatch_iff]
      exact iff_of_false (fun h => hplain h.2) hlike
    · rw [likeMatch_iff, likeTokens_eq_plainTokens hescape, and_iff_right hlength]
      refine Wild.matches_map (f := asciiLower) (fun a ha x => ?_) name
      obtain ⟨b, hb, htoken⟩ := List.mem_map.1 ha
      obtain rfl : b = a := by
        unfold tokenOf at htoken
        split_ifs at htoken
        exact Wild.letter.inj htoken
      exact asciiLower_eq_iff (hletters b hb) x

/-! ## §4 — the predicates -/

section Sides

variable {db : MariaDb} {lib : TextLibrary} {tables : Tables} {e : ScopedEntryRow}

theorem satisfies_nameLike (hdb : LikeServer db lib) (pattern : String) :
    Satisfies db tables e (.nameLike pattern) ↔
      Wild.Matches (likeTokens pattern.toUTF8.toList) e.name := by
  have hrow : onRow db tables e (tree (.nameLike pattern)) =
      some (db.other .like (.bytes e.name) (.text .param pattern)) := rfl
  rw [satisfies_iff, hrow, Option.some_inj]
  exact hdb.like e.name .param pattern

theorem satisfies_inameLike (hdb : LikeServer db lib) (pattern : String) :
    Satisfies db tables e (.inameLike pattern) ↔
      Wild.Matches (likeTokens (lib.toLowercase pattern).toUTF8.toList) e.name := by
  have hrow : onRow db tables e (tree (.inameLike pattern)) =
      some (db.test .like (db.lower (.bytes e.name)) (db.lower (.text .param pattern))) := rfl
  rw [satisfies_iff, hrow, hdb.lower_bytes, hdb.lower_text, Option.some_inj]
  exact hdb.like e.name .param (lib.toLowercase pattern)

theorem exists_entry (name : Name) : ∃ e : ScopedEntryRow, e.name = name :=
  ⟨{ Sample.unstriped with name }, rfl⟩

end Sides

/-- **When a name pattern means the same in memory and in SQL** on every name of at most 255 bytes.  For
`NameLike`: exactly if no such name can match, or the pattern has at most 256 bytes and no backslash before
its last byte.  For `InameLike` the same of the lower-cased pattern, and it must have no ASCII letter. -/
theorem name_patterns_agree_iff (db : MariaDb) (lib : TextLibrary) (hdb : LikeServer db lib)
    (tables : Tables) (pattern : String) :
    ((∀ e : ScopedEntryRow, e.name.length ≤ 255 →
        (matchesEntry lib e (.nameLike pattern) = Bool.true ↔ Satisfies db tables e (.nameLike pattern))) ↔
      TooLong pattern.toUTF8.toList ∨ ReadAlike pattern.toUTF8.toList) ∧
    ((∀ e : ScopedEntryRow, e.name.length ≤ 255 →
        (matchesEntry lib e (.inameLike pattern) = Bool.true ↔
          Satisfies db tables e (.inameLike pattern))) ↔
      TooLong (lib.toLowercase pattern).toUTF8.toList ∨
        ReadAlike (lib.toLowercase pattern).toUTF8.toList ∧
          ∀ b ∈ (lib.toLowercase pattern).toUTF8.toList, ¬ AsciiLetter b) := by
  constructor
  · rw [← like_agrees_iff]
    simp only [satisfies_nameLike hdb, matchesEntry]
    constructor
    · intro h name hname
      obtain ⟨e, rfl⟩ := exists_entry name
      exact h e hname
    · exact fun h e => h e.name
  · rw [← ilike_agrees_iff]
    simp only [satisfies_inameLike hdb, matchesEntry]
    constructor
    · intro h name hname
      obtain ⟨e, rfl⟩ := exists_entry name
      exact h e hname
    · exact fun h e => h e.name

namespace Sample

def asciiLibrary : TextLibrary where
  toLowercase s := s.map Char.toLower
  toUppercase s := s.map Char.toUpper
  isMatch _ _ := none

/-- A server with the LIKE of the manual. -/
def byteLike : MariaDb :=
  { MariaDb.generalCi with
    lower := fun
      | .text source s => .text source (s.map Char.toLower)
      | x => x
    other := fun test x y => match test, x, y with
      | .like, .bytes name, .text _ pattern =>
        .ofBool (decide (Wild.Matches (likeTokens pattern.toUTF8.toList) name))
      | _, _, _ => .unknown }

theorem byteLike_likes : LikeServer byteLike asciiLibrary where
  like name source pattern := by
    show Truth.ofBool (decide _) = .true ↔ _
    simp
  lower_bytes _ := rfl
  lower_text _ _ := rfl

end Sample

/-- A pattern of digits and wildcards means the same for both predicates. -/
theorem digits_agree :
    (∀ e : ScopedEntryRow, e.name.length ≤ 255 →
      (matchesEntry Sample.asciiLibrary e (.nameLike "%_1") = Bool.true ↔
        Satisfies Sample.byteLike ⟨[], []⟩ e (.nameLike "%_1"))) ∧
    (∀ e : ScopedEntryRow, e.name.length ≤ 255 →
      (matchesEntry Sample.asciiLibrary e (.inameLike "%_1") = Bool.true ↔
        Satisfies Sample.byteLike ⟨[], []⟩ e (.inameLike "%_1"))) := by
  obtain ⟨hlike, hilike⟩ :=
    name_patterns_agree_iff Sample.byteLike Sample.asciiLibrary Sample.byteLike_likes ⟨[], []⟩ "%_1"
  exact ⟨hlike.2 (.inr (by decide +kernel)), hilike.2 (.inr (by decide +kernel))⟩

/-- **An escaped underscore**: the database selects the name `a_b` with the pattern `a\_b`, as the import of
the glob `a_b` writes it, and the evaluation in memory does not.  A capital letter makes the difference
for the other predicate. -/
theorem escaped_underscore_differs :
    (matchesEntry Sample.asciiLibrary { Sample.unstriped with name := [97, 95, 98] } (.nameLike "a\\_b") =
        Bool.false ∧
      Satisfies Sample.byteLike ⟨[], []⟩ { Sample.unstriped with name := [97, 95, 98] }
        (.nameLike "a\\_b")) ∧
    (matchesEntry Sample.asciiLibrary { Sample.unstriped with name := [65] } (.inameLike "a") = Bool.true ∧
      ¬ Satisfies Sample.byteLike ⟨[], []⟩ { Sample.unstriped with name := [65] } (.inameLike "a")) := by
  rw [satisfies_nameLike Sample.byteLike_likes, satisfies_inameLike Sample.byteLike_likes]
  simp only [matchesEntry]
  refine ⟨⟨?_, by decide +kernel⟩, ?_, by decide +kernel⟩
  · decide +kernel
  · decide +kernel

end Robinhood.Predicate
