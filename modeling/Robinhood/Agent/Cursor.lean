/-
# Agent.Cursor — the cursor file of a volume

The changelog agent keeps one number per volume, the last acknowledged version, in a file of its own.
`FileStore.Commit` replaces the file: it writes the new number to a temporary file, syncs it, renames it
over the old one and syncs the directory.  Every one of these calls may fail, and a crash may come
between any two, so a commit is a relation between phases here.

What a volume's cursor is has two answers: `readCursor`, the number a process reads now, and
`keptCursor`, the number it reads after the host has crashed.
-/
import Mathlib
import Robinhood.Lib.DurableDir
import Robinhood.Lib.Text

namespace Robinhood.Agent

open Lib

/-- The cursor directory: file names and texts. -/
abbrev Disk := DurableDir String String

inductive CursorError
  | notPositive
  | unsafeVolume
  | readFailed
  | invalidStored
  | backwards (stored attempted : Int64)
  | io
  deriving DecidableEq, Repr

/-! ## §1 — the text of a cursor -/

/-- The line a commit writes. -/
def formatCursor (version : Int64) : String := version.toInt.repr ++ "\n"

/-- The cursor a file's text stands for; a volume without a file is at zero. -/
def parseCursor : Option String → Except CursorError Int64
  | none => .ok 0
  | some b =>
    match parseInt (trimSpace b.toList) with
    | none => .error .invalidStored
    | some v => if v < 0 then .error .invalidStored else .ok v

theorem nonneg_of_parseCursor {text : Option String} {v : Int64} (h : parseCursor text = .ok v) :
    0 ≤ v := by
  unfold parseCursor at h
  split at h
  · cases h
    decide
  · split at h
    · cases h
    · split at h
      · cases h
      · next hv =>
        cases h
        exact Int64.not_lt.1 hv

theorem trimSpace_line {cs : List Char} (hne : cs ≠ []) (h : ∀ c ∈ cs, c.isDigit = true) :
    trimSpace (cs ++ ['\n']) = cs := by
  have hfront : ∀ ds : List Char, ds ≠ [] → (∀ c ∈ ds, c.isDigit = true) → ∀ es,
      (ds ++ es).dropWhile isSpace = ds ++ es := by
    intro ds hds hd es
    cases ds with
    | nil => exact absurd rfl hds
    | cons c => simp [isSpace_of_isDigit (hd c (by simp))]
  have hback := hfront cs.reverse (by simpa using hne) (by simpa using h) []
  rw [trimSpace, hfront cs hne h, List.reverse_append]
  simp only [List.append_nil] at hback
  simp [show isSpace '\n' = true from rfl, hback]

/-- **A written cursor reads back.** -/
theorem parseCursor_formatCursor {version : Int64} (h : 0 < version) :
    parseCursor (some (formatCursor version)) = .ok version := by
  have hpos : 0 < version.toInt := by simpa [Int64.lt_iff_toInt_lt] using h
  have hlt : version.toInt < 2 ^ 63 := version.toInt_lt
  obtain ⟨n, hn⟩ := Int.eq_ofNat_of_zero_le hpos.le
  have hline : (formatCursor version).toList = Nat.toDigits 10 n ++ ['\n'] := by
    simp [formatCursor, hn, Int.repr, Nat.repr_eq_ofList_toDigits]
  have hdig : ∀ c ∈ Nat.toDigits 10 n, c.isDigit = true :=
    fun c hc => Nat.isDigit_of_mem_toDigits (by decide) (by decide) hc
  have hback : Int64.ofInt n = version := by rw [← hn, Int64.ofInt_toInt]
  have hnn : ¬ version < 0 := by grind
  simp only [parseCursor, hline, trimSpace_line Nat.toDigits_ne_nil hdig,
    parseInt_toDigits (show n < 2 ^ 63 by omega), hback, if_neg hnn]

/-! ## §2 — names -/

/-- A letter or digit first, then at most 127 letters, digits, dots, underscores and dashes. -/
def safeVolume (volume : String) : Bool :=
  match volume.toList with
  | [] => false
  | c :: cs =>
    c.isAlphanum && cs.length ≤ 127 && cs.all fun c => c.isAlphanum || c == '.' || c == '_' || c == '-'

def cursorName (volume : String) : String := volume ++ ".cursor"

def path (volume : String) : Except CursorError String :=
  if safeVolume volume then .ok (cursorName volume) else .error .unsafeVolume

def tempName (random : String) : String := ".cursor-" ++ random

theorem cursorName_injective : Function.Injective cursorName :=
  fun _ _ h => (String.append_left_inj _).1 h

theorem cursorName_ne_tempName {volume random : String} (h : safeVolume volume = true) :
    cursorName volume ≠ tempName random := by
  intro heq
  have hlist := congrArg String.toList heq
  rw [cursorName, tempName, String.toList_append, String.toList_append] at hlist
  unfold safeVolume at h
  cases hv : volume.toList with
  | nil => simp [hv] at h
  | cons c =>
    rw [hv] at h hlist
    have hc : c = '.' := by
      have := congrArg List.head? hlist
      simpa using this
    subst hc
    exact absurd h (by simp [show Char.isAlphanum '.' = false from rfl])

/-! ## §3 — reading and replacing a cursor -/

def readCursor (d : Disk) (name : String) : Except CursorError Int64 := parseCursor (d.read name)

/-- What the volume's cursor is after the host has crashed. -/
def keptCursor (d : Disk) (name : String) : Except CursorError Int64 := parseCursor (d.kept name)

/-- The checks of a commit before it writes: whether there is something to write. -/
def commitChecks (d : Disk) (volume : String) (version : Int64) : Except CursorError Bool := do
  if version ≤ 0 then throw .notPositive
  let name ← path volume
  let current ← readCursor d name
  if version < current then throw (.backwards current version)
  return version != current

theorem commitChecks_ok {d : Disk} {volume : String} {version : Int64} {b : Bool}
    (h : commitChecks d volume version = .ok b) :
    0 < version ∧ safeVolume volume = true ∧
      ∃ current, readCursor d (cursorName volume) = .ok current ∧ current ≤ version ∧
        b = (version != current) := by
  by_cases hpos : version ≤ 0
  · simp [commitChecks, hpos, bind, Except.bind, throw, throwThe, MonadExceptOf.throw] at h
  by_cases hsafe : safeVolume volume = true
  swap
  · simp [commitChecks, path, hpos, hsafe, bind, Except.bind] at h
  cases hr : readCursor d (cursorName volume) with
  | error => simp [commitChecks, path, hpos, hsafe, hr, bind, Except.bind] at h
  | ok current =>
    by_cases hlt : version < current
    · simp [commitChecks, path, hpos, hsafe, hr, hlt, bind, Except.bind, throw, throwThe,
        MonadExceptOf.throw] at h
    · have hb : (version != current) = b := by
        simpa [commitChecks, path, hpos, hsafe, hr, hlt, bind, Except.bind, pure, Except.pure] using h
      exact ⟨by grind, hsafe, current, rfl, by grind, hb.symm⟩

inductive CommitPhase
  | create
  | chmod (tmp : String) (ino : ℕ)
  | write (tmp : String) (ino : ℕ)
  | sync (tmp : String) (ino : ℕ)
  | close (tmp : String) (ino : ℕ)
  | rename (tmp : String) (ino : ℕ)
  | openDir (tmp : String)
  | syncDir (tmp : String)
  /-- the deferred removal of the temporary file, with the result it returns after it -/
  | cleanup (tmp : String) (result : Except CursorError Unit)
  | done (result : Except CursorError Unit)

inductive CommitStep (volume : String) (version : Int64) :
    Disk → CommitPhase → Disk → CommitPhase → Prop
  | created (d : Disk) (random : String) (ino : ℕ) (hname : d.cached (tempName random) = none)
      (hino : ∀ n, d.Apart n ino) :
      CommitStep volume version d .create (d.create (tempName random) ino "")
        (.chmod (tempName random) ino)
  | createFailed (d : Disk) : CommitStep volume version d .create d (.done (.error .io))
  | chmodded (d : Disk) (tmp : String) (ino : ℕ) :
      CommitStep volume version d (.chmod tmp ino) d (.write tmp ino)
  | chmodFailed (d : Disk) (tmp : String) (ino : ℕ) :
      CommitStep volume version d (.chmod tmp ino) d (.cleanup tmp (.error .io))
  | written (d : Disk) (tmp : String) (ino : ℕ) :
      CommitStep volume version d (.write tmp ino) (d.write ino (formatCursor version)) (.sync tmp ino)
  -- a write that fails may have written a part of the line
  | writeFailed (d : Disk) (tmp : String) (ino : ℕ) (b : String) :
      CommitStep volume version d (.write tmp ino) (d.write ino b) (.cleanup tmp (.error .io))
  | synced (d : Disk) (tmp : String) (ino : ℕ) :
      CommitStep volume version d (.sync tmp ino) (d.sync ino) (.close tmp ino)
  | syncFailed (d : Disk) (tmp : String) (ino : ℕ) :
      CommitStep volume version d (.sync tmp ino) d (.cleanup tmp (.error .io))
  | closed (d : Disk) (tmp : String) (ino : ℕ) :
      CommitStep volume version d (.close tmp ino) d (.rename tmp ino)
  | closeFailed (d : Disk) (tmp : String) (ino : ℕ) :
      CommitStep volume version d (.close tmp ino) d (.cleanup tmp (.error .io))
  | renamed (d : Disk) (tmp : String) (ino : ℕ) :
      CommitStep volume version d (.rename tmp ino) (d.rename tmp (cursorName volume)) (.openDir tmp)
  | renameFailed (d : Disk) (tmp : String) (ino : ℕ) :
      CommitStep volume version d (.rename tmp ino) d (.cleanup tmp (.error .io))
  | dirOpened (d : Disk) (tmp : String) :
      CommitStep volume version d (.openDir tmp) d (.syncDir tmp)
  | dirOpenFailed (d : Disk) (tmp : String) :
      CommitStep volume version d (.openDir tmp) d (.cleanup tmp (.error .io))
  | dirSynced (d : Disk) (tmp : String) :
      CommitStep volume version d (.syncDir tmp) d.syncDir (.cleanup tmp (.ok ()))
  | dirSyncFailed (d : Disk) (tmp : String) :
      CommitStep volume version d (.syncDir tmp) d (.cleanup tmp (.error .io))
  | removed (d : Disk) (tmp : String) (result : Except CursorError Unit) :
      CommitStep volume version d (.cleanup tmp result) (d.unlink tmp) (.done result)
  -- after the rename there is nothing left to remove, and the error is not looked at
  | removeFailed (d : Disk) (tmp : String) (result : Except CursorError Unit) :
      CommitStep volume version d (.cleanup tmp result) d (.done result)

/-! ## §4 — the cell a cursor is -/

/-- **The abstract cursor**: a number as processes see it, and the one a crash falls back to. -/
structure Cell where
  view : Int64
  durable : Int64

/-- What may happen to a cell: it is replaced by a greater number that `attempt` allows, it is stored,
or it falls back. -/
inductive CellStep (attempt : Int64 → Prop) : Cell → Cell → Prop
  | stay (c : Cell) : CellStep attempt c c
  | replace (c : Cell) (v : Int64) : attempt v → c.view < v → CellStep attempt c ⟨v, c.durable⟩
  | store (c : Cell) : CellStep attempt c ⟨c.view, c.view⟩
  | fallBack (c : Cell) : CellStep attempt c ⟨c.durable, c.durable⟩

namespace CellStep

variable {attempt : Int64 → Prop} {c c' : Cell}

theorem mono {attempt' : Int64 → Prop} (h : CellStep attempt c c')
    (hsub : ∀ v, attempt v → attempt' v) : CellStep attempt' c c' := by
  cases h with
  | stay => exact .stay c
  | replace v hv hlt => exact .replace c v (hsub v hv) hlt
  | store => exact .store c
  | fallBack => exact .fallBack c

/-- **The durable number never decreases.** -/
theorem durable_le_durable (h : CellStep attempt c c') (hc : c.durable ≤ c.view) :
    c.durable ≤ c'.durable := by
  cases h <;> grind

theorem preserves {P : Int64 → Prop} (h : CellStep attempt c c') (hattempt : ∀ v, attempt v → P v)
    (hview : P c.view) (hdurable : P c.durable) : P c'.view ∧ P c'.durable := by
  cases h with
  | stay => exact ⟨hview, hdurable⟩
  | replace v hv => exact ⟨hattempt v hv, hdurable⟩
  | store => exact ⟨hview, hview⟩
  | fallBack => exact ⟨hdurable, hdurable⟩

theorem old_or_new (h : CellStep attempt c c') :
    (c'.view = c.view ∨ c'.view = c.durable ∨ attempt c'.view) ∧
      (c'.durable = c.durable ∨ c'.durable = c.view) := by
  cases h with
  | stay => exact ⟨.inl rfl, .inl rfl⟩
  | replace v hv => exact ⟨.inr (.inr hv), .inl rfl⟩
  | store => exact ⟨.inl rfl, .inr rfl⟩
  | fallBack => exact ⟨.inr (.inl rfl), .inl rfl⟩

end CellStep

/-- **The directory holds the cell**: the volume's files are synced, its cursor reads as the one number
and reads as the other after a crash. -/
structure CursorIs (d : Disk) (volume : String) (c : Cell) : Prop where
  settled : d.Settled (cursorName volume)
  read : readCursor d (cursorName volume) = .ok c.view
  kept : keptCursor d (cursorName volume) = .ok c.durable
  le : c.durable ≤ c.view

namespace CursorIs

variable {d d' : Disk} {volume : String} {c : Cell}

theorem unique {c' : Cell} (h : CursorIs d volume c) (h' : CursorIs d volume c') : c = c' := by
  have hview : c.view = c'.view := Except.ok.inj (h.read.symm.trans h'.read)
  have hdurable : c.durable = c'.durable := Except.ok.inj (h.kept.symm.trans h'.kept)
  cases c
  cases c'
  simp_all

theorem sameAt (h : CursorIs d volume c) (hs : DurableDir.SameAt (cursorName volume) d d') :
    CursorIs d' volume c where
  settled := hs.settled h.settled
  read := by rw [readCursor, hs.read]; exact h.read
  kept := by rw [keptCursor, hs.kept]; exact h.kept
  le := h.le

theorem syncDir (h : CursorIs d volume c) : CursorIs d.syncDir volume ⟨c.view, c.view⟩ where
  settled := DurableDir.settled_syncDir h.settled
  read := h.read
  kept := h.read
  le := Int64.le_refl _

theorem writeback (h : CursorIs d volume c) (hw : DurableDir.Writeback d d') :
    CursorIs d' volume c ∨ CursorIs d' volume ⟨c.view, c.view⟩ := by
  have hread : readCursor d' (cursorName volume) = .ok c.view := by
    rw [readCursor, hw.read]
    exact h.read
  rcases hw.kept (n := cursorName volume) with hk | hk
  · exact .inl ⟨hw.settled h.settled, hread, by rw [keptCursor, hk]; exact h.kept, h.le⟩
  · exact .inr ⟨hw.settled h.settled, hread, by rw [keptCursor, hk]; exact h.read, Int64.le_refl _⟩

theorem crash (h : CursorIs d volume c) (hc : DurableDir.Crash d d') :
    CursorIs d' volume ⟨c.durable, c.durable⟩ where
  settled := hc.settled h.settled
  read := by rw [readCursor, hc.read h.settled]; exact h.kept
  kept := by rw [keptCursor, hc.kept h.settled]; exact h.kept
  le := Int64.le_refl _

end CursorIs

/-! ## §5 — a commit replaces the cell -/

structure OwnTemp (d : Disk) (tmp : String) (ino : ℕ) : Prop where
  name : ∃ random, tmp = tempName random
  entry : d.cached tmp = some ino
  apart : ∀ u, safeVolume u = true → d.Apart (cursorName u) ino

def Prepared (d : Disk) (version : Int64) : CommitPhase → Prop
  | .create => True
  | .chmod tmp ino => OwnTemp d tmp ino
  | .write tmp ino => OwnTemp d tmp ino
  | .sync tmp ino => OwnTemp d tmp ino ∧ (d.files ino).data = formatCursor version
  | .close tmp ino => OwnTemp d tmp ino ∧ d.files ino = ⟨formatCursor version, true⟩
  | .rename tmp ino => OwnTemp d tmp ino ∧ d.files ino = ⟨formatCursor version, true⟩
  | .openDir tmp => ∃ random, tmp = tempName random
  | .syncDir tmp => ∃ random, tmp = tempName random
  | .cleanup tmp _ => ∃ random, tmp = tempName random
  | .done _ => True

/-- Where the committed volume's cell stands at a phase: up to the rename it is below the version, after
it the version is seen, and a commit that is about to succeed has stored it. -/
def CommitPhase.Stands (version : Int64) (c : Cell) : CommitPhase → Prop
  | .create | .chmod .. | .write .. | .sync .. | .close .. | .rename .. => c.view < version
  | .openDir _ | .syncDir _ => c.view = version
  | .cleanup _ (.ok ()) | .done (.ok ()) => version ≤ c.durable
  | .cleanup _ (.error _) | .done (.error _) => True

section Commit

variable {d d' : Disk} {volume u : String} {version : Int64} {p p' : CommitPhase} {c : Cell}

theorem OwnTemp.create {random : String} {ino : ℕ} (h : ∀ n, d.Apart n ino) :
    OwnTemp (d.create (tempName random) ino "") (tempName random) ino where
  name := ⟨random, rfl⟩
  entry := by simp [DurableDir.create]
  apart u hu := (h _).create (cursorName_ne_tempName hu)

theorem OwnTemp.files {tmp : String} {ino : ℕ} (h : OwnTemp d tmp ino) (f : DurableFile String) :
    OwnTemp { d with files := Function.update d.files ino f } tmp ino :=
  ⟨h.name, h.entry, h.apart⟩

theorem OwnTemp.writeback {tmp : String} {ino : ℕ} (h : OwnTemp d tmp ino)
    (hw : DurableDir.Writeback d d') : OwnTemp d' tmp ino where
  name := h.name
  entry := by
    cases hw with
    | file | entry => exact h.entry
  apart u hu := (h.apart u hu).writeback hw

theorem CommitStep.prepared (h : CommitStep volume version d p d' p') (hp : Prepared d version p) :
    Prepared d' version p' := by
  cases h with
  | created random ino hname hino => exact .create hino
  | createFailed => trivial
  | chmodded => exact hp
  | chmodFailed => exact hp.name
  | written => exact ⟨hp.files _, by simp [DurableDir.write]⟩
  | writeFailed => exact hp.name
  | synced =>
    obtain ⟨hown, hdata⟩ := hp
    exact ⟨hown.files _, by simp [DurableDir.sync, hdata]⟩
  | syncFailed => exact hp.1.name
  | closed => exact hp
  | closeFailed | renamed | renameFailed => exact hp.1.name
  | dirOpened | dirOpenFailed | dirSynced | dirSyncFailed => exact hp
  | removed | removeFailed => trivial

theorem Prepared.writeback (hp : Prepared d version p) (hw : DurableDir.Writeback d d') :
    Prepared d' version p := by
  have hfile : ∀ ino, d'.files ino = d.files ino ∨ d'.files ino = ⟨(d.files ino).data, true⟩ := by
    intro ino
    cases hw with
    | file i =>
      by_cases hi : ino = i
      · exact .inr (by simp [DurableDir.sync, hi])
      · exact .inl (by simp [DurableDir.sync, Function.update_of_ne hi])
    | entry => exact .inl rfl
  have hsynced : ∀ ino b, d.files ino = ⟨b, true⟩ → d'.files ino = ⟨b, true⟩ := by
    intro ino b hb
    rcases hfile ino with hf | hf <;> rw [hf, hb]
  cases p with
  | create => trivial
  | chmod | write => exact OwnTemp.writeback hp hw
  | sync tmp ino =>
    refine ⟨hp.1.writeback hw, ?_⟩
    rcases hfile ino with hf | hf <;> rw [hf] <;> exact hp.2
  | close _ ino | rename _ ino => exact ⟨hp.1.writeback hw, hsynced ino _ hp.2⟩
  | openDir | syncDir | cleanup => exact hp
  | done => trivial

theorem CursorIs.rename {tmp : String} {ino : ℕ} (h : CursorIs d volume c)
    (hsafe : safeVolume volume = true) (hp : Prepared d version (.rename tmp ino))
    (hpos : 0 < version) (hlt : c.view < version) :
    CursorIs (d.rename tmp (cursorName volume)) volume ⟨version, c.durable⟩ := by
  obtain ⟨⟨⟨random, rfl⟩, hentry, -⟩, hfile⟩ := hp
  have hne : cursorName volume ≠ tempName random := cursorName_ne_tempName hsafe
  refine ⟨DurableDir.settled_rename h.settled hne hentry (by rw [hfile]), ?_, h.kept, ?_⟩
  · rw [readCursor, DurableDir.read_rename hne, DurableDir.read, hentry, Option.map_some, hfile]
    exact parseCursor_formatCursor hpos
  · have := h.le
    grind

/-- **One call of a commit is one step of every volume's cell**: the rename replaces the committed
volume's, the directory sync stores them all, and the other calls touch none. -/
theorem CommitStep.cell (h : CommitStep volume version d p d' p') (hp : Prepared d version p)
    (hsafe : safeVolume volume = true) (hpos : 0 < version) (hu : safeVolume u = true)
    (hc : CursorIs d u c) (hst : u = volume → p.Stands version c) :
    ∃ c', CursorIs d' u c' ∧ CellStep (fun v => u = volume ∧ v = version) c c' ∧
      (u = volume → p'.Stands version c') := by
  have hkeep : DurableDir.SameAt (cursorName u) d d' → (p.Stands version c → p'.Stands version c) →
      ∃ c', CursorIs d' u c' ∧ CellStep (fun v => u = volume ∧ v = version) c c' ∧
        (u = volume → p'.Stands version c') :=
    fun hsame hphase => ⟨c, hc.sameAt hsame, .stay c, fun he => hphase (hst he)⟩
  have hself : DurableDir.SameAt (cursorName u) d d := ⟨id, rfl, rfl⟩
  cases h with
  | created random ino hname hino =>
    exact hkeep (DurableDir.sameAt_create (cursorName_ne_tempName hu) (hino _)) id
  | createFailed => exact hkeep hself fun _ => trivial
  | chmodded => exact hkeep hself id
  | chmodFailed => exact hkeep hself fun _ => trivial
  | written => exact hkeep (DurableDir.sameAt_write (hp.apart u hu)) id
  | writeFailed => exact hkeep (DurableDir.sameAt_write (hp.apart u hu)) fun _ => trivial
  | synced => exact hkeep DurableDir.sameAt_sync id
  | syncFailed => exact hkeep hself fun _ => trivial
  | closed => exact hkeep hself id
  | closeFailed => exact hkeep hself fun _ => trivial
  | renamed =>
    by_cases he : u = volume
    · subst he
      exact ⟨⟨version, c.durable⟩, hc.rename hsafe hp hpos (hst rfl),
        .replace c version ⟨rfl, rfl⟩ (hst rfl), fun _ => rfl⟩
    · obtain ⟨random, rfl⟩ := hp.1.name
      have hsame : DurableDir.SameAt (cursorName u) d
          (d.rename (tempName random) (cursorName volume)) :=
        DurableDir.sameAt_rename (cursorName_ne_tempName hu) (cursorName_injective.ne he)
      exact ⟨c, hc.sameAt hsame, .stay c, fun h => absurd h he⟩
  | renameFailed => exact hkeep hself fun _ => trivial
  | dirOpened => exact hkeep hself id
  | dirOpenFailed => exact hkeep hself fun _ => trivial
  | dirSynced =>
    exact ⟨⟨c.view, c.view⟩, hc.syncDir, .store c,
      fun he => Int64.le_of_eq (hst he).symm⟩
  | dirSyncFailed => exact hkeep hself fun _ => trivial
  | removed tmp result =>
    obtain ⟨random, rfl⟩ := hp
    refine hkeep (DurableDir.sameAt_unlink (cursorName_ne_tempName hu)) fun h => ?_
    cases result <;> exact h
  | removeFailed tmp result =>
    refine hkeep hself fun h => ?_
    cases result <;> exact h

theorem CommitPhase.Stands.store {c' : Cell} (h : p.Stands version c) (hview : c'.view = c.view)
    (hle : c.durable ≤ c'.durable) : p.Stands version c' := by
  cases p with
  | cleanup tmp result =>
    cases result with
    | ok => exact Int64.le_trans (h : version ≤ c.durable) hle
    | error => trivial
  | done result =>
    cases result with
    | ok => exact Int64.le_trans (h : version ≤ c.durable) hle
    | error => trivial
  | _ => simpa [CommitPhase.Stands, hview] using h

end Commit

end Robinhood.Agent
