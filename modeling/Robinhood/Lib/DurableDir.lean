/-
# Lib.DurableDir — a directory that loses what was not synced

A directory has two tables of entries: the one processes see and the one the next crash leaves.  A file
is either synced, and then a crash keeps its data, or not, and then a crash may leave anything in its
place.  The kernel may write an entry or a file back at any time.

For a name all of whose files are synced (`Settled`) two readings are enough: `read`, what a process
reads now, and `kept`, what it reads after a crash.  The lemmas say what each operation does to them,
which is all a write-sync-rename protocol needs.
-/
import Mathlib

namespace Robinhood.Lib

structure DurableFile (β : Type) where
  data : β
  synced : Bool

/-- A directory over names `ν`, with files of data `β` under inode numbers. -/
structure DurableDir (ν β : Type) where
  /-- the entries processes see -/
  cached : ν → Option ℕ
  /-- the entries a crash leaves -/
  stored : ν → Option ℕ
  files : ℕ → DurableFile β

namespace DurableDir

variable {ν β : Type}

def read (d : DurableDir ν β) (n : ν) : Option β := (d.cached n).map fun i => (d.files i).data

/-- What a process would read under a name after a crash, if the file is synced. -/
def kept (d : DurableDir ν β) (n : ν) : Option β := (d.stored n).map fun i => (d.files i).data

/-- No entry for the name, seen or stored, leads to this inode. -/
def Apart (d : DurableDir ν β) (n : ν) (i : ℕ) : Prop := d.cached n ≠ some i ∧ d.stored n ≠ some i

def Settled (d : DurableDir ν β) (n : ν) : Prop :=
  ∀ i, d.cached n = some i ∨ d.stored n = some i → (d.files i).synced = true

/-! ## §1 — the operations -/

def create [DecidableEq ν] (d : DurableDir ν β) (n : ν) (i : ℕ) (b : β) :
    DurableDir ν β :=
  { d with cached := Function.update d.cached n (some i), files := Function.update d.files i ⟨b, false⟩ }

def write (d : DurableDir ν β) (i : ℕ) (b : β) : DurableDir ν β :=
  { d with files := Function.update d.files i ⟨b, false⟩ }

def sync (d : DurableDir ν β) (i : ℕ) : DurableDir ν β :=
  { d with files := Function.update d.files i ⟨(d.files i).data, true⟩ }

def rename [DecidableEq ν] (d : DurableDir ν β) (m n : ν) : DurableDir ν β :=
  { d with cached := Function.update (Function.update d.cached n (d.cached m)) m none }

def unlink [DecidableEq ν] (d : DurableDir ν β) (n : ν) : DurableDir ν β :=
  { d with cached := Function.update d.cached n none }

def syncDir (d : DurableDir ν β) : DurableDir ν β := { d with stored := d.cached }

inductive Writeback [DecidableEq ν] : DurableDir ν β → DurableDir ν β → Prop
  | file (d : DurableDir ν β) (i : ℕ) : Writeback d (d.sync i)
  | entry (d : DurableDir ν β) (n : ν) :
      Writeback d { d with stored := Function.update d.stored n (d.cached n) }

structure Crash (d d' : DurableDir ν β) : Prop where
  cached : d'.cached = d.stored
  stored : d'.stored = d.stored
  files : ∀ i, (d.files i).synced = true → d'.files i = d.files i

/-! ## §2 — frames -/

/-- `d'` has for the name what `d` has, and its files are synced if they were. -/
structure SameAt (n : ν) (d d' : DurableDir ν β) : Prop where
  settled : d.Settled n → d'.Settled n
  read : d'.read n = d.read n
  kept : d'.kept n = d.kept n

variable {d d' : DurableDir ν β} {n m : ν} {i : ℕ} {b : β}

theorem sameAt_files {f : DurableFile β} (h : d.Apart n i) :
    SameAt n d { d with files := Function.update d.files i f } where
  settled hs j hj := by
    have hne : j ≠ i := by
      rintro rfl
      exact hj.elim h.1 h.2
    simpa [Function.update_of_ne hne] using hs j hj
  read := by
    cases hc : d.cached n with
    | none => simp [DurableDir.read, hc]
    | some j =>
      have hne : j ≠ i := fun e => h.1 (e ▸ hc)
      simp [DurableDir.read, hc, Function.update_of_ne hne]
  kept := by
    cases hc : d.stored n with
    | none => simp [DurableDir.kept, hc]
    | some j =>
      have hne : j ≠ i := fun e => h.2 (e ▸ hc)
      simp [DurableDir.kept, hc, Function.update_of_ne hne]

theorem sameAt_cached {c : ν → Option ℕ} (h : c n = d.cached n) : SameAt n d { d with cached := c } where
  settled hs j hj := hs j (by simpa [h] using hj)
  read := by simp [DurableDir.read, h]
  kept := rfl

theorem SameAt.trans {d'' : DurableDir ν β} (h : SameAt n d d') (h' : SameAt n d' d'') :
    SameAt n d d'' :=
  ⟨fun hs => h'.settled (h.settled hs), h'.read.trans h.read, h'.kept.trans h.kept⟩

theorem sameAt_write (h : d.Apart n i) : SameAt n d (d.write i b) := sameAt_files h

theorem sameAt_sync : SameAt n d (d.sync i) where
  settled hs j hj := by
    by_cases hji : j = i
    · simp [sync, hji]
    · simpa [sync, Function.update_of_ne hji] using hs j hj
  read := by
    cases hc : d.cached n with
    | none => simp [DurableDir.read, sync, hc]
    | some j => by_cases hji : j = i <;> simp [DurableDir.read, sync, hc, hji]
  kept := by
    cases hc : d.stored n with
    | none => simp [DurableDir.kept, sync, hc]
    | some j => by_cases hji : j = i <;> simp [DurableDir.kept, sync, hc, hji]

theorem settled_syncDir (hs : d.Settled n) : d.syncDir.Settled n :=
  fun j hj => hs j (.inl (hj.elim id id))

@[simp] theorem read_syncDir : d.syncDir.read n = d.read n := rfl

@[simp] theorem kept_syncDir : d.syncDir.kept n = d.read n := rfl

theorem Crash.settled (h : Crash d d') (hs : d.Settled n) : d'.Settled n := by
  intro j hj
  rw [h.cached, h.stored, or_self] at hj
  have hsync := hs j (.inr hj)
  rw [h.files j hsync, hsync]

theorem Crash.kept (h : Crash d d') (hs : d.Settled n) : d'.kept n = d.kept n := by
  cases hc : d.stored n with
  | none => simp [DurableDir.kept, h.stored, hc]
  | some j => simp [DurableDir.kept, h.stored, hc, h.files j (hs j (.inr hc))]

theorem Crash.read (h : Crash d d') (hs : d.Settled n) : d'.read n = d.kept n := by
  rw [← h.kept hs, DurableDir.read, DurableDir.kept, h.cached, h.stored]

variable [DecidableEq ν]

theorem sameAt_create (hne : n ≠ m) (h : d.Apart n i) : SameAt n d (d.create m i b) :=
  have hc : Function.update d.cached m (some i) n = d.cached n := Function.update_of_ne hne _ _
  (sameAt_cached hc).trans (sameAt_files ⟨by simpa [hc] using h.1, h.2⟩)

theorem sameAt_unlink (hne : n ≠ m) : SameAt n d (d.unlink m) :=
  sameAt_cached (Function.update_of_ne hne _ _)

theorem sameAt_rename {k : ν} (hm : k ≠ m) (hn : k ≠ n) : SameAt k d (d.rename m n) :=
  sameAt_cached (by rw [Function.update_of_ne hm, Function.update_of_ne hn])

/-! ## §3 — renames and write-backs of the name itself -/

theorem settled_rename (hs : d.Settled n) (hne : n ≠ m) (hm : d.cached m = some i)
    (hi : (d.files i).synced = true) : (d.rename m n).Settled n := by
  rintro j (hj | hj)
  · have hij : i = j := by simpa [rename, Function.update_of_ne hne, hm] using hj
    exact hij ▸ hi
  · exact hs j (.inr hj)

theorem read_rename (hne : n ≠ m) : (d.rename m n).read n = d.read m := by
  simp [DurableDir.read, rename, Function.update_of_ne hne]

@[simp] theorem kept_rename : (d.rename m n).kept n = d.kept n := rfl

theorem Writeback.settled (h : Writeback d d') (hs : d.Settled n) : d'.Settled n := by
  cases h with
  | file i => exact sameAt_sync.settled hs
  | entry m =>
    rintro j (hj | hj)
    · exact hs j (.inl hj)
    · by_cases hmn : n = m
      · subst hmn
        exact hs j (.inl (by simpa using hj))
      · exact hs j (.inr (by simpa [Function.update_of_ne hmn] using hj))

theorem Writeback.read (h : Writeback d d') : d'.read n = d.read n := by
  cases h with
  | file i => exact sameAt_sync.read
  | entry m => rfl

theorem Writeback.kept (h : Writeback d d') : d'.kept n = d.kept n ∨ d'.kept n = d.read n := by
  cases h with
  | file i => exact .inl sameAt_sync.kept
  | entry m =>
    by_cases hmn : n = m
    · exact .inr (by simp [DurableDir.kept, DurableDir.read, hmn])
    · exact .inl (by simp [DurableDir.kept, Function.update_of_ne hmn])

/-! ## §4 — an inode that stays apart -/

theorem Apart.create {j : ℕ} (h : d.Apart n j) (hne : n ≠ m) : (d.create m i b).Apart n j :=
  ⟨by simpa [DurableDir.create, Function.update_of_ne hne] using h.1, h.2⟩

theorem Apart.writeback (h : d.Apart n i) (hw : Writeback d d') : d'.Apart n i := by
  cases hw with
  | file j => exact h
  | entry m =>
    refine ⟨h.1, ?_⟩
    by_cases hmn : n = m
    · simpa [hmn] using hmn ▸ h.1
    · simpa [Function.update_of_ne hmn] using h.2

end DurableDir

end Robinhood.Lib
