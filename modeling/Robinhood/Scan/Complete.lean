/-
# Scan.Complete — a walk reports a quiet tree exactly once

`reports` is what a recursive walk would report: a directory, then its entries that are not ignored, going
down while the depth allows.  The workers of `PosixWalker::run` share a queue and a counter instead.  Over a
finite tree on which no call fails they report just that in some order, close the queue only when there is
nothing left to do, and all stop.
-/
import Mathlib
import Robinhood.Scan.Posix

namespace Robinhood.Scan

open Lib Posix Store

variable (mount : WalkMount) (config : ScanConfig)

/-- **A tree of at most `height` levels on which no call fails.** -/
def Quiet : ℕ → Path → ℕ → Prop
  | 0, _, _ => False
  | height + 1, path, depth =>
    (∃ entry, statEntry mount path (UInt32.ofNat depth) = .ok entry) ∧
    ∃ entries : List DirEntry, mount.readDir path = .ok (entries.map .ok) ∧ ∀ entry ∈ entries,
      ∃ kind, entry.fileType = .ok kind ∧
        if kind = .directory then Quiet height (path.push entry.fileName) (depth + 1)
        else ∃ found, statEntry mount (path.push entry.fileName) (UInt32.ofNat depth + 1) = .ok found

def report (path : Path) (depth : UInt32) : List PosixWalkEvent :=
  match statEntry mount path depth with
  | .ok entry => [.entry entry]
  | .error _ => []

/-- **What is to be reported** of a directory and what is below it. -/
def reports : ℕ → Path → ℕ → List PosixWalkEvent
  | 0, _, _ => []
  | height + 1, path, depth =>
    report mount path (UInt32.ofNat depth) ++
      ((mount.readDir path).toOption.getD []).flatMap fun
        | .error _ => []
        | .ok entry =>
          if ignored mount config entry.fileName then []
          else match entry.fileType with
            | .ok .directory =>
              if config.maxDepth.all fun maximum => depth < maximum then
                reports height (path.push entry.fileName) (depth + 1)
              else []
            | .ok _ => report mount (path.push entry.fileName) (UInt32.ofNat depth + 1)
            | .error _ => []

variable {mount config}

theorem emitPath_eq {path : Path} {depth : UInt32} {directory : Bool} (hsince : config.sinceMtime = none)
    (h : ∃ entry, statEntry mount path depth = .ok entry) :
    emitPath mount config path depth directory = (report mount path depth).map .emit := by
  obtain ⟨entry, hentry⟩ := h
  simp [emitPath, report, hentry, hsince]

theorem processEntries_eq (directory : Path) (depth : ℕ) (entries : List DirEntry) :
    processEntries mount config directory depth (entries.map .ok) =
      entries.flatMap (processEntry mount config directory depth) := by
  induction entries with
  | nil => rfl
  | cons entry entries ih => rw [List.map_cons, processEntries, ih, List.flatMap_cons]

theorem processEntry_eq {directory : Path} {depth : ℕ} {entry : DirEntry} {kind : EntryKind}
    (hsince : config.sinceMtime = none) (hkind : entry.fileType = .ok kind)
    (hstat : kind ≠ .directory → ∃ found,
      statEntry mount (directory.push entry.fileName) (UInt32.ofNat depth + 1) = .ok found) :
    processEntry mount config directory depth entry =
      if ignored mount config entry.fileName then []
      else if kind = .directory then
        if config.maxDepth.all fun maximum => depth < maximum then
          [.push (directory.push entry.fileName, depth + 1)]
        else []
      else (report mount (directory.push entry.fileName) (UInt32.ofNat depth + 1)).map .emit := by
  rw [processEntry, hkind]
  cases kind with
  | directory => rfl
  | _ => simp only [emitPath_eq hsince (hstat (by simp)), reduceCtorEq, if_false]

section Tree

variable {height depth : ℕ} {path : Path} (hsince : config.sinceMtime = none)
include hsince

/-- **A directory that is pushed** is one level further down. -/
theorem Quiet.pushed {next : Path × ℕ} (h : Quiet mount height path depth)
    (hpush : .push next ∈ processDirectory mount config (path, depth)) :
    0 < height ∧ next.2 = depth + 1 ∧ Quiet mount (height - 1) next.1 next.2 := by
  cases height with
  | zero => cases h
  | succ height =>
    obtain ⟨hstat, entries, hread, hentries⟩ := h
    rw [processDirectory, hread, emitPath_eq hsince hstat] at hpush
    simp only [processEntries_eq, List.mem_append, List.mem_map, reduceCtorEq, and_false, exists_false, false_or,
      List.mem_flatMap] at hpush
    obtain ⟨entry, hentry, hpush⟩ := hpush
    obtain ⟨kind, hkind, hbelow⟩ := hentries entry hentry
    rw [processEntry_eq hsince hkind fun hne => by rwa [if_neg hne] at hbelow] at hpush
    split_ifs at hpush with hignored hdir hdepth
    · cases hpush
    · obtain rfl : next = _ := by simpa using hpush
      rw [if_pos hdir] at hbelow
      exact ⟨Nat.succ_pos _, rfl, hbelow⟩
    · cases hpush
    · simp at hpush

/-- **What is to be reported** of a directory is what its script emits, with the reports of those it
pushes. -/
theorem reports_eq (h : Quiet mount (height + 1) path depth) :
    reports mount config (height + 1) path depth = (processDirectory mount config (path, depth)).flatMap fun
      | .emit event => [event]
      | .push next => reports mount config height next.1 next.2 := by
  obtain ⟨hstat, entries, hread, hentries⟩ := h
  rw [reports, processDirectory, hread, emitPath_eq hsince hstat]
  dsimp only [Except.toOption, Option.getD]
  rw [processEntries_eq, List.flatMap_append, List.flatMap_assoc, List.flatMap_map, List.flatMap_map]
  refine congrArg₂ (· ++ ·) (List.flatMap_singleton' _).symm (List.flatMap_congr fun entry hentry => ?_)
  obtain ⟨kind, hkind, hbelow⟩ := hentries entry hentry
  rw [processEntry_eq hsince hkind fun hne => by rwa [if_neg hne] at hbelow]
  by_cases hignored : ignored mount config entry.fileName = true
  · simp only [if_pos hignored, List.flatMap_nil]
  · simp only [if_neg hignored, hkind]
    cases kind with
    | directory =>
      simp only [if_true]
      split_ifs <;> simp
    | _ =>
      simp only [reduceCtorEq, if_false, List.flatMap_map]
      exact (List.flatMap_singleton' _).symm

end Tree

/-- **The walk is complete and stops.**  Of a finite tree on which no call fails, without a filter of times
and in every interleaving of the workers and the consumer: the queue is closed only when it is empty and no
worker is at a directory; a walk that has come to its end has delivered `reports`, each once; before that
some step is possible; and no walk goes on for ever. -/
theorem walk_complete {height : ℕ} (hchannel : 0 < config.channelSize) (hsince : config.sinceMtime = none)
    (hquiet : Quiet mount height config.root 0) :
    (∀ state, Walking mount config state → state.closed = true →
      state.queue = [] ∧ ∀ w ∈ state.workers, w.rest = none) ∧
    (∀ state, Walking mount config state → state.Finished →
      state.received.Perm (reports mount config height config.root 0)) ∧
    (∀ state, Walking mount config state → ¬ state.Finished →
      ∃ next, WorkQueue.Step (processDirectory mount config) config.channelSize state next) ∧
    ∀ run : ℕ → WalkState, run 0 = WorkQueue.init (config.root, 0) (max config.concurrency 1) →
      ¬ ∀ i, WorkQueue.Step (processDirectory mount config) config.channelSize (run i) (run (i + 1)) := by
  have hreached : ∀ job, WorkQueue.Reached (processDirectory mount config) (config.root, 0) job →
      Quiet mount (height - job.2) job.1 job.2 := by
    intro job hjob
    induction hjob with
    | refl => exact hquiet
    | @tail job next _ hpush ih =>
      obtain ⟨-, hdepth, hbelow⟩ := ih.pushed hsince hpush
      rwa [hdepth, ← Nat.sub_sub, ← hdepth]
  obtain ⟨cost, hpays⟩ := WorkQueue.exists_pays (fun job : Path × ℕ => height - job.2) fun job next hjob hpush => by
    obtain ⟨hpos, hdepth, -⟩ := (hreached job hjob).pushed hsince hpush
    omega
  refine ⟨fun state h => (WorkQueue.counted_of_runs h).empty_of_closed, fun state h hfinished => ?_,
    fun state h => WorkQueue.exists_step hchannel h, fun run hinit => WorkQueue.not_endless hpays run hinit⟩
  refine WorkQueue.received_perm_of_finished (by omega)
    (fun job : Path × ℕ => reports mount config (height - job.2) job.1 job.2) (fun job hjob => ?_) h hfinished
  have hjob := hreached job hjob
  cases hheight : height - job.2 with
  | zero =>
    rw [hheight] at hjob
    cases hjob
  | succ below =>
    rw [hheight] at hjob
    rw [reports_eq hsince hjob]
    refine List.flatMap_congr fun op hop => ?_
    cases op with
    | emit => rfl
    | push next =>
      obtain ⟨-, hdepth, -⟩ := hjob.pushed hsince hop
      dsimp only
      rw [show height - next.2 = below by omega]

namespace Sample

/-- `/m` holds the file `a` and the empty directory `d`. -/
def root : Path := [.rootDir, .normal [109]]

def smallMount : WalkMount where
  symlinkMetadata _ := .ok ⟨.file, 1, 1, 0, 0, 0, 0, 0, 0, 0, 0⟩
  canonicalize path := .ok path
  fidToPath _ := .error ⟨2⟩
  pathToFid _ := .error ⟨2⟩
  readDir path := if path = root then .ok [.ok ⟨[97], .ok .file⟩, .ok ⟨[100], .ok .directory⟩] else .ok []
  readToString _ := .error ⟨2⟩
  describe _ := ""
  display _ := ""

theorem statEntry_smallMount (path : Path) (depth : UInt32) : ∃ entry, statEntry smallMount path depth = .ok entry := by
  simp only [statEntry, smallMount, bind, Except.bind]
  split_ifs
  · exact ⟨_, rfl⟩
  · rcases path.parent with _ | parent <;> exact ⟨_, rfl⟩

theorem smallMount_quiet : Quiet smallMount 2 root 0 := by
  refine ⟨statEntry_smallMount .., [⟨[97], .ok .file⟩, ⟨[100], .ok .directory⟩], rfl, fun entry hentry => ?_⟩
  simp only [List.mem_cons, List.not_mem_nil, or_false] at hentry
  rcases hentry with rfl | rfl
  · exact ⟨.file, rfl, statEntry_smallMount ..⟩
  · exact ⟨.directory, rfl, statEntry_smallMount .., [], rfl, nofun⟩

/-- Four workers over that tree. -/
theorem smallMount_walked : Quiet smallMount 2 root 0 ∧ ∀ state, Walking smallMount (namespaceScan root) state → state.Finished →
    state.received.Perm (reports smallMount (namespaceScan root) 2 root 0) :=
  ⟨smallMount_quiet, (@walk_complete smallMount (namespaceScan root) 2 (by decide) rfl smallMount_quiet).2.1⟩

end Sample

end Robinhood.Scan
