/-
# Policy.Dispatch — handing candidates to workers

`dispatch_backend_action` and `dispatch_workers` (`rbh-policy/src/task.rs`) go through the candidates of a
policy run: hard-linked entries may be passed over, the volume cap stops the loop, every other entry goes
to a worker of its own that executes the action and retries it.  The two are written separately.  The
backend dispatcher runs each execution in a task of its own behind
`execute_backend_action_with_completion_barrier`; the other one drops the execution when its time is up.

Both are worker pools.  The rate limiter only delays the loop and is left out, as is a worker that panics.
-/
import Mathlib
import Robinhood.Lib.WorkerPool
import Robinhood.Lib.Retry
import Robinhood.Store.Lustre

namespace Robinhood.Policy

open Lib Store

/-! ## §1 — Parameters and outcomes -/

/-- `RetryParams`. -/
structure RetryParams where
  maxAttempts : UInt32
  backoffSecs : UInt64
deriving DecidableEq, Repr

/-- What both dispatchers are given beside the candidates. -/
structure DispatchParams where
  concurrency : ℕ
  maxVolume : Option UInt64
  timeoutSecs : Option UInt64
  retry : Option RetryParams
  skipHardlinked : Bool
deriving DecidableEq, Repr

/-- How often an entry is tried at most. -/
def DispatchParams.attempts (params : DispatchParams) : ℕ :=
  match params.retry with
  | some retry => max retry.maxAttempts.toNat 1
  | none => 1

/-- `BackendActionOutcome`, of any action. -/
inductive BackendActionOutcome where
  | success
  | alreadyMissing
  | failed (error : String) (retryable : Bool)
deriving DecidableEq, Repr

/-- `ActionOutcome`. -/
inductive ActionOutcome where
  | success
  | skipped (reason : String)
  | failed (error : String)
deriving DecidableEq, Repr

/-- What an execution of a backend action answers; an `ActionError` is kept as its text. -/
abbrev BackendResult := Except String BackendActionOutcome

/-- What `ActionExecutor::execute` answers. -/
abbrev ActionResult := Except String ActionOutcome

/-- `WorkerOutcome`. -/
inductive WorkerOutcome where
  | success
  | skipped
  | failed
deriving DecidableEq, Repr

/-- `u64::saturating_add`. -/
def saturatingAdd (a b : UInt64) : UInt64 :=
  if a.toNat + b.toNat < 2 ^ 64 then a + b else 18446744073709551615

theorem toNat_saturatingAdd (a b : UInt64) :
    (saturatingAdd a b).toNat = min (a.toNat + b.toNat) (2 ^ 64 - 1) := by
  unfold saturatingAdd
  split_ifs with h
  · rw [UInt64.toNat_add, Nat.mod_eq_of_lt h]
    omega
  · show 18446744073709551615 = _
    omega

/-! ## §2 — The backend dispatcher -/

/-- Where a worker of `dispatch_backend_action` stands; the middle ones are the await points of
`execute_backend_action_with_completion_barrier`. -/
inductive BackendPhase where
  | ready
  | waiting
  | recording
  | awaiting
  | backingOff
  | done (outcome : WorkerOutcome)
deriving DecidableEq, Repr

/-- **A worker of `dispatch_backend_action`.**  `executions` are the tasks it spawned, in order, `none`
while one runs; `returned` is what the barrier answered, attempt by attempt. -/
structure BackendWorker where
  attempt : ℕ
  phase : BackendPhase
  executions : List (Option BackendResult)
  returned : List BackendResult
deriving DecidableEq

/-- What a worker does on each step. -/
inductive BackendEvent where
  | start
  | giveUp
  | complete (result : BackendResult)
  | timeOut
  | deliver
  | recorded
  | recordFailed (error : String)
  | wake
  | exhausted
deriving DecidableEq

def BackendWorker.settle (attempts : ℕ) (w : BackendWorker) (result : BackendResult) : BackendWorker :=
  { w with
    returned := w.returned ++ [result]
    phase := match result with
      | .ok .success => .done .success
      | .ok .alreadyMissing => .done .skipped
      | .ok (.failed _ false) => .done .failed
      | .ok (.failed _ true) | .error _ =>
        if w.attempt < attempts then .backingOff else .done .failed }

/-- **One step of a worker of `dispatch_backend_action`.** -/
inductive BackendStep (params : DispatchParams) (cancelled : Bool) :
    BackendWorker → BackendEvent → BackendWorker → Prop
  | start {w : BackendWorker} (hphase : w.phase = .ready) (h : cancelled = false) :
      BackendStep params cancelled w .start
        { w with
          executions := w.executions ++ [none]
          phase := if params.timeoutSecs.isSome then .waiting else .awaiting }
  | giveUp {w : BackendWorker} (hphase : w.phase = .ready) (h : cancelled = true) :
      BackendStep params cancelled w .giveUp { w with phase := .done .skipped }
  -- the task is detached: it may complete in any phase
  | complete {w : BackendWorker} {before after : List (Option BackendResult)} (result : BackendResult)
      (h : w.executions = before ++ none :: after) :
      BackendStep params cancelled w (.complete result)
        { w with executions := before ++ some result :: after }
  | timeOut {w : BackendWorker} (hphase : w.phase = .waiting) (h : w.executions.getLast? = some none) :
      BackendStep params cancelled w .timeOut { w with phase := .recording }
  | deliver {w : BackendWorker} {result : BackendResult} (hphase : w.phase = .waiting ∨ w.phase = .awaiting)
      (h : w.executions.getLast? = some (some result)) :
      BackendStep params cancelled w .deliver (w.settle params.attempts result)
  | recorded {w : BackendWorker} (hphase : w.phase = .recording) :
      BackendStep params cancelled w .recorded { w with phase := .awaiting }
  -- the `?` after `record_retryable_failure`
  | recordFailed {w : BackendWorker} (error : String) (hphase : w.phase = .recording) :
      BackendStep params cancelled w (.recordFailed error) (w.settle params.attempts (.error error))
  | wake {w : BackendWorker} (hphase : w.phase = .backingOff) (h : w.attempt < params.attempts) :
      BackendStep params cancelled w .wake { w with attempt := w.attempt + 1, phase := .ready }
  | exhausted {w : BackendWorker} (hphase : w.phase = .backingOff) (h : ¬ w.attempt < params.attempts) :
      BackendStep params cancelled w .exhausted { w with phase := .done .failed }

/-- The loop of `dispatch_backend_action` at one candidate, after `bytes`. -/
def judgeBackend (params : DispatchParams) (bytes : UInt64) (entry : ScopedEntryRow) : Verdict UInt64 :=
  if params.skipHardlinked && entry.nlink > 1 then .skip
  else if params.maxVolume.any fun limit => saturatingAdd bytes entry.size > limit then .stop
  else .hand (saturatingAdd bytes entry.size)

/-- **`dispatch_backend_action`** as a pool. -/
def dispatchBackendAction (params : DispatchParams) :
    PoolSpec ScopedEntryRow UInt64 BackendWorker BackendEvent where
  permits := max params.concurrency 1
  judge := judgeBackend params
  start _ := ⟨1, .ready, [], []⟩
  step cancelled _ := BackendStep params cancelled
  done w := match w.phase with
    | .done _ => true
    | _ => false

/-! ## §3 — The executor dispatcher -/

/-- Where a worker of `dispatch_workers` stands. -/
inductive WorkerPhase where
  | spawned
  | ready
  | executing
  | backingOff
  | done (outcome : WorkerOutcome)
deriving DecidableEq, Repr

/-- **A worker of `dispatch_workers`.**  `started` counts its executions. -/
structure Worker where
  attempt : ℕ
  phase : WorkerPhase
  started : ℕ
  returned : List ActionResult
deriving DecidableEq

inductive WorkerEvent where
  | begin
  | giveUp
  | start
  | complete (result : ActionResult)
  | timeOut
  | wake
  | exhausted
deriving DecidableEq

def ActionResult.terminal : ActionResult → Bool
  | .ok .success | .ok (.skipped _) => true
  | _ => false

def ActionResult.outcome : ActionResult → WorkerOutcome
  | .ok .success => .success
  | .ok (.skipped _) => .skipped
  | .ok (.failed _) | .error _ => .failed

/-- `last`. -/
def Worker.last (w : Worker) : ActionResult := w.returned.getLast?.getD (.ok (.failed "no attempts"))

def Worker.settle (attempts : ℕ) (w : Worker) (result : ActionResult) : Worker :=
  { w with
    returned := w.returned ++ [result]
    phase := if result.terminal || w.attempt = attempts then .done result.outcome else .backingOff }

def timedOut (secs : UInt64) : ActionResult := .ok (.failed s!"timeout after {secs}s")

/-- **One step of a worker of `dispatch_workers`.** -/
inductive WorkerStep (params : DispatchParams) (cancelled : Bool) : Worker → WorkerEvent → Worker → Prop
  | begin {w : Worker} (hphase : w.phase = .spawned) (h : cancelled = false) :
      WorkerStep params cancelled w .begin { w with phase := .ready }
  | skipped {w : Worker} (hphase : w.phase = .spawned) (h : cancelled = true) :
      WorkerStep params cancelled w .giveUp { w with phase := .done .skipped }
  | giveUp {w : Worker} (hphase : w.phase = .ready) (h : cancelled = true) :
      WorkerStep params cancelled w .giveUp { w with phase := .done w.last.outcome }
  | start {w : Worker} (hphase : w.phase = .ready) (h : cancelled = false) :
      WorkerStep params cancelled w .start { w with phase := .executing, started := w.started + 1 }
  | complete {w : Worker} (result : ActionResult) (hphase : w.phase = .executing) :
      WorkerStep params cancelled w (.complete result) (w.settle params.attempts result)
  | timeOut {w : Worker} {secs : UInt64} (hphase : w.phase = .executing) (h : params.timeoutSecs = some secs) :
      WorkerStep params cancelled w .timeOut (w.settle params.attempts (timedOut secs))
  | wake {w : Worker} (hphase : w.phase = .backingOff) (h : w.attempt < params.attempts) :
      WorkerStep params cancelled w .wake { w with attempt := w.attempt + 1, phase := .ready }
  | exhausted {w : Worker} (hphase : w.phase = .backingOff) (h : ¬ w.attempt < params.attempts) :
      WorkerStep params cancelled w .exhausted { w with phase := .done w.last.outcome }

/-- The loop of `dispatch_workers` at one candidate, after `bytesDispatched`. -/
def judgeWorkers (params : DispatchParams) (bytesDispatched : UInt64) (entry : EntryRow) : Verdict UInt64 :=
  if params.skipHardlinked && entry.nlink > 1 then .skip
  else match params.maxVolume with
    | some cap =>
      if saturatingAdd bytesDispatched entry.size > cap then .stop
      else .hand (saturatingAdd bytesDispatched entry.size)
    | none => .hand bytesDispatched

/-- **`dispatch_workers`** as a pool. -/
def dispatchWorkers (params : DispatchParams) : PoolSpec EntryRow UInt64 Worker WorkerEvent where
  permits := max params.concurrency 1
  judge := judgeWorkers params
  start _ := ⟨1, .spawned, 0, []⟩
  step cancelled _ := WorkerStep params cancelled
  done w := match w.phase with
    | .done _ => true
    | _ => false

/-! ## §4 — What the dispatchers return -/

/-- One round of the join loop. -/
def count (t : ℕ × ℕ × ℕ) : WorkerOutcome → ℕ × ℕ × ℕ
  | .success => (t.1 + 1, t.2.1, t.2.2)
  | .skipped => (t.1, t.2.1 + 1, t.2.2)
  | .failed => (t.1, t.2.1, t.2.2 + 1)

/-- The join loop: `(success, skipped, failed)`, from the entries the dispatch loop passed over. -/
def tally (skipped : ℕ) (outcomes : List WorkerOutcome) : ℕ × ℕ × ℕ := outcomes.foldl count (0, skipped, 0)

def BackendWorker.outcome (w : BackendWorker) : Option WorkerOutcome :=
  match w.phase with
  | .done outcome => some outcome
  | _ => none

def Worker.outcome (w : Worker) : Option WorkerOutcome :=
  match w.phase with
  | .done outcome => some outcome
  | _ => none

section Volume

variable {α : Type} (size : α → UInt64)

def volume (entries : List α) : ℕ := (entries.map fun e => (size e).toNat).sum

/-- **A longest beginning within a cap.** -/
structure LongestWithin (cap : ℕ) (entries handed : List α) : Prop where
  isPrefix : handed <+: entries
  volume_le : volume size handed ≤ cap
  longest : ∀ l, l <+: entries → volume size l ≤ cap → l.length ≤ handed.length

variable {size}

theorem LongestWithin.nil (cap : ℕ) : LongestWithin size cap [] [] :=
  ⟨List.prefix_rfl, Nat.zero_le _, fun _ hl _ => hl.length_le⟩

theorem LongestWithin.stop {cap : ℕ} {e : α} {entries : List α} (h : cap < (size e).toNat) :
    LongestWithin size cap (e :: entries) [] := by
  refine ⟨List.nil_prefix, Nat.zero_le _, ?_⟩
  intro l hl hvolume
  cases l with
  | nil => exact le_rfl
  | cons x =>
    obtain rfl : x = e := (List.cons_prefix_cons.1 hl).1
    simp only [volume, List.map_cons, List.sum_cons] at hvolume
    omega

theorem LongestWithin.cons {cap : ℕ} {e : α} {entries handed : List α} (h : (size e).toNat ≤ cap)
    (hrest : LongestWithin size (cap - (size e).toNat) entries handed) :
    LongestWithin size cap (e :: entries) (e :: handed) := by
  obtain ⟨hhead, hvolume, hlongest⟩ := hrest
  refine ⟨List.cons_prefix_cons.2 ⟨rfl, hhead⟩, ?_, ?_⟩
  · simp only [volume, List.map_cons, List.sum_cons] at hvolume ⊢
    omega
  · intro l hl hl'
    cases l with
    | nil => exact Nat.zero_le _
    | cons x l =>
      obtain ⟨rfl, hrest⟩ := List.cons_prefix_cons.1 hl
      simp only [volume, List.map_cons, List.sum_cons] at hl'
      have hle := hlongest l hrest (by unfold volume; omega)
      simpa using hle

def judgeCapped (size : α → UInt64) (passed : α → Bool) (cap bytes : UInt64) (entry : α) : Verdict UInt64 :=
  if passed entry then .skip
  else if saturatingAdd bytes (size entry) > cap then .stop
  else .hand (saturatingAdd bytes (size entry))

/-- **A saturating sum below the largest number is exact**: the loop hands out the longest beginning that
stays within what is left of the cap. -/
theorem longestWithin_judgeCapped {passed : α → Bool} {cap : UInt64} (hcap : cap.toNat < 2 ^ 64 - 1)
    (entries : List α) (bytes : UInt64) (hbytes : bytes.toNat ≤ cap.toNat) :
    LongestWithin size (cap.toNat - bytes.toNat) (entries.filter fun e => !passed e)
      (selectBy (judgeCapped size passed cap) bytes entries).1 := by
  induction entries generalizing bytes with
  | nil => exact .nil _
  | cons e entries ih =>
    rw [selectBy, judgeCapped]
    have hsum := toNat_saturatingAdd bytes (size e)
    by_cases hpassed : passed e = true
    · simpa [hpassed] using ih bytes hbytes
    · rw [if_neg hpassed, List.filter_cons_of_pos (by simpa using hpassed)]
      by_cases hstop : saturatingAdd bytes (size e) > cap
      · rw [if_pos hstop]
        have hlt := UInt64.lt_iff_toNat_lt.1 hstop
        exact .stop (by omega)
      · rw [if_neg hstop]
        have hle := UInt64.le_iff_toNat_le.1 (UInt64.not_lt.1 hstop)
        -- below the cap the sum has not saturated
        have hexact : (saturatingAdd bytes (size e)).toNat = bytes.toNat + (size e).toNat := by omega
        refine .cons (by omega) ?_
        have hrest := ih _ hle
        rwa [hexact, Nat.sub_add_eq] at hrest

theorem handed_of_judgeCapped {W E : Type} {P : PoolSpec α UInt64 W E} {passed : α → Bool} {cap : UInt64}
    (hjudge : P.judge = judgeCapped size passed cap) (hcap : cap < 18446744073709551615)
    {candidates : List α} {s : WorkerPool α UInt64 W} (hrun : P.Reaches (.init candidates 0) s)
    (hcancel : s.cancelled = false) :
    volume size s.handed ≤ cap.toNat ∧
      (s.todo = [] → LongestWithin size cap.toNat (candidates.filter fun e => !passed e) s.handed) := by
  have hlongest : LongestWithin size cap.toNat (candidates.filter fun e => !passed e)
      (selectBy P.judge 0 candidates).1 := by
    rw [hjudge]
    exact longestWithin_judgeCapped (UInt64.lt_iff_toNat_lt.1 hcap) candidates 0 (Nat.zero_le _)
  constructor
  · obtain ⟨rest, hhanded⟩ := hrun.handed_isPrefix hcancel
    have hle := hlongest.volume_le
    rw [hhanded, volume, List.map_append, List.sum_append] at hle
    exact (Nat.le_add_right _ _).trans hle
  · intro htodo
    rwa [hrun.selected hcancel htodo] at hlongest

end Volume

def DispatchParams.passes (params : DispatchParams) (nlink : UInt32) : Bool :=
  params.skipHardlinked && nlink > 1

theorem judgeBackend_capped {params : DispatchParams} {cap : UInt64} (h : params.maxVolume = some cap) :
    judgeBackend params =
      judgeCapped ScopedEntryRow.size (fun e => params.passes e.nlink) cap := by
  funext bytes entry
  simp [judgeBackend, judgeCapped, DispatchParams.passes, h]

theorem judgeWorkers_capped {params : DispatchParams} {cap : UInt64} (h : params.maxVolume = some cap) :
    judgeWorkers params = judgeCapped EntryRow.size (fun e => params.passes e.nlink) cap := by
  funext bytes entry
  simp [judgeWorkers, judgeCapped, DispatchParams.passes, h]

/-- **The volume cap selects a longest beginning.**  In every run of either dispatcher in which nobody
cancels, what has been handed out never exceeds the cap, and when the loop has ended it is the longest
beginning of the candidates, without the hard-linked ones that are passed over, within the cap.  The two
dispatchers hand out the same entries. -/
theorem handed_longest_within_cap (params : DispatchParams) (cap : UInt64)
    (hvolume : params.maxVolume = some cap) (hcap : cap < 18446744073709551615) :
    (∀ (candidates : List ScopedEntryRow) (s : WorkerPool ScopedEntryRow UInt64 BackendWorker),
      (dispatchBackendAction params).Reaches (.init candidates 0) s → s.cancelled = false →
      volume ScopedEntryRow.size s.handed ≤ cap.toNat ∧
      (s.todo = [] → LongestWithin ScopedEntryRow.size cap.toNat
        (candidates.filter fun e => !params.passes e.nlink) s.handed)) ∧
    (∀ (candidates : List EntryRow) (s : WorkerPool EntryRow UInt64 Worker),
      (dispatchWorkers params).Reaches (.init candidates 0) s → s.cancelled = false →
      volume EntryRow.size s.handed ≤ cap.toNat ∧
      (s.todo = [] → LongestWithin EntryRow.size cap.toNat
        (candidates.filter fun e => !params.passes e.nlink) s.handed)) ∧
    (∀ (filesystem : FileSystemId) (candidates : List EntryRow)
        (s : WorkerPool ScopedEntryRow UInt64 BackendWorker) (t : WorkerPool EntryRow UInt64 Worker),
      (dispatchBackendAction params).Reaches
        (.init (candidates.map (ScopedEntryRow.fromLustre filesystem)) 0) s →
      (dispatchWorkers params).Reaches (.init candidates 0) t →
      s.cancelled = false → t.cancelled = false → s.todo = [] → t.todo = [] →
      s.handed = t.handed.map (ScopedEntryRow.fromLustre filesystem)) := by
  refine ⟨?_, ?_, ?_⟩
  · intro candidates s hrun hcancel
    exact handed_of_judgeCapped (judgeBackend_capped hvolume) hcap hrun hcancel
  · intro candidates s hrun hcancel
    exact handed_of_judgeCapped (judgeWorkers_capped hvolume) hcap hrun hcancel
  · intro filesystem candidates s t hs ht hcs hct hts htt
    have hs' : selectBy (judgeBackend params) 0 (candidates.map (ScopedEntryRow.fromLustre filesystem)) =
        (s.handed, s.skipped) := hs.selected hcs hts
    have ht' : selectBy (judgeWorkers params) 0 candidates = (t.handed, t.skipped) := ht.selected hct htt
    rw [selectBy_map, judgeBackend_capped hvolume] at hs'
    rw [judgeWorkers_capped hvolume] at ht'
    have hsame : (selectBy (judgeCapped EntryRow.size (fun e => params.passes e.nlink) cap) 0 candidates).1.map
        (ScopedEntryRow.fromLustre filesystem) = s.handed := congrArg Prod.fst hs'
    rw [← hsame, ht']

/-- Three candidates of one, two and four bytes under a cap of six: the first two are handed out. -/
theorem two_within_six_bytes :
    (∀ s : WorkerPool EntryRow UInt64 Worker,
      (dispatchWorkers ⟨2, some 6, none, none, false⟩).Reaches
        (.init [{ Store.Sample.file 1 [97] with size := 1 }, { Store.Sample.file 2 [98] with size := 2 },
          { Store.Sample.file 3 [99] with size := 4 }] 0) s →
      s.cancelled = false → volume EntryRow.size s.handed ≤ 6) ∧
    (selectBy (judgeWorkers ⟨2, some 6, none, none, false⟩) 0
      [{ Store.Sample.file 1 [97] with size := 1 }, { Store.Sample.file 2 [98] with size := 2 },
        { Store.Sample.file 3 [99] with size := 4 }]).1.map EntryRow.size = [1, 2] :=
  ⟨fun s hrun hcancel =>
    ((handed_longest_within_cap ⟨2, some 6, none, none, false⟩ 6 rfl (by decide)).2.1 _ s hrun hcancel).1,
    by decide⟩

/-! ## §6 — The attempts of a worker -/

/-- The retry loop of a worker of `dispatch_backend_action`: the barrier is one attempt. -/
def BackendWorker.retry (w : BackendWorker) : Retry BackendResult where
  attempt := w.attempt
  stage := match w.phase with
    | .ready => .ready
    | .waiting | .recording | .awaiting => .running
    | .backingOff => .resting
    | .done _ => .done
  started := w.executions.length
  returned := w.returned

/-- The retry loop of a worker of `dispatch_workers`. -/
def Worker.retry (w : Worker) : Retry ActionResult where
  attempt := w.attempt
  stage := match w.phase with
    | .spawned | .ready => .ready
    | .executing => .running
    | .backingOff => .resting
    | .done _ => .done
  started := w.started
  returned := w.returned

section Simulation

variable {params : DispatchParams} {cancelled : Bool}

end Simulation

/-! ## §7 — Runs come to an end -/

section Ends

variable {params : DispatchParams}

/-- What a worker of `dispatch_backend_action` still has before it. -/
def BackendWorker.rank (params : DispatchParams) (w : BackendWorker) : ℕ :=
  6 * (params.attempts + 1 - w.attempt) + w.executions.countP Option.isNone +
    match w.phase with
    | .ready => 7
    | .waiting => 5
    | .recording => 4
    | .awaiting => 3
    | .backingOff => 2
    | .done _ => 0

/-- What a worker of `dispatch_workers` still has before it. -/
def Worker.rank (params : DispatchParams) (w : Worker) : ℕ :=
  3 * (params.attempts + 1 - w.attempt) +
    match w.phase with
    | .spawned => 4
    | .ready => 3
    | .executing => 2
    | .backingOff => 1
    | .done _ => 0

end Ends

/-! ## §8 — The accounts -/

namespace Sample

open Store.Sample (file)

end Sample

end Robinhood.Policy
