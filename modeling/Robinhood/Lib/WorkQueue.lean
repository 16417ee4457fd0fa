/-
# Lib.WorkQueue — workers that feed their own queue

Several workers take jobs from one unbounded queue.  A job emits events into a bounded channel and pushes
further jobs.  A counter of pending jobs is raised before a job is pushed and lowered when one is done; the
worker that lowers it to zero closes the queue, and a worker that finds the queue closed and empty stops.
The consumer takes the events from the channel.

`Step` is every interleaving.  A run that has finished has delivered exactly the events of the jobs that
can be reached from the first one (`mem_received_of_finished`); no run is stuck before that
(`exists_step`), and over a finite tree of jobs none goes on for ever (`Step.weight_lt`).
-/
import Mathlib

namespace Robinhood.Lib

open Relation

/-! ## §1 — Workers and steps -/

inductive JobOp (J E : Type) where
  | emit (event : E)
  | push (job : J)

/-- **A worker**: at the queue, at a job with the rest of its script, between raising the counter for a
job and pushing it, about to close the queue, or stopped. -/
inductive QueueWorker (J E : Type) where
  | idle
  | busy (job : J) (todo : List (JobOp J E))
  | counted (job next : J) (todo : List (JobOp J E))
  | last
  | stopped

namespace QueueWorker

variable {J E : Type}

def rest : QueueWorker J E → Option (J × List (JobOp J E))
  | busy job todo => some (job, todo)
  | counted job next todo => some (job, .push next :: todo)
  | idle | last | stopped => none

def held : QueueWorker J E → ℕ
  | busy .. => 1
  | counted .. => 2
  | idle | last | stopped => 0

end QueueWorker

/-- **The state** of the queue, its workers and its consumer. -/
structure WorkQueue (J E : Type) where
  queue : List J
  pending : ℕ
  closed : Bool
  workers : List (QueueWorker J E)
  channel : List E
  received : List E

namespace WorkQueue

variable {J E : Type}

/-- Before the first step: `n` workers and one job. -/
def init (root : J) (n : ℕ) : WorkQueue J E :=
  ⟨[root], 1, false, List.replicate n .idle, [], []⟩

def Finished (s : WorkQueue J E) : Prop := (∀ w ∈ s.workers, w = .stopped) ∧ s.channel = []

section Steps

variable (script : J → List (JobOp J E)) (capacity : ℕ)

/-- **One step** of a worker or of the consumer. -/
inductive Step : WorkQueue J E → WorkQueue J E → Prop
  | take {s : WorkQueue J E} {job : J} {queue : List J} {before after : List (QueueWorker J E)}
      (hqueue : s.queue = job :: queue) (hw : s.workers = before ++ .idle :: after) :
      Step s { s with queue, workers := before ++ .busy job (script job) :: after }
  | emit {s : WorkQueue J E} {job : J} {event : E} {todo : List (JobOp J E)}
      {before after : List (QueueWorker J E)}
      (hw : s.workers = before ++ .busy job (.emit event :: todo) :: after)
      (hroom : s.channel.length < capacity) :
      Step s { s with channel := s.channel ++ [event], workers := before ++ .busy job todo :: after }
  | count {s : WorkQueue J E} {job next : J} {todo : List (JobOp J E)}
      {before after : List (QueueWorker J E)}
      (hw : s.workers = before ++ .busy job (.push next :: todo) :: after) :
      Step s { s with pending := s.pending + 1, workers := before ++ .counted job next todo :: after }
  | send {s : WorkQueue J E} {job next : J} {todo : List (JobOp J E)}
      {before after : List (QueueWorker J E)}
      (hw : s.workers = before ++ .counted job next todo :: after) (hopen : s.closed = false) :
      Step s { s with queue := s.queue ++ [next], workers := before ++ .busy job todo :: after }
  -- a closed queue takes no job, and the counter is lowered again
  | refuse {s : WorkQueue J E} {job next : J} {todo : List (JobOp J E)}
      {before after : List (QueueWorker J E)}
      (hw : s.workers = before ++ .counted job next todo :: after) (hclosed : s.closed = true) :
      Step s { s with pending := s.pending - 1, workers := before ++ .busy job todo :: after }
  | finish {s : WorkQueue J E} {job : J} {before after : List (QueueWorker J E)}
      (hw : s.workers = before ++ .busy job [] :: after) :
      Step s { s with
        pending := s.pending - 1
        workers := before ++ (if s.pending = 1 then .last else .idle) :: after }
  | close {s : WorkQueue J E} {before after : List (QueueWorker J E)}
      (hw : s.workers = before ++ .last :: after) :
      Step s { s with closed := true, workers := before ++ .idle :: after }
  | stop {s : WorkQueue J E} {before after : List (QueueWorker J E)}
      (hw : s.workers = before ++ .idle :: after) (hqueue : s.queue = []) (hclosed : s.closed = true) :
      Step s { s with workers := before ++ .stopped :: after }
  | receive {s : WorkQueue J E} {event : E} {channel : List E} (hchannel : s.channel = event :: channel) :
      Step s { s with channel, received := s.received ++ [event] }

/-- A run from the first job, so far. -/
def Runs (root : J) (n : ℕ) (s : WorkQueue J E) : Prop :=
  ReflTransGen (Step script capacity) (init root n) s

/-- The jobs that can be reached from `root`. -/
def Reached (root job : J) : Prop := ReflTransGen (fun j j' => JobOp.push j' ∈ script j) root job

end Steps

/-! ## §2 — The counter -/

section Counter

variable {script : J → List (JobOp J E)} {capacity : ℕ} {s s' : WorkQueue J E}

/-- **The counter counts the jobs** in the queue and at the workers; it is zero exactly when the queue is
closed or about to be, and nobody stops before that. -/
structure Counted (s : WorkQueue J E) : Prop where
  pending : s.pending = s.queue.length + (s.workers.map QueueWorker.held).sum
  zero : s.pending = 0 ↔ s.closed = true ∨ .last ∈ s.workers
  stopped : .stopped ∈ s.workers → s.closed = true

theorem counted_init (root : J) (n : ℕ) : Counted (init root n : WorkQueue J E) := by
  refine ⟨?_, ?_, ?_⟩
  · simp [init, QueueWorker.held]
  · simp [init, List.mem_replicate]
  · simp [init, List.mem_replicate]

theorem Counted.open_of_held (h : Counted s) {w : QueueWorker J E}
    {before after : List (QueueWorker J E)} (hw : s.workers = before ++ w :: after)
    (hheld : 0 < w.held) : 0 < s.pending ∧ s.closed = false ∧ .last ∉ s.workers := by
  have hsum : w.held ≤ (s.workers.map QueueWorker.held).sum := by
    rw [hw, List.map_append, List.map_cons, List.sum_append, List.sum_cons]
    omega
  have hpos : 0 < s.pending := by
    rw [h.pending]
    omega
  have hzero : ¬ (s.closed = true ∨ .last ∈ s.workers) := fun hclosed => by
    have := h.zero.2 hclosed
    omega
  rw [not_or, Bool.not_eq_true] at hzero
  exact ⟨hpos, hzero⟩

/-- **A step keeps the count.** -/
theorem Counted.step (h : Counted s) (hstep : Step script capacity s s') : Counted s' := by
  obtain ⟨hpending, hzero, hstopped⟩ := h
  cases hstep with
  | take hqueue hw =>
    refine ⟨?_, ?_, fun hs => hstopped ?_⟩
    · simp only [hpending, hqueue, hw, List.length_cons, List.map_append, List.map_cons,
        List.sum_append, List.sum_cons, QueueWorker.held]
      omega
    · simpa [hw] using hzero
    · simpa [hw] using hs
  | emit hw =>
    refine ⟨?_, ?_, fun hs => hstopped ?_⟩
    · simpa [hw, QueueWorker.held] using hpending
    · simpa [hw] using hzero
    · simpa [hw] using hs
  | count hw =>
    -- the job of the worker is pending, so the counter is not zero before either
    have hopen := Counted.open_of_held ⟨hpending, hzero, hstopped⟩ hw Nat.one_pos
    refine ⟨?_, ?_, fun hs => hstopped ?_⟩
    · simp only [hpending, hw, List.map_append, List.map_cons, List.sum_append, List.sum_cons,
        QueueWorker.held]
      omega
    · simpa [hw, hopen.2.1] using hopen.2.2
    · simpa [hw] using hs
  | send hw =>
    refine ⟨?_, ?_, fun hs => hstopped ?_⟩
    · simp only [hpending, hw, List.map_append, List.map_cons, List.sum_append, List.sum_cons,
        QueueWorker.held, List.length_append, List.length_singleton]
      omega
    · simpa [hw] using hzero
    · simpa [hw] using hs
  | refuse hw hclosed =>
    have hopen := Counted.open_of_held ⟨hpending, hzero, hstopped⟩ hw Nat.two_pos
    rw [hclosed] at hopen
    cases hopen.2.1
  | @finish job before after hw =>
    have hopen := Counted.open_of_held ⟨hpending, hzero, hstopped⟩ hw Nat.one_pos
    have hlast : .last ∉ before ++ after := fun hm => hopen.2.2 (by
      rw [hw]
      simp only [List.mem_append, List.mem_cons] at hm ⊢
      tauto)
    refine ⟨?_, ?_, fun hs => hstopped ?_⟩
    · have hheld : (if s.pending = 1 then QueueWorker.last else .idle : QueueWorker J E).held = 0 := by
        split_ifs <;> rfl
      simp only [hpending, hw, List.map_append, List.map_cons, List.sum_append, List.sum_cons,
        QueueWorker.held] at hheld ⊢
      omega
    · simp only [List.mem_append, not_or] at hlast
      simp only [hopen.2.1, Bool.false_eq_true, false_or, List.mem_append, List.mem_cons, hlast.1,
        hlast.2, or_false]
      split_ifs with hone
      · simp [hone]
      · simp only [iff_false]
        have := hopen.1
        omega
    · rw [hw]
      split_ifs at hs <;> simpa using hs
  | close hw =>
    refine ⟨?_, ?_, fun _ => rfl⟩
    · simpa [hw, QueueWorker.held] using hpending
    · simpa [hw] using hzero
  | stop hw hqueue hclosed =>
    refine ⟨?_, ?_, fun _ => hclosed⟩
    · simpa [hw, QueueWorker.held] using hpending
    · simpa [hw] using hzero
  | receive => exact ⟨hpending, hzero, hstopped⟩

theorem counted_of_runs {root : J} {n : ℕ} (h : Runs script capacity root n s) : Counted s := by
  induction h with
  | refl => exact counted_init root n
  | tail _ hstep ih => exact ih.step hstep

theorem Counted.empty_of_closed (h : Counted s) (hclosed : s.closed = true) :
    s.queue = [] ∧ ∀ w ∈ s.workers, w.rest = none := by
  have hzero := h.zero.2 (.inl hclosed)
  have hpending := h.pending
  refine ⟨List.length_eq_zero_iff.1 (by omega), fun w hw => ?_⟩
  by_contra hrest
  have hheld : 0 < w.held := by
    cases w <;> simp_all [QueueWorker.rest, QueueWorker.held]
  obtain ⟨before, after, hsplit⟩ := List.append_of_mem hw
  have := (h.open_of_held hsplit hheld).1
  omega

end Counter

/-! ## §3 — What is delivered -/

section Delivery

variable {script : J → List (JobOp J E)} {capacity : ℕ} {s s' : WorkQueue J E}

def todo (w : QueueWorker J E) : List (JobOp J E) := (w.rest.map Prod.snd).getD []

/-- **What is left to do**: the jobs in the queue, and the rest of the scripts at the workers. -/
def left (s : WorkQueue J E) : List (JobOp J E) := s.queue.map .push ++ s.workers.flatMap todo

def emitted (s : WorkQueue J E) : List E := s.received ++ s.channel

def leftBut (queue : List J) (before after : List (QueueWorker J E)) : List (JobOp J E) :=
  queue.map .push ++ (before.flatMap todo ++ after.flatMap todo)

theorem left_split {before after : List (QueueWorker J E)} {w : QueueWorker J E}
    (hw : s.workers = before ++ w :: after) : s.left.Perm (todo w ++ leftBut s.queue before after) := by
  rw [left, hw, List.flatMap_append, List.flatMap_cons]
  exact (List.perm_append_comm_assoc ..).append_left _ |>.trans (List.perm_append_comm_assoc ..)

/-- **What a step does** to what is left: a job is opened, an event is emitted, or nothing changes. -/
theorem Counted.step_cases (h : Counted s) (hstep : Step script capacity s s') :
    (∃ job rest, s.left.Perm (.push job :: rest) ∧ s'.left.Perm (script job ++ rest) ∧ s'.emitted = s.emitted) ∨
    (∃ event, s.left.Perm (.emit event :: s'.left) ∧ s'.emitted = s.emitted ++ [event]) ∨
    (s.left.Perm s'.left ∧ s'.emitted = s.emitted) := by
  -- a worker that goes on with the same before it
  have hsame : ∀ {before after : List (QueueWorker J E)} {w w' : QueueWorker J E},
      s.workers = before ++ w :: after → s'.workers = before ++ w' :: after → s'.queue = s.queue →
      todo w' = todo w → s.left.Perm s'.left := by
    intro before after w w' hw hw' hqueue htodo
    have hafter := left_split hw'
    rw [htodo, hqueue] at hafter
    exact (left_split hw).trans hafter.symm
  cases hstep with
  | @take job queue before after hqueue hw =>
    refine .inl ⟨job, leftBut queue before after, ?_, left_split (w := .busy job (script job)) rfl, rfl⟩
    have hbefore := left_split hw
    rwa [hqueue] at hbefore
  | @emit job event rest before after hw =>
    refine .inr (.inl ⟨event, (left_split hw).trans ?_, by simp [emitted]⟩)
    change (JobOp.emit event :: (todo (.busy job rest) ++ leftBut s.queue before after)).Perm _
    refine .cons _ (.symm ?_)
    exact left_split rfl
  | count hw => exact .inr (.inr ⟨hsame hw rfl rfl rfl, rfl⟩)
  | @send job next todo before after hw =>
    refine .inr (.inr ⟨(left_split hw).trans (.trans ?_ (left_split (w := .busy job todo) rfl).symm), rfl⟩)
    have hqueue : (leftBut (s.queue ++ [next]) before after).Perm (.push next :: leftBut s.queue before after) := by
      simp only [leftBut, List.map_append, List.map_cons, List.map_nil, List.append_assoc]
      exact List.perm_middle
    exact List.perm_middle.symm.trans (hqueue.symm.append_left _)
  | refuse hw hclosed =>
    have hopen := (h.open_of_held hw Nat.two_pos).2.1
    rw [hclosed] at hopen
    cases hopen
  | finish hw => exact .inr (.inr ⟨hsame hw rfl rfl (by split_ifs <;> rfl), rfl⟩)
  | close hw | stop hw => exact .inr (.inr ⟨hsame hw rfl rfl rfl, rfl⟩)
  | receive hchannel => exact .inr (.inr ⟨.refl _, by simp [emitted, hchannel]⟩)

theorem left_init (root : J) (n : ℕ) : (init root n : WorkQueue J E).left = [.push root] := by
  simp [left, init, todo, QueueWorker.rest]

theorem reached_of_mem_left {root : J} {n : ℕ} (h : Runs script capacity root n s) {job : J}
    (hjob : .push job ∈ s.left) : Reached script root job := by
  induction h generalizing job with
  | refl =>
    obtain rfl : job = root := by simpa [left_init] using hjob
    exact .refl
  | tail hruns hstep ih =>
    obtain ⟨opened, rest, hbefore, hafter, -⟩ | ⟨event, hbefore, -⟩ | ⟨hbefore, -⟩ :=
      (counted_of_runs hruns).step_cases hstep
    · obtain hjob | hjob := List.mem_append.1 (hafter.subset hjob)
      · exact (ih (hbefore.symm.subset List.mem_cons_self)).tail hjob
      · exact ih (hbefore.symm.subset (List.mem_cons_of_mem _ hjob))
    · exact ih (hbefore.symm.subset (List.mem_cons_of_mem _ hjob))
    · exact ih (hbefore.symm.subset hjob)

theorem left_of_finished {root : J} {n : ℕ} (hn : 0 < n) (h : Runs script capacity root n s)
    (hfinished : s.Finished) : s.left = [] ∧ s.emitted = s.received := by
  have hcount : s.workers.length = n := by
    clear hfinished
    induction h with
    | refl => simp [init]
    | tail _ hstep ih =>
      rw [← ih]
      cases hstep <;> simp_all
  -- some worker has stopped, so the queue is closed
  have hclosed : s.closed = true := by
    obtain ⟨w, hw⟩ := List.exists_mem_of_length_pos (by omega : 0 < s.workers.length)
    exact (counted_of_runs h).stopped (hfinished.1 w hw ▸ hw)
  obtain ⟨hqueue, hrest⟩ := (counted_of_runs h).empty_of_closed hclosed
  refine ⟨?_, by rw [emitted, hfinished.2, List.append_nil]⟩
  rw [left, hqueue, List.map_nil, List.nil_append, List.flatMap_eq_nil_iff]
  intro w hw
  rw [todo, hrest w hw]
  rfl

/-- **A finished run delivered exactly the events of the reached jobs.** -/
theorem mem_received_of_finished {root : J} {n : ℕ} (hn : 0 < n)
    (h : Runs script capacity root n s) (hfinished : s.Finished) {e : E} :
    e ∈ s.received ↔ ∃ job, Reached script root job ∧ .emit e ∈ script job := by
  -- what comes of an operation
  let Yields : JobOp J E → Prop
    | .emit event => event = e
    | .push job => ∃ job', Reached script job job' ∧ .emit e ∈ script job'
  have hopen : ∀ job, Yields (.push job) ↔ ∃ op ∈ script job, Yields op := by
    intro job
    constructor
    · rintro ⟨job', hreached, hemit⟩
      obtain rfl | ⟨next, hpush, hreached⟩ := hreached.cases_head
      · exact ⟨_, hemit, rfl⟩
      · exact ⟨_, hpush, job', hreached, hemit⟩
    · rintro ⟨event | next, hop, hyields⟩
      · cases hyields
        exact ⟨job, .refl, hop⟩
      · obtain ⟨job', hreached, hemit⟩ := hyields
        exact ⟨job', hreached.head hop, hemit⟩
  have hinv : (e ∈ s.emitted ∨ ∃ op ∈ s.left, Yields op) ↔ Yields (.push root) := by
    clear hfinished
    induction h with
    | refl => simp [emitted, left_init, show (init root n : WorkQueue J E).received = [] from rfl,
        show (init root n : WorkQueue J E).channel = [] from rfl]
    | tail hruns hstep ih =>
      rw [← ih]
      obtain ⟨opened, rest, hbefore, hafter, hemitted⟩ | ⟨event, hbefore, hemitted⟩ | ⟨hbefore, hemitted⟩ :=
        (counted_of_runs hruns).step_cases hstep
      · simp only [hemitted, hbefore.mem_iff, hafter.mem_iff, List.mem_append, List.mem_cons, or_and_right,
          exists_or, exists_eq_left, hopen opened]
      · simp only [hemitted, hbefore.mem_iff, List.mem_append, List.mem_cons, List.not_mem_nil, or_false,
          or_and_right, exists_or, exists_eq_left, or_assoc, Yields, eq_comm]
      · simp only [hemitted, hbefore.mem_iff]
  obtain ⟨hleft, hemitted⟩ := left_of_finished hn h hfinished
  simpa [hleft, hemitted] using hinv

/-- **A finished run delivered each event once**: `listing` is what a job and the jobs below it emit. -/
theorem received_perm_of_finished {root : J} {n : ℕ} (hn : 0 < n) (listing : J → List E)
    (hlisting : ∀ job, Reached script root job → listing job = (script job).flatMap fun
      | .emit event => [event]
      | .push next => listing next)
    (h : Runs script capacity root n s) (hfinished : s.Finished) : s.received.Perm (listing root) := by
  let yield : JobOp J E → List E
    | .emit event => [event]
    | .push next => listing next
  have hinv : (s.emitted ++ s.left.flatMap yield).Perm (listing root) := by
    clear hfinished
    induction h with
    | refl => rw [left_init]; exact .of_eq (List.append_nil _)
    | tail hruns hstep ih =>
      refine .trans ?_ ih
      obtain ⟨opened, rest, hbefore, hafter, hemitted⟩ | ⟨event, hbefore, hemitted⟩ | ⟨hbefore, hemitted⟩ :=
        (counted_of_runs hruns).step_cases hstep
      · have hreached := reached_of_mem_left hruns (hbefore.symm.subset List.mem_cons_self)
        have hopened : yield (.push opened) = (script opened).flatMap yield := hlisting opened hreached
        rw [hemitted]
        refine .append_left _ ((hafter.flatMap_right yield).trans (.trans ?_ (hbefore.flatMap_right yield).symm))
        rw [List.flatMap_append, List.flatMap_cons, hopened]
      · rw [hemitted, List.append_assoc]
        exact .append_left _ (hbefore.flatMap_right yield).symm
      · rw [hemitted]
        exact .append_left _ (hbefore.flatMap_right yield).symm
  obtain ⟨hleft, hemitted⟩ := left_of_finished hn h hfinished
  simpa [hleft, hemitted] using hinv

end Delivery

/-! ## §4 — Progress -/

section Progress

variable {script : J → List (JobOp J E)} {capacity n : ℕ} {root : J} {s s' : WorkQueue J E}

/-- **No run is stuck** before it has finished. -/
theorem exists_step (hcapacity : 0 < capacity) (h : Runs script capacity root n s)
    (hfinished : ¬ s.Finished) : ∃ s', Step script capacity s s' := by
  have hcounted := counted_of_runs h
  cases hchannel : s.channel with
  | cons => exact ⟨_, .receive hchannel⟩
  | nil =>
    by_contra hstuck
    have hroom : s.channel.length < capacity := by rwa [hchannel]
    -- a worker that is not at the queue can go on
    have hwaiting : ∀ w ∈ s.workers, w = .idle ∨ w = .stopped := by
      intro w hw
      obtain ⟨before, after, hsplit⟩ := List.append_of_mem hw
      cases w with
      | idle => exact .inl rfl
      | stopped => exact .inr rfl
      | last => exact absurd ⟨_, .close hsplit⟩ hstuck
      | counted =>
        cases hclosed : s.closed with
        | true => exact absurd ⟨_, .refuse hsplit hclosed⟩ hstuck
        | false => exact absurd ⟨_, .send hsplit hclosed⟩ hstuck
      | busy job todo =>
        rcases todo with _ | ⟨event | next, todo⟩
        · exact absurd ⟨_, .finish hsplit⟩ hstuck
        · exact absurd ⟨_, .emit hsplit hroom⟩ hstuck
        · exact absurd ⟨_, .count hsplit⟩ hstuck
    obtain ⟨w, hw, hidle⟩ : ∃ w ∈ s.workers, w ≠ .stopped := by
      by_contra hall
      push Not at hall
      exact hfinished ⟨hall, hchannel⟩
    obtain rfl := (hwaiting w hw).resolve_right hidle
    obtain ⟨before, after, hsplit⟩ := List.append_of_mem hw
    cases hqueue : s.queue with
    | cons => exact hstuck ⟨_, .take hqueue hsplit⟩
    | nil =>
      have hheld : (s.workers.map QueueWorker.held).sum = 0 := by
        rw [List.sum_eq_zero_iff]
        intro m hm
        obtain ⟨v, hv, rfl⟩ := List.mem_map.1 hm
        rcases hwaiting v hv with rfl | rfl <;> rfl
      have hzero : s.pending = 0 := by rw [hcounted.pending, hqueue, hheld]; rfl
      rcases hcounted.zero.1 hzero with hclosed | hlast
      · exact hstuck ⟨_, .stop hsplit hqueue hclosed⟩
      · rcases hwaiting _ hlast with h | h <;> cases h

end Progress

/-! ## §5 — Termination -/

section Weight

variable (script : J → List (JobOp J E)) (cost : J → ℕ)

/-- The steps a part of a script leads to, when a pushed job costs `cost`. -/
def opCost : JobOp J E → ℕ
  | .emit _ => 2
  | .push job => cost job + 2

def scriptCost (todo : List (JobOp J E)) : ℕ := (todo.map (opCost cost)).sum

def workerCost : QueueWorker J E → ℕ
  | .idle => 1
  | .busy _ todo => 3 + scriptCost cost todo
  | .counted _ next todo => 4 + cost next + scriptCost cost todo
  | .last => 2
  | .stopped => 0

/-- The steps a run still has before it, at most. -/
def weight (s : WorkQueue J E) : ℕ :=
  (s.queue.map cost).sum + (s.workers.map (workerCost cost)).sum + s.channel.length

/-- **A cost pays for a job** when it covers the job's script and the jobs pushed there. -/
def Pays (job : J) : Prop := 3 + scriptCost cost (script job) ≤ cost job

variable {script cost} {capacity : ℕ} {s s' : WorkQueue J E}

/-- **Every step is paid for.** -/
theorem Step.weight_lt (hpays : ∀ job ∈ s.queue, Pays script cost job)
    (hstep : Step script capacity s s') : weight cost s' < weight cost s := by
  cases hstep with
  | @take job queue before after hqueue hw =>
    have hjob : Pays script cost job := hpays job (by rw [hqueue]; simp)
    simp only [Pays] at hjob
    simp only [weight, hqueue, hw, List.map_cons, List.map_append, List.sum_cons, List.sum_append,
      workerCost]
    omega
  | emit hw =>
    simp only [weight, hw, List.map_cons, List.map_append, List.sum_cons, List.sum_append, workerCost,
      scriptCost, opCost, List.length_append, List.length_singleton]
    omega
  | count hw =>
    simp only [weight, hw, List.map_cons, List.map_append, List.sum_cons, List.sum_append, workerCost,
      scriptCost, opCost]
    omega
  | send hw =>
    simp only [weight, hw, List.map_cons, List.map_append, List.map_nil, List.sum_cons, List.sum_append,
      List.sum_nil, workerCost]
    omega
  | refuse hw =>
    simp only [weight, hw, List.map_cons, List.map_append, List.sum_cons, List.sum_append, workerCost]
    omega
  | finish hw =>
    have hcost : workerCost cost (if s.pending = 1 then QueueWorker.last else .idle :
        QueueWorker J E) ≤ 2 := by
      split_ifs <;> simp [workerCost]
    simp only [weight, hw, List.map_cons, List.map_append, List.sum_cons, List.sum_append,
      workerCost] at hcost ⊢
    omega
  | close hw | stop hw =>
    simp only [weight, hw, List.map_cons, List.map_append, List.sum_cons, List.sum_append, workerCost]
    omega
  | receive hchannel =>
    simp only [weight, hchannel, List.length_cons]
    omega

variable (script) in
/-- The cost of a job whose jobs are counted `k` levels down. -/
def costAt : ℕ → J → ℕ
  | 0, _ => 0
  | k + 1, job => 3 + scriptCost (costAt k) (script job)

theorem scriptCost_le {cost' : J → ℕ} {todo : List (JobOp J E)}
    (h : ∀ job, .push job ∈ todo → cost job ≤ cost' job) : scriptCost cost todo ≤ scriptCost cost' todo := by
  refine List.sum_le_sum fun op hop => ?_
  cases op with
  | emit => exact le_rfl
  | push job => exact Nat.add_le_add_right (h job hop) 2

theorem costAt_mono (job : J) : Monotone fun k => costAt script k job := by
  refine monotone_nat_of_le_succ fun k => ?_
  induction k generalizing job with
  | zero => exact Nat.zero_le _
  | succ k ih => exact Nat.add_le_add_left (scriptCost_le fun next _ => ih next) 3

/-- **Jobs that descend can be paid for.** -/
theorem exists_pays {root : J} (rank : J → ℕ)
    (hrank : ∀ job next, Reached script root job → .push next ∈ script job → rank next < rank job) :
    ∃ cost, ∀ job, Reached script root job → Pays script cost job := by
  refine ⟨fun job => costAt script (rank job + 1) job, fun job hjob => ?_⟩
  refine Nat.add_le_add_left (scriptCost_le fun next hnext => ?_) 3
  exact costAt_mono next (hrank job next hjob hnext)

theorem reached_of_mem_queue {root : J} {n : ℕ} (h : Runs script capacity root n s) {job : J}
    (hjob : job ∈ s.queue) : Reached script root job :=
  reached_of_mem_left h (List.mem_append_left _ (List.mem_map_of_mem hjob))

/-- **Every run can be brought to its end.** -/
theorem exists_finished {root : J} {n : ℕ} (hcapacity : 0 < capacity)
    (hpays : ∀ job, Reached script root job → Pays script cost job)
    (h : Runs script capacity root n s) :
    ∃ s', Runs script capacity root n s' ∧ s'.Finished := by
  induction hweight : weight cost s using Nat.strong_induction_on generalizing s with
  | _ k ih =>
    by_cases hfinished : s.Finished
    · exact ⟨s, h, hfinished⟩
    · obtain ⟨s', hstep⟩ := exists_step hcapacity h hfinished
      have hlt := hstep.weight_lt fun job hjob => hpays job (reached_of_mem_queue h hjob)
      exact ih _ (hweight ▸ hlt) (h.tail hstep) rfl

/-- **No run goes on for ever.** -/
theorem not_endless {root : J} {n : ℕ} (hpays : ∀ job, Reached script root job → Pays script cost job)
    (run : ℕ → WorkQueue J E) (hinit : run 0 = init root n) :
    ¬ ∀ i, Step script capacity (run i) (run (i + 1)) := by
  intro hstep
  have hruns : ∀ i, Runs script capacity root n (run i) := by
    intro i
    induction i with
    | zero =>
      rw [hinit]
      exact .refl
    | succ i ih => exact ih.tail (hstep i)
  have hlt := fun i =>
    (hstep i).weight_lt fun job hjob => hpays job (reached_of_mem_queue (hruns i) hjob)
  have hanti : StrictAnti fun i => weight cost (run i) := strictAnti_nat_of_succ_lt hlt
  exact not_strictAnti_of_wellFoundedLT _ hanti

end Weight

end WorkQueue

end Robinhood.Lib
