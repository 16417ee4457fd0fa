/-
# Policy.Overlap — executions of one entry

`execute_backend_action_with_completion_barrier` spawns the action as a task and waits for it, also after a
timeout, once the timeout is recorded in the catalog.  If that record fails, the `?` returns the error at
once: the task goes on, and the retry loop takes the error for a failed attempt and starts another one.

In a run in which no record fails while an attempt is left, and no key is handed out twice, an execution
only starts when all earlier ones of the entry are over.
-/
import Mathlib
import Robinhood.Policy.Dispatch

namespace Robinhood.Policy

open Lib Store

/-! ## §1 — Careful runs -/

def BackendWorker.Running (w : BackendWorker) : Prop := none ∈ w.executions

def LastAttempt (params : DispatchParams) (s : WorkerPool ScopedEntryRow UInt64 BackendWorker)
    (entry : ScopedEntryRow) : Prop :=
  ∀ iw ∈ s.set, iw.1 = entry → iw.2.phase = .recording → ¬ iw.2.attempt < params.attempts

/-- **A careful step**: an entry that is handed out has a key of its own, and the catalog takes the record
of a timeout unless the attempt was the last one. -/
def Careful (params : DispatchParams) (s : WorkerPool ScopedEntryRow UInt64 BackendWorker) :
    PoolAct ScopedEntryRow BackendEvent → Prop
  | .hand entry => entry.key ∉ s.handed.map ScopedEntryRow.key
  | .work entry (.recordFailed _) => LastAttempt params s entry
  | _ => True

/-- **No step starts an execution of an entry while an earlier one of the same entry runs.** -/
def NeverOverlaps (params : DispatchParams) (s : WorkerPool ScopedEntryRow UInt64 BackendWorker) : Prop :=
  ∀ entry t, (dispatchBackendAction params).Step s (.work entry .start) t →
    ∀ iw ∈ s.workers, iw.1.key = entry.key → ¬ iw.2.Running

/-! ## §2 — One worker -/

structure BackendWorker.Alone (w : BackendWorker) : Prop where
  idle : w.phase = .ready ∨ w.phase = .backingOff → ¬ w.Running
  latest : none ∉ w.executions.dropLast

theorem BackendWorker.alone_start : (⟨1, .ready, [], []⟩ : BackendWorker).Alone :=
  ⟨fun _ => by simp [Running], by simp⟩

theorem BackendWorker.Alone.not_running {w : BackendWorker} (hw : w.Alone) {result : BackendResult}
    (h : w.executions.getLast? = some (some result)) : ¬ w.Running := by
  obtain ⟨before, hbefore⟩ := List.getLast?_eq_some_iff.1 h
  have hlatest := hw.latest
  rw [hbefore, List.dropLast_concat] at hlatest
  simpa [Running, hbefore] using hlatest

/-- **One step of a worker** keeps this, unless a record fails while an attempt is left. -/
theorem BackendStep.alone {params : DispatchParams} {cancelled : Bool} {w w' : BackendWorker}
    {e : BackendEvent} (h : BackendStep params cancelled w e w') (hw : w.Alone)
    (hrecord : ∀ error, e = .recordFailed error → ¬ w.attempt < params.attempts) : w'.Alone := by
  cases h with
  | start hphase =>
    have hidle : none ∉ w.executions := hw.idle (.inl hphase)
    refine ⟨?_, by simpa using hidle⟩
    intro hready
    exfalso
    revert hready
    show (if _ then _ else _) = _ ∨ (if _ then _ else _) = _ → False
    split_ifs <;> simp
  | giveUp | timeOut | recorded | exhausted => exact ⟨nofun, hw.latest⟩
  | @complete before after result hexecutions =>
    have hsub : ∀ x ∈ before ++ some result :: after, x = none → none ∈ w.executions := by
      rintro x - rfl
      simp [hexecutions]
    refine ⟨fun hphase hrunning => hw.idle hphase (hsub none hrunning rfl), ?_⟩
    have hlatest := hw.latest
    rw [hexecutions] at hlatest
    cases after using List.reverseRecOn with
    | nil => simpa using hlatest
    | append_singleton after last =>
      rw [← List.cons_append, ← List.append_assoc, List.dropLast_concat] at hlatest ⊢
      simp only [List.mem_append, List.mem_cons, true_or, or_true, not_true] at hlatest
  | deliver hphase hlast =>
    refine ⟨fun _ => hw.not_running hlast, hw.latest⟩
  | recordFailed error hphase =>
    refine ⟨?_, hw.latest⟩
    simp [BackendWorker.settle, hrecord error rfl]
  | wake hphase => exact ⟨fun _ => hw.idle (.inr hphase), hw.latest⟩

/-! ## §3 — Whole runs -/

structure Apart (s : WorkerPool ScopedEntryRow UInt64 BackendWorker) : Prop where
  keys : (s.handed.map ScopedEntryRow.key).Nodup
  alone : ∀ iw ∈ s.workers, iw.2.Alone

theorem apart_step {params : DispatchParams} {s t : WorkerPool ScopedEntryRow UInt64 BackendWorker}
    {act : PoolAct ScopedEntryRow BackendEvent} (hs : Apart s) (hact : Careful params s act)
    (h : (dispatchBackendAction params).Step s act t) : Apart t := by
  obtain ⟨hkeys, halone⟩ := hs
  cases h with
  | cancel | cutOff | skip | stop => exact ⟨hkeys, halone⟩
  | @hand i =>
    refine ⟨?_, fun iw hiw => ?_⟩
    · simp only [List.map_append, List.map_cons, List.map_nil]
      exact List.nodup_append.2 ⟨hkeys, List.nodup_singleton _, fun a ha b hb hab =>
        hact (List.mem_singleton.1 hb ▸ hab ▸ ha)⟩
    · simp only [WorkerPool.workers, List.append_assoc, List.mem_append, List.mem_singleton] at hiw
      rcases hiw with hiw | rfl | hiw
      · exact halone iw (List.mem_append_left _ hiw)
      · exact BackendWorker.alone_start
      · exact halone iw (List.mem_append_right _ hiw)
  | @work i w w' e before after hset hstep =>
    have hmem : (i, w) ∈ s.set := by simp [hset]
    have hw : w'.Alone := by
      refine BackendStep.alone hstep (halone _ (List.mem_append_left _ hmem)) ?_
      rintro error rfl
      refine hact (i, w) hmem rfl ?_
      cases hstep with
      | recordFailed _ hphase => exact hphase
    refine ⟨hkeys, fun iw hiw => ?_⟩
    simp only [WorkerPool.workers, List.append_assoc, List.cons_append, List.mem_append,
      List.mem_cons] at hiw
    rcases hiw with hiw | rfl | hiw | hiw
    · exact halone iw (by simp [WorkerPool.workers, hset, hiw])
    · exact hw
    · exact halone iw (by simp [WorkerPool.workers, hset, hiw])
    · exact halone iw (by simp [WorkerPool.workers, hiw])
  | @join i w before after _ hset =>
    refine ⟨hkeys, fun iw hiw => halone iw ?_⟩
    simp only [WorkerPool.workers, hset, List.append_assoc, List.cons_append, List.mem_append,
      List.mem_cons] at hiw ⊢
    tauto

/-- **Executions of one entry never overlap in a careful run.** -/
theorem never_overlaps_of_careful (params : DispatchParams) (candidates : List ScopedEntryRow)
    (s : WorkerPool ScopedEntryRow UInt64 BackendWorker)
    (h : (dispatchBackendAction params).ReachesBy (Careful params) (.init candidates 0) s) :
    NeverOverlaps params s := by
  have hs : Apart s := h.invariant ⟨by simp [WorkerPool.init], by simp [WorkerPool.workers, WorkerPool.init]⟩
    apart_step
  intro entry t hstep iw hiw hkey
  cases hstep with
  | @work _ w w' _ before after hset hstep =>
    have hmem : (entry, w) ∈ s.workers := by simp [WorkerPool.workers, hset]
    -- keys that are handed out differ, so the worker with the entry's key is the one that starts
    have hnodup : (s.workers.map fun iw => iw.1.key).Nodup := by
      have hperm := h.reaches.accounted.map ScopedEntryRow.key
      rw [List.map_map] at hperm
      exact hperm.nodup_iff.2 hs.keys
    obtain rfl : iw = (entry, w) := List.inj_on_of_nodup_map hnodup hiw hmem hkey
    cases hstep with
    | start hphase => exact (hs.alone _ hmem).idle (.inl hphase)

/-! ## §4 — Runs with a timeout -/

namespace Sample

def entry : ScopedEntryRow := .fromLustre Store.Sample.lustre (Store.Sample.file 1 [97])

/-- One worker, a timeout of one second and two attempts. -/
def patient : DispatchParams := ⟨1, none, some 1, some ⟨2, 0⟩, false⟩

def pool (w : BackendWorker) : WorkerPool ScopedEntryRow UInt64 BackendWorker :=
  ⟨[], 0, false, 0, [entry], [(entry, w)], []⟩

theorem handed : (dispatchBackendAction patient).Step (.init [entry] 0) (.hand entry)
    (pool ⟨1, .ready, [], []⟩) :=
  .hand rfl rfl (by decide)

theorem worked {w w' : BackendWorker} {e : BackendEvent} (h : BackendStep patient false w e w') :
    (dispatchBackendAction patient).Step (pool w) (.work entry e) (pool w') :=
  @PoolSpec.Step.work _ _ _ _ (dispatchBackendAction patient) (pool w) entry w w' e [] [] rfl h

end Sample

/-- The purge times out, the timeout is recorded, the purge then fails and may be retried: the second
attempt starts after the first is over. -/
theorem second_attempt_waits :
    NeverOverlaps Sample.patient (Sample.pool ⟨2, .ready, [some (.ok (.failed "busy" true))],
      [.ok (.failed "busy" true)]⟩) := by
  refine never_overlaps_of_careful Sample.patient [Sample.entry] _ ?_
  refine .head ⟨.hand Sample.entry, List.not_mem_nil, Sample.handed⟩ ?_
  refine .head ⟨.work _ .start, trivial, Sample.worked (.start rfl rfl)⟩ ?_
  refine .head ⟨.work _ .timeOut, trivial, Sample.worked (.timeOut rfl rfl)⟩ ?_
  refine .head ⟨.work _ .recorded, trivial, Sample.worked (.recorded rfl)⟩ ?_
  refine .head ⟨.work _ (.complete (.ok (.failed "busy" true))), trivial,
    Sample.worked (@BackendStep.complete _ _ _ [] [] _ rfl)⟩ ?_
  refine .head ⟨.work _ .deliver, trivial, Sample.worked (.deliver (.inr rfl) rfl)⟩ ?_
  exact .single ⟨.work _ .wake, trivial, Sample.worked (.wake rfl (by decide))⟩

/-- **An execution that starts over a running one**: the purge times out, the catalog refuses the record,
and the second attempt starts while the first still runs. -/
theorem retry_starts_over_running_purge :
    (dispatchBackendAction Sample.patient).Reaches (.init [Sample.entry] 0)
        (Sample.pool ⟨2, .ready, [none], [.error "database is gone"]⟩) ∧
      ¬ NeverOverlaps Sample.patient (Sample.pool ⟨2, .ready, [none], [.error "database is gone"]⟩) := by
  constructor
  · refine .head ⟨_, trivial, Sample.handed⟩ ?_
    refine .head ⟨_, trivial, Sample.worked (.start rfl rfl)⟩ ?_
    refine .head ⟨_, trivial, Sample.worked (.timeOut rfl rfl)⟩ ?_
    refine .head ⟨_, trivial, Sample.worked (.recordFailed "database is gone" rfl)⟩ ?_
    exact .single ⟨_, trivial, Sample.worked (.wake rfl (by decide))⟩
  · intro h
    have hstart := Sample.worked (w := ⟨2, .ready, [none], [.error "database is gone"]⟩) (.start rfl rfl)
    exact h _ _ hstart (Sample.entry, ⟨2, .ready, [none], [.error "database is gone"]⟩)
      (List.mem_cons_self ..) rfl (List.mem_cons_self ..)

end Robinhood.Policy
