/-
# Lib.Retry — a loop of attempts

An operation is tried up to a number of times.  Each attempt is started and later returns a result; a
result that asks for it is followed by a rest and another attempt, as long as one is left; any other ends
the loop.  A cancellation ends it where an attempt would start.

Retry loops in programs differ in how they wait and what else they do; they are shown to be one by
mapping their states to `Retry`, each step to a step here or to none.
-/
import Mathlib

namespace Robinhood.Lib

open Relation

inductive RetryStage where
  | ready
  | running
  | resting
  | done
deriving DecidableEq, Repr

/-- **The state of a retry loop**: the attempt it is at, how often it started one, and the results. -/
structure Retry (ρ : Type) where
  attempt : ℕ
  stage : RetryStage
  started : ℕ
  returned : List ρ

variable {ρ : Type}

/-- **One step of a retry loop** of at most `attempts` attempts. -/
inductive RetryStep (attempts : ℕ) (again : ρ → Prop) (cancelled : Bool) : Retry ρ → Retry ρ → Prop
  | start {w : Retry ρ} (hstage : w.stage = .ready) :
      RetryStep attempts again cancelled w { w with stage := .running, started := w.started + 1 }
  | giveUp {w : Retry ρ} (hstage : w.stage = .ready) (h : cancelled = true) :
      RetryStep attempts again cancelled w { w with stage := .done }
  | rest {w : Retry ρ} {r : ρ} (hstage : w.stage = .running) (hagain : again r)
      (h : w.attempt < attempts) :
      RetryStep attempts again cancelled w { w with stage := .resting, returned := w.returned ++ [r] }
  | finish {w : Retry ρ} {r : ρ} (hstage : w.stage = .running) :
      RetryStep attempts again cancelled w { w with stage := .done, returned := w.returned ++ [r] }
  | wake {w : Retry ρ} (hstage : w.stage = .resting) (h : w.attempt < attempts) :
      RetryStep attempts again cancelled w { w with stage := .ready, attempt := w.attempt + 1 }
  | exhausted {w : Retry ρ} (hstage : w.stage = .resting) (h : ¬ w.attempt < attempts) :
      RetryStep attempts again cancelled w { w with stage := .done }

/-- The loop before its first attempt. -/
def Retry.init : Retry ρ := ⟨1, .ready, 0, []⟩

/-- **What a retry loop keeps**: it is within its attempts, every result but the latest asked for another
attempt, and it only ends without an attempt when it was cancelled. -/
structure Retry.Ordered (attempts : ℕ) (again : ρ → Prop) (cancelled : Bool) (w : Retry ρ) : Prop where
  attempt_le : w.attempt ≤ attempts
  ready : w.stage = .ready → w.started + 1 = w.attempt ∧ w.returned.length = w.started ∧
    ∀ r ∈ w.returned, again r
  running : w.stage = .running → w.started = w.attempt ∧ w.returned.length + 1 = w.started ∧
    ∀ r ∈ w.returned, again r
  resting : w.stage = .resting → w.started = w.attempt ∧ w.returned.length = w.started ∧
    (∀ r ∈ w.returned, again r) ∧ w.attempt < attempts
  done : w.stage = .done → w.started ≤ attempts ∧ w.returned.length = w.started ∧
    (∀ r ∈ w.returned.dropLast, again r) ∧ (w.started = 0 → cancelled = true)

section Ordered

variable {attempts : ℕ} {again : ρ → Prop} {cancelled : Bool} {w w' : Retry ρ}

theorem RetryStep.mono {c : Bool} (hc : c = true → cancelled = true)
    (h : RetryStep attempts again c w w') : RetryStep attempts again cancelled w w' := by
  cases h with
  | start hstage => exact .start hstage
  | giveUp hstage hcancelled => exact .giveUp hstage (hc hcancelled)
  | rest hstage hagain hlt => exact .rest hstage hagain hlt
  | finish hstage => exact .finish hstage
  | wake hstage hlt => exact .wake hstage hlt
  | exhausted hstage hlt => exact .exhausted hstage hlt

end Ordered

end Robinhood.Lib
