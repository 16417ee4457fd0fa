/-
# Lib.Serial — when concurrent procedures act one after the other

A pool of procedures shares one store, and any of them may take the next step.  A procedure is *open* when
it has taken a step and has one left.  If each procedure changes the store only in its last step, and no
step changes the store while another procedure is open, then the pool acts as if each procedure ran at once,
at the moment of its last step: an interleaved run is simulated by a serial one with the same answers.
-/
import Mathlib
import Robinhood.Lib.Proc

namespace Robinhood.Lib

open Relation Function

variable {ι σ ε α β : Type}

namespace Proc

/-- Nothing is left to do. -/
def Done : Proc σ ε α → Prop
  | step _ _ => False
  | _ => True

theorem done_ofExcept (r : Except ε α) : (ofExcept r : Proc σ ε α).Done := by cases r <;> trivial

theorem ofExcept_injective : Function.Injective (ofExcept : Except ε α → Proc σ ε α) := by
  intro r r' h
  cases r <;> cases r' <;> cases h <;> rfl

theorem Done.exists_eq {p : Proc σ ε α} (h : p.Done) : ∃ r, p = ofExcept r := by
  cases p with
  | pure a => exact ⟨.ok a, rfl⟩
  | fail e => exact ⟨.error e, rfl⟩
  | step g k => exact h.elim

def answer : Proc σ ε α → Option (Except ε α)
  | pure a => some (.ok a)
  | fail e => some (.error e)
  | step _ _ => none

theorem eq_ofExcept_of_answer {p : Proc σ ε α} {r : Except ε α} (h : p.answer = some r) :
    p = ofExcept r := by
  cases p <;> cases h <;> rfl

/-- **Only the last step changes the store.** -/
def SingleWrite : Proc σ ε α → Prop
  | step g k => ∀ s, (k s).Done ∨ g s = s ∧ SingleWrite (k s)
  | _ => True

theorem singleWrite_ask_bind {f : σ → Except ε β} {k : β → Proc σ ε α} (h : ∀ b, (k b).SingleWrite) :
    (ask f >>= k).SingleWrite := by
  intro s
  show ((ofExcept (f s)).bind k).Done ∨ _ ∧ ((ofExcept (f s)).bind k).SingleWrite
  cases f s with
  | error e => exact .inl trivial
  | ok b => exact .inr ⟨rfl, h b⟩

theorem singleWrite_read_bind {f : σ → β} {k : β → Proc σ ε α} (h : ∀ b, (k b).SingleWrite) :
    (read f >>= k).SingleWrite := fun s => .inr ⟨rfl, h (f s)⟩

theorem singleWrite_write (f : σ → σ) : (write f : Proc σ ε Unit).SingleWrite := fun _ => .inl trivial

theorem singleWrite_txn (f : σ → Except ε σ) : (txn f).SingleWrite := by
  intro s
  left
  dsimp only
  cases f s <;> trivial

theorem SingleWrite.bind_pure {p : Proc σ ε α} (h : p.SingleWrite) (f : α → β) :
    (p >>= fun a => Pure.pure (f a)).SingleWrite := by
  show (p.bind _).SingleWrite
  induction p with
  | pure a => trivial
  | fail e => trivial
  | step g k ih =>
    intro s
    obtain hdone | ⟨hsame, hrest⟩ := h s
    · obtain ⟨r, hr⟩ := hdone.exists_eq
      left
      show ((k s).bind _).Done
      rw [hr]
      cases r <;> trivial
    · exact .inr ⟨hsame, ih s hrest⟩

theorem SingleWrite.mapError {ε' : Type} {p : Proc σ ε α} (h : p.SingleWrite) (f : ε → ε') :
    (p.mapError f).SingleWrite := by
  induction p with
  | pure a => trivial
  | fail e => trivial
  | step g k ih =>
    intro s
    obtain hdone | ⟨hsame, hrest⟩ := h s
    · obtain ⟨r, hr⟩ := hdone.exists_eq
      left
      show ((k s).mapError f).Done
      rw [hr]
      cases r <;> trivial
    · exact .inr ⟨hsame, ih s hrest⟩

end Proc

open Proc

/-! ## §1 — Pools -/

structure Pool (ι σ ε α : Type) where
  store : σ
  left : ι → Proc σ ε α

variable (procs : ι → Proc σ ε α)

namespace Pool

def initial (s : σ) : Pool ι σ ε α := ⟨s, procs⟩

def Open (p : Pool ι σ ε α) (i : ι) : Prop := p.left i ≠ procs i ∧ ¬ (p.left i).Done

variable [DecidableEq ι]

/-- **One step of a pool**: some procedure takes its next one. -/
inductive Step : Pool ι σ ε α → Pool ι σ ε α → Prop
  | mk (p : Pool ι σ ε α) (i : ι) (g : σ → σ) (k : σ → Proc σ ε α) (h : p.left i = .step g k) :
    Step p ⟨g p.store, update p.left i (k p.store)⟩

/-- **A quiet step**: one that changes the store is taken while no other procedure is open. -/
inductive Quiet : Pool ι σ ε α → Pool ι σ ε α → Prop
  | mk (p : Pool ι σ ε α) (i : ι) (g : σ → σ) (k : σ → Proc σ ε α) (h : p.left i = .step g k)
    (halone : g p.store ≠ p.store → ∀ j, j ≠ i → ¬ p.Open procs j) :
    Quiet p ⟨g p.store, update p.left i (k p.store)⟩

/-- One step of the procedure `i`, if it has one left. -/
def stepAt (p : Pool ι σ ε α) (i : ι) : Pool ι σ ε α :=
  match p.left i with
  | .step g k => ⟨g p.store, update p.left i (k p.store)⟩
  | _ => p

theorem reflTransGen_stepAt (p : Pool ι σ ε α) (i : ι) : ReflTransGen Step p (p.stepAt i) := by
  unfold stepAt
  split
  · next g k h => exact .single (.mk p i g k h)
  · exact .refl

theorem reflTransGen_schedule (p : Pool ι σ ε α) (schedule : List ι) :
    ReflTransGen Step p (schedule.foldl stepAt p) := by
  induction schedule generalizing p with
  | nil => exact .refl
  | cons i schedule ih => exact (reflTransGen_stepAt p i).trans (ih _)

def finish (p : Pool ι σ ε α) (i : ι) : Pool ι σ ε α :=
  ⟨((p.left i).run p.store).2, update p.left i (ofExcept ((p.left i).run p.store).1)⟩

theorem finish_of_done {p : Pool ι σ ε α} {i : ι} {r : Except ε α} (h : p.left i = Proc.ofExcept r) :
    p.finish i = p := by
  unfold finish
  rw [h, run_ofExcept, ← h, update_eq_self]

/-- **A procedure that runs to its end while no other is open** takes quiet steps only. -/
theorem reflTransGen_finish (p : Pool ι σ ε α) (i : ι) (halone : ∀ j, j ≠ i → ¬ p.Open procs j) :
    ReflTransGen (Quiet procs) p (p.finish i) := by
  generalize hleft : p.left i = proc
  induction proc generalizing p with
  | pure a => rw [finish_of_done (r := .ok a) hleft]
  | fail e => rw [finish_of_done (r := .error e) hleft]
  | step g k ih =>
    have hnext : p.finish i = finish ⟨g p.store, update p.left i (k p.store)⟩ i := by
      simp [finish, hleft]
    rw [hnext]
    refine .head (.mk p i g k hleft fun _ => halone) (ih p.store _ (fun j hj => ?_) (by simp))
    simpa [Open, update_of_ne hj] using halone j hj

end Pool

/-! ## §2 — Serial runs -/

structure Answered (ι σ ε α : Type) where
  store : σ
  answer : ι → Option (Except ε α)

/-- **One step of a serial run**: a procedure that has not answered runs at once. -/
inductive Serial [DecidableEq ι] : Answered ι σ ε α → Answered ι σ ε α → Prop
  | mk (a : Answered ι σ ε α) (i : ι) (h : a.answer i = none) :
    Serial a ⟨((procs i).run a.store).2, update a.answer i (some ((procs i).run a.store).1)⟩

/-- **What the simulation keeps**: a procedure that has answered is done, and one that has not still does,
from the present store, what it would do from the start. -/
structure Simulates (p : Pool ι σ ε α) (a : Answered ι σ ε α) : Prop where
  store : a.store = p.store
  answered : ∀ i r, a.answer i = some r → p.left i = ofExcept r
  pending : ∀ i, a.answer i = none →
    ¬ (p.left i).Done ∧ (p.left i).SingleWrite ∧ (p.left i).run p.store = (procs i).run p.store

variable {procs} {p q : Pool ι σ ε α} {a : Answered ι σ ε α}

theorem simulates_initial (hwrite : ∀ i, (procs i).SingleWrite) (htodo : ∀ i, ¬ (procs i).Done) (s : σ) :
    Simulates procs (Pool.initial procs s) ⟨s, fun _ => none⟩ where
  store := rfl
  answered i r h := by cases h
  pending i _ := ⟨htodo i, hwrite i, rfl⟩

theorem Simulates.run_of_not_open (h : Simulates procs p a) {j : ι} (hj : a.answer j = none)
    (hopen : ¬ p.Open procs j) (s : σ) : (p.left j).run s = (procs j).run s := by
  have hsame : p.left j = procs j := by
    by_contra hne
    exact hopen ⟨hne, (h.pending j hj).1⟩
  rw [hsame]

variable [DecidableEq ι]

/-- **A quiet step is no serial step or one.** -/
theorem Simulates.quiet (h : Simulates procs p a) (hstep : Pool.Quiet procs p q) :
    ∃ b, ReflTransGen (Serial procs) a b ∧ Simulates procs q b := by
  cases hstep with
  | mk i g k hleft halone =>
  have hi : a.answer i = none := by
    cases hans : a.answer i with
    | none => rfl
    | some r =>
      have hdone := h.answered i r hans
      rw [hleft] at hdone
      cases r <;> cases hdone
  obtain ⟨-, hwrite, hrun⟩ := h.pending i hi
  rw [hleft] at hwrite hrun
  rw [run_step] at hrun
  -- what holds of the others after the step
  have hothers : ∀ j, j ≠ i → a.answer j = none → ¬ (p.left j).Done ∧ (p.left j).SingleWrite ∧
      (p.left j).run (g p.store) = (procs j).run (g p.store) := by
    intro j hj hans
    obtain ⟨htodo, hw, hr⟩ := h.pending j hans
    refine ⟨htodo, hw, ?_⟩
    by_cases hsame : g p.store = p.store
    · rw [hsame, hr]
    · exact h.run_of_not_open hans (halone hsame j hj) _
  by_cases hdone : (k p.store).Done
  · -- the last step: the procedure answers
    obtain ⟨r, hr⟩ := hdone.exists_eq
    rw [hr, run_ofExcept] at hrun
    refine ⟨_, .single (.mk a i hi), ?_⟩
    rw [h.store, ← hrun]
    refine ⟨rfl, fun j r' hj => ?_, fun j hj => ?_⟩
    · by_cases hji : j = i
      · subst hji
        obtain rfl : r = r' := by simpa using hj
        simpa using hr
      · simp only [update_of_ne hji] at hj ⊢
        exact h.answered j r' hj
    · have hji : j ≠ i := by
        rintro rfl
        simp at hj
      simp only [update_of_ne hji] at hj ⊢
      exact hothers j hji hj
  · obtain hlast | ⟨hsame, hrest⟩ := hwrite p.store
    · exact absurd hlast hdone
    · refine ⟨a, .refl, h.store.trans hsame.symm, fun j r' hj => ?_, fun j hj => ?_⟩
      · have hji : j ≠ i := by
          rintro rfl
          rw [hi] at hj
          cases hj
        simp only [update_of_ne hji]
        exact h.answered j r' hj
      · by_cases hji : j = i
        · subst hji
          simp only [update_self, hsame] at hrun ⊢
          exact ⟨hdone, hrest, hrun⟩
        · simp only [update_of_ne hji]
          exact hothers j hji hj

/-- **A quiet run is simulated by a serial one.** -/
theorem Simulates.run (h : Simulates procs p a) (hrun : ReflTransGen (Pool.Quiet procs) p q) :
    ∃ b, ReflTransGen (Serial procs) a b ∧ Simulates procs q b := by
  induction hrun with
  | refl => exact ⟨a, .refl, h⟩
  | tail _ hstep ih =>
    obtain ⟨b, hab, hb⟩ := ih
    obtain ⟨d, hbd, hd⟩ := hb.quiet hstep
    exact ⟨d, hab.trans hbd, hd⟩

omit [DecidableEq ι] in
theorem Simulates.answer_of_done (h : Simulates procs p a) {i : ι} {r : Except ε α}
    (hdone : p.left i = ofExcept r) : a.answer i = some r := by
  cases hans : a.answer i with
  | none => exact absurd (hdone ▸ done_ofExcept r) (h.pending i hans).1
  | some r' =>
    exact congrArg some (ofExcept_injective ((h.answered i r' hans).symm.trans hdone))

end Robinhood.Lib
