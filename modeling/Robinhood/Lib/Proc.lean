/-
# Lib.Proc — procedures over a shared store

A procedure that talks to a database is a sequence of atomic steps: between two steps other
procedures may run, and a crash may end it.  `Proc σ ε α` is that sequence, shallowly embedded: a
`step` moves the store by one function and continues with what it saw.  Three readings are derived
from it: `run` (nobody else moves), `crashAfter` (the store left behind by a crash after some number
of steps), and, in `Lib.Interleave`, the interleavings of several procedures.
-/
import Mathlib

namespace Robinhood.Lib

/-! ## §0 — Results -/

theorem except_bind_eq_ok {ε α β : Type} {x : Except ε α} {f : α → Except ε β} {b : β} :
    (x >>= f) = .ok b ↔ ∃ a, x = .ok a ∧ f a = .ok b := by
  cases x <;> simp [bind, Except.bind]

theorem except_mapError_eq_ok {ε ε' α : Type} {x : Except ε α} {h : ε → ε'} {a : α} :
    x.mapError h = .ok a ↔ x = .ok a := by
  cases x <;> simp [Except.mapError]

/-- **A procedure** over a store `σ`, failing with `ε` or returning an `α`.  `step f k` is one atomic
access: the store goes from `s` to `f s` and the procedure continues as `k s`. -/
inductive Proc (σ ε : Type) (α : Type) : Type
  | pure (a : α)
  | fail (e : ε)
  | step (f : σ → σ) (k : σ → Proc σ ε α)

namespace Proc

variable {σ ε ε' α β : Type}

/-! ## §1 — Composition -/

/-- Sequencing: the second procedure starts where the first one returned; a failure ends both. -/
def bind : Proc σ ε α → (α → Proc σ ε β) → Proc σ ε β
  | pure a, f => f a
  | fail e, _ => fail e
  | step g k, f => step g fun s => bind (k s) f

def mapError (h : ε → ε') : Proc σ ε α → Proc σ ε' α
  | pure a => pure a
  | fail e => fail (h e)
  | step g k => step g fun s => mapError h (k s)

instance : Monad (Proc σ ε) where
  pure := pure
  bind := bind

def read (f : σ → α) : Proc σ ε α := step id fun s => pure (f s)

def ofExcept : Except ε α → Proc σ ε α
  | .ok a => pure a
  | .error e => fail e

/-- One read that may fail. -/
def ask (f : σ → Except ε α) : Proc σ ε α := step id fun s => ofExcept (f s)

theorem mapError_ask (h : ε → ε') (f : σ → Except ε α) :
    (ask f).mapError h = ask fun s => (f s).mapError h := by
  simp only [ask, mapError]
  congr 1
  funext s
  cases f s <;> rfl

/-- **A transaction**: all of its writes or, when it fails, none of them. -/
def txn (f : σ → Except ε σ) : Proc σ ε Unit :=
  step (fun s => match f s with | .ok s' => s' | .error _ => s)
    fun s => match f s with | .ok _ => pure () | .error e => fail e

/-- One call that changes the store or fails, with the failure handed to the caller. -/
def attempt {δ : Type} (f : σ → Except δ σ) : Proc σ ε (Except δ Unit) :=
  step (fun s => match f s with | .ok s' => s' | .error _ => s)
    fun s => pure ((f s).map fun _ => ())

def write (f : σ → σ) : Proc σ ε Unit := step f fun _ => pure ()

def catching : Proc σ ε α → Proc σ ε' (Except ε α)
  | pure a => pure (.ok a)
  | fail e => pure (.error e)
  | step g k => step g fun s => catching (k s)

/-- The same procedure over a larger store, of which it accesses one part. -/
def zoom {τ : Type} (get : τ → σ) (set : τ → σ → τ) : Proc σ ε α → Proc τ ε α
  | pure a => pure a
  | fail e => fail e
  | step g k => step (fun t => set t (g (get t))) fun t => zoom get set (k (get t))

/-! ## §2 — Undisturbed runs -/

/-- **An undisturbed run**: the outcome, and the store it leaves.  A failure keeps the steps made
before it. -/
def run : Proc σ ε α → σ → Except ε α × σ
  | pure a, s => (.ok a, s)
  | fail e, s => (.error e, s)
  | step g k, s => run (k s) (g s)

@[simp] theorem run_pure (a : α) (s : σ) : (pure a : Proc σ ε α).run s = (.ok a, s) := rfl
@[simp] theorem run_fail (e : ε) (s : σ) : (fail e : Proc σ ε α).run s = (.error e, s) := rfl
@[simp] theorem run_step (g : σ → σ) (k : σ → Proc σ ε α) (s : σ) :
    (step g k).run s = (k s).run (g s) := rfl
@[simp] theorem run_read (f : σ → α) (s : σ) : (read f : Proc σ ε α).run s = (.ok (f s), s) := rfl
@[simp] theorem run_write (f : σ → σ) (s : σ) :
    (write f : Proc σ ε Unit).run s = (.ok (), f s) := rfl
@[simp] theorem run_return (a : α) (s : σ) : (Pure.pure a : Proc σ ε α).run s = (.ok a, s) := rfl

@[simp]
theorem run_ofExcept (r : Except ε α) (s : σ) : (ofExcept r : Proc σ ε α).run s = (r, s) := by
  cases r <;> rfl

@[simp]
theorem run_ask (f : σ → Except ε α) (s : σ) : (ask f).run s = (f s, s) := by
  simp only [ask, run_step, run_ofExcept, id]

theorem run_bind (p : Proc σ ε α) (f : α → Proc σ ε β) (s : σ) :
    (p >>= f).run s =
      match p.run s with
      | (.ok a, s') => (f a).run s'
      | (.error e, s') => (.error e, s') := by
  show (p.bind f).run s = _
  induction p generalizing s with
  | pure | fail => rfl
  | step g k ih => exact ih s (g s)

@[simp]
theorem run_mapError (h : ε → ε') (p : Proc σ ε α) (s : σ) :
    (p.mapError h).run s = ((p.run s).1.mapError h, (p.run s).2) := by
  induction p generalizing s with
  | pure | fail => rfl
  | step g k ih => exact ih s (g s)

theorem run_txn (f : σ → Except ε σ) (s : σ) :
    (txn f).run s = match f s with | .ok s' => (.ok (), s') | .error e => (.error e, s) := by
  cases h : f s <;> simp only [txn, run_step, h, run_pure, run_fail]

theorem run_zoom {τ : Type} {get : τ → σ} {set : τ → σ → τ} (hget : ∀ t s, get (set t s) = s)
    (hset : ∀ t s s', set (set t s) s' = set t s') (hself : ∀ t, set t (get t) = t)
    (p : Proc σ ε α) (t : τ) :
    (p.zoom get set).run t = ((p.run (get t)).1, set t (p.run (get t)).2) := by
  induction p generalizing t with
  | pure a => simp only [zoom, run_pure, hself]
  | fail e => simp only [zoom, run_fail, hself]
  | step g k ih => simp only [zoom, run_step, ih, hget, hset]

theorem run_bind_eq_ok {p : Proc σ ε α} {f : α → Proc σ ε β} {s s' : σ} {b : β} :
    (p >>= f).run s = (.ok b, s') ↔ ∃ a t, p.run s = (.ok a, t) ∧ (f a).run t = (.ok b, s') := by
  rw [run_bind]
  rcases p.run s with ⟨e | a, t⟩ <;> simp

theorem run_bind_ok {p : Proc σ ε α} {s s' : σ} {a : α} (h : p.run s = (.ok a, s'))
    (f : α → Proc σ ε β) : (p >>= f).run s = (f a).run s' := by
  rw [run_bind, h]

theorem run_bind_error {p : Proc σ ε α} {s s' : σ} {e : ε} (h : p.run s = (.error e, s'))
    (f : α → Proc σ ε β) : (p >>= f).run s = (.error e, s') := by
  rw [run_bind, h]

theorem run_bind_of_pure (p : Proc σ ε α) (f : α → β) (s : σ) :
    (p >>= fun a => pure (f a)).run s = ((p.run s).1.map f, (p.run s).2) := by
  rw [run_bind]
  rcases p.run s with ⟨e | a, t⟩ <;> rfl

theorem run_bind_snd_of_pure (p : Proc σ ε α) (f : α → β) (s : σ) :
    ((p >>= fun a => pure (f a)).run s).2 = (p.run s).2 :=
  congrArg Prod.snd (run_bind_of_pure p f s)

theorem run_catching_snd (p : Proc σ ε α) (s : σ) :
    ((p.catching : Proc σ ε' (Except ε α)).run s).2 = (p.run s).2 := by
  induction p generalizing s with
  | pure | fail => rfl
  | step g k ih => exact ih s (g s)

/-! ## §3 — One step at a time -/

/-- Every access of the procedure moves the store by a function for which `ok` holds. -/
def Each (ok : (σ → σ) → Prop) : Proc σ ε α → Prop
  | pure _ => True
  | fail _ => True
  | step f k => ok f ∧ ∀ s, Each ok (k s)

section Each

variable {ok : (σ → σ) → Prop}

theorem Each.bind {p : Proc σ ε α} {f : α → Proc σ ε β} (hp : p.Each ok) (hf : ∀ a, (f a).Each ok) :
    (p >>= f).Each ok := by
  show (p.bind f).Each ok
  induction p with
  | pure a => exact hf a
  | fail e => exact hp
  | step g k ih => exact ⟨hp.1, fun s => ih s (hp.2 s)⟩

theorem Each.mapError {p : Proc σ ε α} (hp : p.Each ok) (h : ε → ε') : (p.mapError h).Each ok := by
  induction p with
  | pure | fail => trivial
  | step g k ih => exact ⟨hp.1, fun s => ih s (hp.2 s)⟩

theorem Each.catching {p : Proc σ ε α} (hp : p.Each ok) :
    (p.catching : Proc σ ε' (Except ε α)).Each ok := by
  induction p with
  | pure | fail => trivial
  | step g k ih => exact ⟨hp.1, fun s => ih s (hp.2 s)⟩

theorem each_ofExcept (r : Except ε α) : (ofExcept r : Proc σ ε α).Each ok := by
  cases r <;> trivial

theorem each_ask (h : ok id) (f : σ → Except ε α) : (ask f).Each ok :=
  ⟨h, fun s => each_ofExcept (f s)⟩

theorem each_read (h : ok id) (f : σ → α) : (read f : Proc σ ε α).Each ok := ⟨h, fun _ => trivial⟩

theorem each_write {f : σ → σ} (h : ok f) : (write f : Proc σ ε Unit).Each ok := ⟨h, fun _ => trivial⟩

theorem each_txn {f : σ → Except ε σ}
    (h : ok fun s => match f s with | .ok s' => s' | .error _ => s) : (txn f).Each ok := by
  refine ⟨h, fun s => ?_⟩
  show Each ok (match f s with | .ok _ => pure () | .error e => fail e)
  cases f s <;> trivial

end Each

/-! ## §4 — Crashes -/

/-- **The store a crash leaves behind** after `n` steps of the procedure. -/
def crashAfter : Nat → Proc σ ε α → σ → σ
  | 0, _, s => s
  | _ + 1, pure _, s => s
  | _ + 1, fail _, s => s
  | n + 1, step g k, s => crashAfter n (k s) (g s)

theorem crashAfter_bind (n : ℕ) (p : Proc σ ε α) (f : α → Proc σ ε β) (s : σ) :
    (∃ m, crashAfter n (p >>= f) s = crashAfter m p s) ∨
      ∃ a t m, p.run s = (.ok a, t) ∧ crashAfter n (p >>= f) s = crashAfter m (f a) t := by
  induction p generalizing n s with
  | pure a => exact .inr ⟨a, s, n, rfl, rfl⟩
  | fail e =>
    refine .inl ⟨n, ?_⟩
    cases n <;> rfl
  | step g k ih =>
    cases n with
    | zero => exact .inl ⟨0, rfl⟩
    | succ n =>
      rcases ih s n (g s) with ⟨m, hm⟩ | ⟨a, t, m, hrun, hm⟩
      · exact .inl ⟨m + 1, hm⟩
      · exact .inr ⟨a, t, m, hrun, hm⟩

@[simp]
theorem crashAfter_mapError (n : ℕ) (h : ε → ε') (p : Proc σ ε α) (s : σ) :
    crashAfter n (p.mapError h) s = crashAfter n p s := by
  induction p generalizing n s with
  | pure | fail => cases n <;> rfl
  | step g k ih =>
    cases n with
    | zero => rfl
    | succ n => exact ih s n (g s)

@[simp]
theorem crashAfter_pure (n : ℕ) (a : α) (s : σ) :
    crashAfter n (pure a : Proc σ ε α) s = s := by
  cases n <;> rfl

@[simp]
theorem crashAfter_fail (n : ℕ) (e : ε) (s : σ) :
    crashAfter n (fail e : Proc σ ε α) s = s := by
  cases n <;> rfl

@[simp]
theorem crashAfter_ask (n : ℕ) (f : σ → Except ε α) (s : σ) : crashAfter n (ask f) s = s := by
  rcases n with _ | n
  · rfl
  · show crashAfter n (ofExcept (f s)) s = s
    cases f s with
    | ok a => exact crashAfter_pure n a s
    | error e => exact crashAfter_fail n e s

theorem exists_crashAfter_eq_run (p : Proc σ ε α) (s : σ) : ∃ n, crashAfter n p s = (p.run s).2 := by
  induction p generalizing s with
  | pure | fail => exact ⟨0, rfl⟩
  | step g k ih =>
    obtain ⟨n, hn⟩ := ih s (g s)
    exact ⟨n + 1, hn⟩

/-- **An atomic procedure** leaves after a crash the store as it was, or as it is when done. -/
def Atomic (p : Proc σ ε α) : Prop :=
  ∀ n s, crashAfter n p s = s ∨ ∃ a, p.run s = (.ok a, crashAfter n p s)

theorem atomic_ask (f : σ → Except ε α) : Atomic (ask f) := fun n s => .inl (crashAfter_ask n f s)

theorem atomic_fail (e : ε) : Atomic (fail e : Proc σ ε α) := fun n s => .inl (crashAfter_fail n e s)

theorem atomic_pure (a : α) : Atomic (pure a : Proc σ ε α) := fun n s => .inl (crashAfter_pure n a s)

theorem atomic_step (g : σ → σ) (k : σ → α) :
    Atomic (step g fun s => (pure (k s) : Proc σ ε α)) := by
  intro n s
  rcases n with _ | n
  · exact .inl rfl
  · refine .inr ⟨k s, ?_⟩
    show (Except.ok (k s), g s) = (.ok (k s), crashAfter n (pure (k s) : Proc σ ε α) (g s))
    rw [crashAfter_pure]

theorem atomic_write (g : σ → σ) : Atomic (write g : Proc σ ε Unit) := atomic_step g fun _ => ()

theorem atomic_read (f : σ → α) : Atomic (read f : Proc σ ε α) := atomic_step id f

theorem atomic_txn (f : σ → Except ε σ) : Atomic (txn f) := by
  intro n s
  rcases n with _ | n
  · exact .inl rfl
  · cases hf : f s with
    | ok s' =>
      refine .inr ⟨(), ?_⟩
      rw [run_txn, hf]
      simp only [txn, crashAfter, hf, crashAfter_pure]
    | error e =>
      refine .inl ?_
      simp only [txn, crashAfter, hf, crashAfter_fail]

theorem Atomic.mapError {p : Proc σ ε α} (hp : Atomic p) (h : ε → ε') : Atomic (p.mapError h) := by
  intro n s
  rw [crashAfter_mapError]
  refine (hp n s).imp_right fun ⟨a, ha⟩ => ⟨a, ?_⟩
  rw [run_mapError, ha]
  rfl

theorem Atomic.ask_bind {f : σ → Except ε α} {g : α → Proc σ ε β} (hg : ∀ a, Atomic (g a)) :
    Atomic (ask f >>= g) := by
  intro n s
  rcases crashAfter_bind n (ask f) g s with ⟨m, hm⟩ | ⟨a, t, m, hrun, hm⟩
  · exact .inl (hm.trans (crashAfter_ask m f s))
  · obtain ⟨ha, rfl⟩ : f s = .ok a ∧ s = t := by simpa using hrun
    rw [hm, run_bind_ok hrun]
    exact hg a m s

/-- **A crash in a sequence** happens before its first part is done, or in the rest. -/
theorem Atomic.crashAfter_bind {p : Proc σ ε α} (hp : Atomic p) (n : ℕ) (f : α → Proc σ ε β)
    (s : σ) : crashAfter n (p >>= f) s = s ∨
      ∃ a t m, p.run s = (.ok a, t) ∧ crashAfter n (p >>= f) s = crashAfter m (f a) t := by
  rcases Proc.crashAfter_bind n p f s with ⟨m, hm⟩ | hrest
  · rcases hp m s with hs | ⟨a, ha⟩
    · exact .inl (hm.trans hs)
    · exact .inr ⟨a, _, 0, ha, hm⟩
  · exact .inr hrest

/-- **What holds after every crash**, for an atomic procedure: it holds before and when done. -/
theorem Atomic.crash {p : Proc σ ε α} {P : σ → Prop} {n : ℕ} {s : σ} (hp : Atomic p) (hs : P s)
    (hdone : ∀ a t, p.run s = (.ok a, t) → P t) : P (crashAfter n p s) := by
  rcases hp n s with h | ⟨a, hrun⟩
  · rw [h]
    exact hs
  · exact hdone a _ hrun

theorem Atomic.crash_bind {p : Proc σ ε α} {P : σ → Prop} {n : ℕ} {f : α → Proc σ ε β} {s : σ}
    (hp : Atomic p) (hs : P s)
    (hrest : ∀ a t m, p.run s = (.ok a, t) → P (crashAfter m (f a) t)) :
    P (crashAfter n (p >>= f) s) := by
  rcases hp.crashAfter_bind n f s with h | ⟨a, t, m, hrun, h⟩
  · rw [h]
    exact hs
  · rw [h]
    exact hrest a t m hrun

end Proc

end Robinhood.Lib
