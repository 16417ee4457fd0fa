/-
# Lib.Interleave — a procedure among others

Between two steps of a procedure other processes may change the store, in the ways a relation `others`
allows.  `Guarantees` is a proof rule for such runs: it says what holds of every store the run passes
through and of the outcome, and is built up along the procedure.
-/
import Mathlib
import Robinhood.Lib.Proc

namespace Robinhood.Lib

open Relation

variable {σ ε α β δ : Type}

inductive Interleaved (others : σ → σ → Prop) : Proc σ ε α × σ → Proc σ ε α × σ → Prop
  | own (g : σ → σ) (k : σ → Proc σ ε α) (s : σ) : Interleaved others (.step g k, s) (k s, g s)
  | other {p : Proc σ ε α} {s t : σ} : others s t → Interleaved others (p, s) (p, t)

namespace Proc

/-- **A guarantee** from a store on: whatever the others do, `ok` holds of every store, and `post` of
the outcome and the store it is reached in. -/
def Guarantees (others : σ → σ → Prop) (ok : σ → Prop) (post : Except ε α → σ → Prop) :
    Proc σ ε α → σ → Prop
  | pure a, s => ∀ t, ReflTransGen others s t → ok t ∧ post (.ok a) t
  | fail e, s => ∀ t, ReflTransGen others s t → ok t ∧ post (.error e) t
  | step g k, s => ∀ t, ReflTransGen others s t → ok t ∧ Guarantees others ok post (k t) (g t)

variable {others : σ → σ → Prop} {ok : σ → Prop} {post post' : Except ε α → σ → Prop}

theorem Guarantees.holds {p : Proc σ ε α} {s : σ} (h : p.Guarantees others ok post s) : ok s := by
  cases p with
  | pure | fail | step => exact (h s .refl).1

theorem Guarantees.other {p : Proc σ ε α} {s t : σ} (h : p.Guarantees others ok post s)
    (hst : others s t) : p.Guarantees others ok post t := by
  cases p with
  | pure | fail | step => exact fun u hu => h u (.head hst hu)

theorem Guarantees.interleaved {c d : Proc σ ε α × σ} (h : c.1.Guarantees others ok post c.2)
    (hstep : Interleaved others c d) : d.1.Guarantees others ok post d.2 := by
  cases hstep with
  | own g k s => exact (h s .refl).2
  | other hst => exact h.other hst

/-- **A guarantee holds along every run.** -/
theorem Guarantees.reachable {p q : Proc σ ε α} {s t : σ} (h : p.Guarantees others ok post s)
    (hrun : ReflTransGen (Interleaved others) (p, s) (q, t)) : q.Guarantees others ok post t := by
  suffices ∀ c d : Proc σ ε α × σ, ReflTransGen (Interleaved others) c d →
      c.1.Guarantees others ok post c.2 → d.1.Guarantees others ok post d.2 from this _ _ hrun h
  intro c d hrun hc
  induction hrun with
  | refl => exact hc
  | tail _ hstep ih => exact ih.interleaved hstep

theorem reachable_run (others : σ → σ → Prop) (p : Proc σ ε α) (s : σ) :
    ∃ q, ReflTransGen (Interleaved others) (p, s) (q, (p.run s).2) := by
  induction p generalizing s with
  | pure | fail => exact ⟨_, .refl⟩
  | step g k ih =>
    obtain ⟨q, hq⟩ := ih s (g s)
    exact ⟨q, .head (.own g k s) hq⟩

/-! ## Rules -/

theorem Guarantees.mono {p : Proc σ ε α} {s : σ} (h : p.Guarantees others ok post s)
    (hpost : ∀ r t, ok t → post r t → post' r t) : p.Guarantees others ok post' s := by
  induction p generalizing s with
  | pure | fail => exact fun t ht => ⟨(h t ht).1, hpost _ t (h t ht).1 (h t ht).2⟩
  | step g k ih => exact fun t ht => ⟨(h t ht).1, ih t (h t ht).2⟩

theorem Guarantees.bind {p : Proc σ ε α} {f : α → Proc σ ε β} {post : Except ε β → σ → Prop} {s : σ}
    (h : p.Guarantees others ok (fun r t => match r with
      | .ok a => (f a).Guarantees others ok post t
      | .error e => post (.error e) t) s) :
    (p >>= f).Guarantees others ok post s := by
  show (p.bind f).Guarantees others ok post s
  induction p generalizing s with
  | pure a => exact (h s .refl).2
  | fail e => exact h
  | step g k ih => exact fun t ht => ⟨(h t ht).1, ih t (h t ht).2⟩

def Stable (others : σ → σ → Prop) (P : σ → Prop) : Prop := ∀ s t, P s → others s t → P t

theorem Stable.reach {P : σ → Prop} (h : Stable others P) {s t : σ} (hs : P s)
    (hst : ReflTransGen others s t) : P t := by
  induction hst with
  | refl => exact hs
  | tail _ hstep ih => exact h _ _ ih hstep

theorem guarantees_pure {P : σ → Prop} {a : α} {s : σ} (hP : Stable others P) (hs : P s)
    (hok : ∀ t, P t → ok t) (hpost : ∀ t, P t → post (.ok a) t) :
    (pure a : Proc σ ε α).Guarantees others ok post s := fun t hst =>
  ⟨hok t (hP.reach hs hst), hpost t (hP.reach hs hst)⟩

theorem guarantees_fail {P : σ → Prop} {e : ε} {s : σ} (hP : Stable others P) (hs : P s)
    (hok : ∀ t, P t → ok t) (hpost : ∀ t, P t → post (.error e) t) :
    (fail e : Proc σ ε α).Guarantees others ok post s := fun t hst =>
  ⟨hok t (hP.reach hs hst), hpost t (hP.reach hs hst)⟩

theorem guarantees_step {P : σ → Prop} {g : σ → σ} {k : σ → Proc σ ε α} {s : σ}
    (hP : Stable others P) (hs : P s) (hok : ∀ t, P t → ok t)
    (hnext : ∀ t, P t → (k t).Guarantees others ok post (g t)) :
    (step g k).Guarantees others ok post s := fun t hst =>
  ⟨hok t (hP.reach hs hst), hnext t (hP.reach hs hst)⟩

/-- The store after a call that changes it or fails. -/
def attempted (f : σ → Except δ σ) (s : σ) : σ :=
  match f s with
  | .ok s' => s'
  | .error _ => s

theorem guarantees_attempt_bind {P : σ → Prop} {f : σ → Except δ σ}
    {k : Except δ Unit → Proc σ ε α} {s : σ} (hP : Stable others P) (hs : P s)
    (hok : ∀ t, P t → ok t)
    (hdone : ∀ t t', P t → f t = .ok t' → (k (.ok ())).Guarantees others ok post t')
    (hfailed : ∀ t e, P t → f t = .error e → (k (.error e)).Guarantees others ok post t) :
    (attempt f >>= k).Guarantees others ok post s := by
  refine guarantees_step hP hs hok fun t ht => ?_
  show (Proc.bind (pure ((f t).map fun _ => ())) k).Guarantees others ok post
    (attempted f t)
  unfold attempted
  cases hf : f t with
  | ok t' => exact hdone t t' ht hf
  | error e => exact hfailed t e ht hf

theorem guarantees_ask_bind {P : σ → Prop} {f : σ → Except ε β} {k : β → Proc σ ε α} {s : σ}
    (hP : Stable others P) (hs : P s) (hok : ∀ t, P t → ok t)
    (hseen : ∀ t b, P t → f t = .ok b → (k b).Guarantees others ok post t)
    (hfailed : ∀ t e, P t → f t = .error e → post (.error e) t)
    (hpost : ∀ e, Stable others fun t => P t ∧ post (.error e) t) :
    (ask f >>= k).Guarantees others ok post s := by
  refine guarantees_step hP hs hok fun t ht => ?_
  show (Proc.bind (ofExcept (f t)) k).Guarantees others ok post t
  cases hf : f t with
  | ok b => exact hseen t b ht hf
  | error e =>
    exact guarantees_fail (hpost e) ⟨ht, hfailed t e ht hf⟩ (fun u hu => hok u hu.1) fun u hu => hu.2

end Proc

end Robinhood.Lib
