/-
# Lib.Service — long-running programs whose calls fail and whose process crashes

A service calls a store, asks its surroundings, and starts again after a crash with nothing but the
store.  A call may fail without effect, and it may fail after its effect.  `Prog` is one turn of such a
service as a tree; what happened is recorded as a list of events, the latest first, so that "since the
last …" is a `takeWhile`.

`Holds R post p` is the crash condition logic for turns: `R` holds at every point where a crash may
come, and `post` of what the turn returns.  `Service.holds_of_reaches` lifts it to whole runs.
-/
import Mathlib
import Robinhood.Lib.Proc

namespace Robinhood.Lib

/-! ## §1 — Programs -/

/-- **One turn of a service** over a store `σ`: calls `C`, questions `Q` with answers `A`, and notes `N`
that mark a point of the program. -/
inductive Prog (σ C N : Type) {Q : Type} (A : Q → Type) (α : Type) : Type
  | ret (a : α)
  | call (c : C) (f : σ → σ) (k : Option σ → Prog σ C N A α)
  | ask (q : Q) (k : A q → Prog σ C N A α)
  | note (n : N) (next : Prog σ C N A α)

/-- **What happened**: a call took effect on a store, a call failed before it did, a question was
answered, a note was passed, the process crashed. -/
inductive Event (σ C N : Type) {Q : Type} (A : Q → Type) : Type
  | did (c : C) (before : σ)
  | failed (c : C)
  | answered (q : Q) (a : A q)
  | noted (n : N)
  | crashed

namespace Prog

variable {σ C N Q : Type} {A : Q → Type} {α β ε : Type}

def bind : Prog σ C N A α → (α → Prog σ C N A β) → Prog σ C N A β
  | ret a, f => f a
  | call c g k, f => call c g fun r => bind (k r) f
  | ask q k, f => ask q fun a => bind (k a) f
  | note n next, f => note n (bind next f)

instance : Monad (Prog σ C N A) where
  pure := ret
  bind := bind

def answer (q : Q) : Prog σ C N A (A q) := ask q ret

def mark (n : N) : Prog σ C N A Unit := note n (ret ())

/-- A procedure whose every access is a call `c`; `none` is the error of an access that failed. -/
def perform (c : C) : Proc σ ε α → Prog σ C N A (Except (Option ε) α)
  | .pure a => ret (.ok a)
  | .fail e => ret (.error (some e))
  | .step f k => call c f fun
    | some s => perform c (k s)
    | none => ret (.error none)

theorem perform_write (c : C) (f : σ → σ) {ε' : Type} (h : ε → ε') :
    (perform c ((Proc.write f : Proc σ ε Unit).mapError h) : Prog σ C N A _) =
      call c f fun r => ret (if r.isSome then .ok () else .error none) := by
  simp only [Proc.write, Proc.mapError, perform]
  congr 1
  funext r
  cases r <;> rfl

theorem perform_read (c : C) (f : σ → α) :
    (perform c (Proc.read f : Proc σ ε α) : Prog σ C N A _) =
      call c id fun r => ret ((r.map fun s => .ok (f s)).getD (.error none)) := by
  simp only [Proc.read, perform]
  congr 1
  funext r
  cases r <;> rfl

/-- `?`: an error ends the function. -/
def andThen (p : Prog σ C N A (Except ε α)) (f : α → Prog σ C N A (Except ε β)) :
    Prog σ C N A (Except ε β) :=
  p >>= fun
    | .ok a => f a
    | .error e => ret (.error e)

def play (answers : ∀ q, A q) : Prog σ C N A α → σ → List (Event σ C N A) → α × σ × List (Event σ C N A)
  | ret a, s, t => (a, s, t)
  | call c f k, s, t => play answers (k (some s)) (f s) (.did c s :: t)
  | ask q k, s, t => play answers (k (answers q)) s (.answered q (answers q) :: t)
  | note n next, s, t => play answers next s (.noted n :: t)

section Play

variable (answers : ∀ q, A q)

theorem play_bind (p : Prog σ C N A α) (f : α → Prog σ C N A β) (s : σ)
    (t : List (Event σ C N A)) :
    (p >>= f).play answers s t =
      (f (p.play answers s t).1).play answers (p.play answers s t).2.1 (p.play answers s t).2.2 := by
  show (p.bind f).play answers s t = _
  induction p generalizing s t with
  | ret a => rfl
  | call c g k ih => exact ih (some s) (g s) _
  | ask q k ih => exact ih (answers q) s _
  | note n next ih => exact ih s _

theorem play_perform (c : C) (p : Proc σ ε α) (s : σ) (t : List (Event σ C N A)) :
    ((perform c p : Prog σ C N A _).play answers s t).1 = (p.run s).1.mapError some ∧
      ((perform c p : Prog σ C N A _).play answers s t).2.1 = (p.run s).2 := by
  induction p generalizing s t with
  | pure | fail => exact ⟨rfl, rfl⟩
  | step f k ih =>
    rw [perform, play]
    exact ih s (f s) _

theorem play_andThen {p : Prog σ C N A (Except (Option ε) α)}
    {f : α → Prog σ C N A (Except (Option ε) β)} {q : Proc σ ε α} {g : α → Proc σ ε β} {s : σ}
    {t : List (Event σ C N A)}
    (hp : (p.play answers s t).1 = (q.run s).1.mapError some ∧ (p.play answers s t).2.1 = (q.run s).2)
    (hf : ∀ a s t, ((f a).play answers s t).1 = ((g a).run s).1.mapError some ∧
      ((f a).play answers s t).2.1 = ((g a).run s).2) :
    ((p.andThen f).play answers s t).1 = ((q >>= g).run s).1.mapError some ∧
      ((p.andThen f).play answers s t).2.1 = ((q >>= g).run s).2 := by
  rw [andThen, play_bind, Proc.run_bind, hp.1, hp.2]
  rcases q.run s with ⟨e | a, s'⟩
  · exact ⟨rfl, rfl⟩
  · exact hf a s' _

end Play

/-- **One step of a turn** among other processes: a failed call is reported as failed whether or not it took
effect. -/
inductive Step : Prog σ C N A α × σ → Prog σ C N A α × σ → Prop
  | done (c f k s) : Step (.call c f k, s) (k (some s), f s)
  | unanswered (c f k s) : Step (.call c f k, s) (k none, f s)
  | lost (c f k s) : Step (.call c f k, s) (k none, s)
  | answered (q k s) (a : A q) : Step (.ask q k, s) (k a, s)
  | noted (n p s) : Step (.note n p, s) (p, s)

/-- The turn that `play` describes is one of the turns. -/
theorem steps_play (answers : ∀ q, A q) (p : Prog σ C N A α) (s : σ) (t : List (Event σ C N A)) :
    Relation.ReflTransGen Step (p, s) (.ret (p.play answers s t).1, (p.play answers s t).2.1) := by
  induction p generalizing s t with
  | ret a => exact .refl
  | call c f k ih => exact .head (.done c f k s) (ih (some s) (f s) _)
  | ask q k ih => exact .head (.answered q k s (answers q)) (ih (answers q) s _)
  | note n next ih => exact .head (.noted n next s) (ih s _)

/-! ## §2 — Crash conditions -/

section Logic

variable (R : σ → List (Event σ C N A) → Prop)

/-- **`Holds R post p s t`**: from the store `s` after the events `t`, `R` holds wherever the turn `p` may
be interrupted, and `post` where it returns. -/
def Holds (post : α → σ → List (Event σ C N A) → Prop) :
    Prog σ C N A α → σ → List (Event σ C N A) → Prop
  | ret a, s, t => R s t ∧ post a s t
  | call c f k, s, t =>
    R s t ∧ Holds post (k (some s)) (f s) (.did c s :: t) ∧
      Holds post (k none) (f s) (.did c s :: t) ∧ Holds post (k none) s (.failed c :: t)
  | ask q k, s, t => R s t ∧ ∀ a : A q, Holds post (k a) s (.answered q a :: t)
  | note n next, s, t => R s t ∧ Holds post next s (.noted n :: t)

variable {R} {post : α → σ → List (Event σ C N A) → Prop} {p : Prog σ C N A α} {s : σ}
  {t : List (Event σ C N A)}

theorem Holds.crash (h : Holds R post p s t) : R s t := by
  cases p with
  | ret | call | ask | note => exact h.1

theorem Holds.imp {post' : α → σ → List (Event σ C N A) → Prop} (h : Holds R post p s t)
    (himp : ∀ a s t, R s t → post a s t → post' a s t) : Holds R post' p s t := by
  induction p generalizing s t with
  | ret a => exact ⟨h.1, himp a s t h.1 h.2⟩
  | call c f k ih => exact ⟨h.1, ih _ h.2.1, ih _ h.2.2.1, ih _ h.2.2.2⟩
  | ask q k ih => exact ⟨h.1, fun a => ih a (h.2 a)⟩
  | note n next ih => exact ⟨h.1, ih h.2⟩

theorem Holds.bind {f : α → Prog σ C N A β} {post : β → σ → List (Event σ C N A) → Prop}
    (h : Holds R (fun a s t => Holds R post (f a) s t) p s t) : Holds R post (p >>= f) s t := by
  show Holds R post (p.bind f) s t
  induction p generalizing s t with
  | ret a => exact h.2
  | call c g k ih => exact ⟨h.1, ih _ h.2.1, ih _ h.2.2.1, ih _ h.2.2.2⟩
  | ask q k ih => exact ⟨h.1, fun a => ih a (h.2 a)⟩
  | note n next ih => exact ⟨h.1, ih h.2⟩

theorem Holds.andThen {p : Prog σ C N A (Except ε α)} {f : α → Prog σ C N A (Except ε β)}
    {post : Except ε β → σ → List (Event σ C N A) → Prop}
    (h : Holds R (fun r s t =>
      match r with
      | .ok a => Holds R post (f a) s t
      | .error e => post (.error e) s t) p s t) :
    Holds R post (p.andThen f) s t := by
  refine Holds.bind (h.imp fun r s t hR hr => ?_)
  cases r with
  | ok a => exact hr
  | error e => exact ⟨hR, hr⟩

/-- A procedure whose steps all keep `P` of store and events. -/
theorem holds_perform {c : C} {P : σ → List (Event σ C N A) → Prop} (hR : ∀ s t, P s t → R s t)
    (hfailed : ∀ s t, P s t → P s (.failed c :: t)) {ok : (σ → σ) → Prop}
    (hdid : ∀ f s t, ok f → P s t → P (f s) (.did c s :: t)) {p : Proc σ ε α} (hp : p.Each ok)
    (h : P s t) : Holds R (fun _ => P) (perform c p) s t := by
  induction p generalizing s t with
  | pure | fail => exact ⟨hR s t h, h⟩
  | step f k ih =>
    have hnext := hdid f s t hp.1 h
    have hlost := hfailed s t h
    rw [perform]
    exact ⟨hR s t h, ih s (hp.2 s) hnext, ⟨hR _ _ hnext, hnext⟩, hR _ _ hlost, hlost⟩

end Logic

end Prog

/-! ## §3 — Runs -/

/-- **A service**: the turn it makes in each of its phases, and the phase it starts in. -/
structure Service (σ C N : Type) {Q : Type} (A : Q → Type) (L : Type) where
  turn : L → Prog σ C N A L
  start : L

namespace Service

variable {σ C N Q : Type} {A : Q → Type} {L : Type}

/-- A service at work: what is left of its turn, the store, and what happened. -/
structure Config (σ C N : Type) {Q : Type} (A : Q → Type) (L : Type) where
  prog : Prog σ C N A L
  store : σ
  trace : List (Event σ C N A)

/-- **One step.**  A failed call is reported as failed whether or not it took effect. -/
inductive Step (v : Service σ C N A L) : Config σ C N A L → Config σ C N A L → Prop
  | done (c f k s t) : v.Step ⟨.call c f k, s, t⟩ ⟨k (some s), f s, .did c s :: t⟩
  | unanswered (c f k s t) : v.Step ⟨.call c f k, s, t⟩ ⟨k none, f s, .did c s :: t⟩
  | lost (c f k s t) : v.Step ⟨.call c f k, s, t⟩ ⟨k none, s, .failed c :: t⟩
  | answered (q k s t) (a : A q) : v.Step ⟨.ask q k, s, t⟩ ⟨k a, s, .answered q a :: t⟩
  | noted (n p s t) : v.Step ⟨.note n p, s, t⟩ ⟨p, s, .noted n :: t⟩
  | again (l s t) : v.Step ⟨.ret l, s, t⟩ ⟨v.turn l, s, t⟩
  | crash (p s t) : v.Step ⟨p, s, t⟩ ⟨.ret v.start, s, .crashed :: t⟩

def Reaches (v : Service σ C N A L) (s : σ) (w : Config σ C N A L) : Prop :=
  Relation.ReflTransGen v.Step ⟨.ret v.start, s, []⟩ w

variable {v : Service σ C N A L} {R : σ → List (Event σ C N A) → Prop}
  {inv : L → σ → List (Event σ C N A) → Prop} {s : σ} {w : Config σ C N A L}

/-- **From turns to runs**: if a crash keeps `R`, `R` is enough to start, and every turn holds from its
phase's invariant, then every reachable configuration is inside such a turn. -/
theorem holds_of_reaches (hcrash : ∀ s t, R s t → R s (.crashed :: t))
    (hstart : ∀ s t, R s t → inv v.start s t)
    (hturn : ∀ l s t, R s t → inv l s t → (v.turn l).Holds R inv s t) (h0 : R s [])
    (hw : v.Reaches s w) : w.prog.Holds R inv w.store w.trace := by
  induction hw with
  | refl => exact ⟨h0, hstart _ _ h0⟩
  | tail _ hstep ih =>
    cases hstep with
    | done c f k s t => exact ih.2.1
    | unanswered c f k s t => exact ih.2.2.1
    | lost c f k s t => exact ih.2.2.2
    | answered q k s t a => exact ih.2 a
    | noted n p s t => exact ih.2
    | again l s t => exact hturn l s t ih.1 ih.2
    | crash p s t =>
      have hR := hcrash s t ih.crash
      exact ⟨hR, hstart _ _ hR⟩

/-- The turn that `play` describes is one of the turns a service may make. -/
theorem steps_play (answers : ∀ q, A q) (p : Prog σ C N A L) (s : σ) (t : List (Event σ C N A)) :
    Relation.ReflTransGen v.Step ⟨p, s, t⟩
      ⟨.ret (p.play answers s t).1, (p.play answers s t).2.1, (p.play answers s t).2.2⟩ := by
  induction p generalizing s t with
  | ret a => exact .refl
  | call c f k ih => exact .head (.done c f k s t) (ih (some s) (f s) _)
  | ask q k ih => exact .head (.answered q k s t (answers q)) (ih (answers q) s _)
  | note n next ih => exact .head (.noted n next s t) (ih s _)

theorem Reaches.play {l : L} {s' : σ} {t : List (Event σ C N A)} (h : v.Reaches s ⟨.ret l, s', t⟩)
    (answers : ∀ q, A q) :
    v.Reaches s ⟨.ret ((v.turn l).play answers s' t).1, ((v.turn l).play answers s' t).2.1,
      ((v.turn l).play answers s' t).2.2⟩ :=
  (h.tail (.again l s' t)).trans (steps_play answers ..)

end Service

end Robinhood.Lib
