/-
# Lib.WorkerPool — a loop that hands items to concurrent workers

A loop judges one item after the other: it passes over it, stops, or hands it to a worker of its own, for
which it first waits for one of a fixed number of permits.  When the loop has ended the workers are
joined, in the order in which they finish.  A token can be cancelled at any time; the loop looks at it
before each item, the workers where they please.

`PoolSpec` says how items are judged and what a worker does; `PoolSpec.Step` is every interleaving of the
loop, the workers and the joins.  The results are the ones each client needs: which items are handed out
(`selectBy`), that nothing is lost on the way to the joins (`Accounted`), that a worker is only ever in a
state it reaches on its own (`Worked`), and that every run can be brought to its end (`exists_finished`).
-/
import Mathlib

namespace Robinhood.Lib

open Relation

/-! ## §1 — The loop -/

/-- What the loop does with the next item. -/
inductive Verdict (A : Type) where
  | skip
  | stop
  | hand (acc : A)

section Select

variable {ι κ A : Type}

/-- The items a loop hands out when nobody cancels, and how many it passes over. -/
def selectBy (judge : A → ι → Verdict A) : A → List ι → List ι × ℕ
  | _, [] => ([], 0)
  | acc, i :: rest => match judge acc i with
    | .skip => ((selectBy judge acc rest).1, (selectBy judge acc rest).2 + 1)
    | .stop => ([], 0)
    | .hand acc' => (i :: (selectBy judge acc' rest).1, (selectBy judge acc' rest).2)

theorem selectBy_map (judge : A → κ → Verdict A) (f : ι → κ) (acc : A) (items : List ι) :
    selectBy judge acc (items.map f) =
      ((selectBy (fun acc i => judge acc (f i)) acc items).1.map f,
        (selectBy (fun acc i => judge acc (f i)) acc items).2) := by
  induction items generalizing acc with
  | nil => rfl
  | cons i items ih =>
    rw [List.map_cons, selectBy, selectBy]
    cases judge acc (f i) with
    | skip => simp [ih]
    | stop => rfl
    | hand => simp [ih]

end Select

/-! ## §2 — Pools -/

/-- **A pool**: the number of permits, the judgement of an item, and the steps `E` of a worker, which may
depend on whether the token is cancelled. -/
structure PoolSpec (ι A W E : Type) where
  permits : ℕ
  judge : A → ι → Verdict A
  start : ι → W
  step : Bool → ι → W → E → W → Prop
  done : W → Bool

/-- **The state of a pool.**  `set` are the workers not yet joined; `handed` is every item that was ever
handed out, in order. -/
structure WorkerPool (ι A W : Type) where
  todo : List ι
  acc : A
  cancelled : Bool
  skipped : ℕ
  handed : List ι
  set : List (ι × W)
  joined : List (ι × W)

inductive PoolAct (ι E : Type) where
  | cancel
  | cutOff
  | skip
  | stop
  | hand (item : ι)
  | work (item : ι) (event : E)
  | join (item : ι)

namespace WorkerPool

variable {ι A W : Type}

def init (items : List ι) (acc : A) : WorkerPool ι A W := ⟨items, acc, false, 0, [], [], []⟩

def workers (s : WorkerPool ι A W) : List (ι × W) := s.set ++ s.joined

def Finished (s : WorkerPool ι A W) : Prop := s.todo = [] ∧ s.set = []

end WorkerPool

namespace PoolSpec

variable {ι A W E : Type} (P : PoolSpec ι A W E)

def holding (s : WorkerPool ι A W) : ℕ := s.set.countP fun iw => !P.done iw.2

/-- **One step of a pool.** -/
inductive Step : WorkerPool ι A W → PoolAct ι E → WorkerPool ι A W → Prop
  | cancel {s : WorkerPool ι A W} (h : s.cancelled = false) : Step s .cancel { s with cancelled := true }
  | cutOff {s : WorkerPool ι A W} (h : s.cancelled = true) (htodo : s.todo ≠ []) :
      Step s .cutOff { s with todo := [] }
  | skip {s : WorkerPool ι A W} {i : ι} {rest : List ι} (h : s.cancelled = false) (htodo : s.todo = i :: rest)
      (hjudge : P.judge s.acc i = .skip) : Step s .skip { s with todo := rest, skipped := s.skipped + 1 }
  | stop {s : WorkerPool ι A W} {i : ι} {rest : List ι} (h : s.cancelled = false) (htodo : s.todo = i :: rest)
      (hjudge : P.judge s.acc i = .stop) : Step s .stop { s with todo := [] }
  -- the token may be cancelled while the loop waits for the permit
  | hand {s : WorkerPool ι A W} {i : ι} {rest : List ι} {acc : A} (htodo : s.todo = i :: rest)
      (hjudge : P.judge s.acc i = .hand acc) (hpermit : P.holding s < P.permits) :
      Step s (.hand i)
        { s with todo := rest, acc, handed := s.handed ++ [i], set := s.set ++ [(i, P.start i)] }
  | work {s : WorkerPool ι A W} {i : ι} {w w' : W} {e : E} {before after : List (ι × W)}
      (hset : s.set = before ++ (i, w) :: after) (hstep : P.step s.cancelled i w e w') :
      Step s (.work i e) { s with set := before ++ (i, w') :: after }
  | join {s : WorkerPool ι A W} {i : ι} {w : W} {before after : List (ι × W)} (htodo : s.todo = [])
      (hset : s.set = before ++ (i, w) :: after) (hdone : P.done w = true) :
      Step s (.join i) { s with set := before ++ after, joined := s.joined ++ [(i, w)] }

def ReachesBy (ok : WorkerPool ι A W → PoolAct ι E → Prop) :
    WorkerPool ι A W → WorkerPool ι A W → Prop :=
  ReflTransGen fun s t => ∃ act, ok s act ∧ P.Step s act t

/-- The runs. -/
def Reaches : WorkerPool ι A W → WorkerPool ι A W → Prop := P.ReachesBy fun _ _ => True

variable {P} {s t : WorkerPool ι A W} {act : PoolAct ι E}

theorem ReachesBy.reaches {ok : WorkerPool ι A W → PoolAct ι E → Prop} (h : P.ReachesBy ok s t) :
    P.Reaches s t :=
  ReflTransGen.mono (fun _ _ ⟨act, _, hstep⟩ => ⟨act, trivial, hstep⟩) _ _ h

/-- **The invariant rule**: what one allowed step keeps holds along the run. -/
theorem ReachesBy.invariant {ok : WorkerPool ι A W → PoolAct ι E → Prop} {Inv : WorkerPool ι A W → Prop}
    (h : P.ReachesBy ok s t) (hs : Inv s)
    (hstep : ∀ {s t act}, Inv s → ok s act → P.Step s act t → Inv t) : Inv t := by
  induction h with
  | refl => exact hs
  | tail _ hlast ih =>
    obtain ⟨act, hok, hlast⟩ := hlast
    exact hstep ih hok hlast

theorem Step.cancelled (h : P.Step s act t) (hs : s.cancelled = true) : t.cancelled = true := by
  cases h with
  | cancel => rfl
  | cutOff | skip | stop | hand | work | join => exact hs

/-! ## §3 — What is handed out -/

/-- What is handed out so far, and what the loop would still hand out. -/
def Selected (P : PoolSpec ι A W E) (items : List ι) (acc : A) (s : WorkerPool ι A W) : Prop :=
  s.cancelled = false →
    selectBy P.judge acc items = (s.handed ++ (selectBy P.judge s.acc s.todo).1, s.skipped + (selectBy P.judge s.acc s.todo).2)

theorem Step.selected {items : List ι} {acc : A} (h : P.Step s act t) (hs : Selected P items acc s) :
    Selected P items acc t := by
  intro hcancel
  have hs := hs (by
    by_contra hs
    rw [h.cancelled (by simpa using hs)] at hcancel
    cases hcancel)
  rw [hs]
  cases h with
  | cancel => cases hcancel
  | cutOff hs' => rw [hs'] at hcancel; cases hcancel
  | skip _ htodo hjudge | stop _ htodo hjudge | hand htodo hjudge =>
    simp [htodo, selectBy, hjudge, Nat.add_assoc, Nat.add_comm 1]
  | work | join => rfl

/-- **What a run hands out**: once the loop has ended, and if the token was never cancelled, exactly the
selected items, in their order, and so many were passed over. -/
theorem Reaches.selected {items : List ι} {acc : A} (h : P.Reaches (.init items acc) s)
    (hcancel : s.cancelled = false) (htodo : s.todo = []) :
    selectBy P.judge acc items = (s.handed, s.skipped) := by
  have hs : Selected P items acc s :=
    h.invariant (fun _ => by simp [WorkerPool.init]) fun hs _ hstep => hstep.selected hs
  rw [hs hcancel, htodo]
  simp [selectBy]

theorem Reaches.handed_isPrefix {items : List ι} {acc : A} (h : P.Reaches (.init items acc) s)
    (hcancel : s.cancelled = false) : ∃ rest, (selectBy P.judge acc items).1 = s.handed ++ rest := by
  have hs : Selected P items acc s :=
    h.invariant (fun _ => by simp [WorkerPool.init]) fun hs _ hstep => hstep.selected hs
  exact ⟨_, congrArg Prod.fst (hs hcancel)⟩

/-! ## §4 — What becomes of the workers -/

/-- Each item that was handed out has its worker, not yet joined or joined. -/
def Accounted (s : WorkerPool ι A W) : Prop := (s.workers.map Prod.fst).Perm s.handed

theorem Step.accounted (h : P.Step s act t) (hs : Accounted s) : Accounted t := by
  unfold Accounted WorkerPool.workers at hs ⊢
  cases h with
  | cancel | cutOff | skip | stop => exact hs
  | @hand i =>
    simp only [List.map_append, List.map_cons, List.map_nil, List.append_assoc] at hs ⊢
    refine ((List.perm_append_comm_assoc _ _ _).trans ?_).trans List.perm_append_comm
    exact hs.append_left [i]
  | work hset =>
    rw [hset] at hs
    simpa using hs
  | @join i w before after _ hset =>
    rw [hset] at hs
    refine List.Perm.trans ?_ hs
    simp only [List.map_append, List.map_cons, List.map_nil, List.append_assoc, List.cons_append]
    refine List.Perm.append_left _ ?_
    rw [← List.append_assoc]
    exact List.perm_append_singleton ..

theorem Reaches.accounted {items : List ι} {acc : A} (h : P.Reaches (.init items acc) s) :
    Accounted s :=
  h.invariant (List.Perm.refl _) fun hs _ hstep => hstep.accounted hs

/-- The states a worker reaches on its own, under a token that is cancelled only if `cancelled` is. -/
def Works (P : PoolSpec ι A W E) (cancelled : Bool) (i : ι) : W → W → Prop :=
  ReflTransGen fun w w' => ∃ c e, (c = true → cancelled = true) ∧ P.step c i w e w'

theorem Works.mono {c c' : Bool} (hc : c = true → c' = true) {i : ι} {w w' : W}
    (h : Works P c i w w') : Works P c' i w w' :=
  ReflTransGen.mono (fun _ _ ⟨b, e, hb, hstep⟩ => ⟨b, e, hc ∘ hb, hstep⟩) _ _ h

structure Worked (P : PoolSpec ι A W E) (s : WorkerPool ι A W) : Prop where
  works : ∀ iw ∈ s.workers, Works P s.cancelled iw.1 (P.start iw.1) iw.2
  done : ∀ iw ∈ s.joined, P.done iw.2 = true

theorem Step.worked (h : P.Step s act t) (hs : Worked P s) : Worked P t := by
  obtain ⟨hworks, hdone⟩ := hs
  cases h with
  | cancel => exact ⟨fun iw hiw => (hworks iw hiw).mono fun _ => rfl, hdone⟩
  | cutOff | skip | stop => exact ⟨hworks, hdone⟩
  | hand =>
    refine ⟨fun iw hiw => ?_, hdone⟩
    simp only [WorkerPool.workers, List.append_assoc, List.mem_append, List.mem_singleton] at hiw
    rcases hiw with hiw | rfl | hiw
    · exact hworks iw (List.mem_append_left _ hiw)
    · exact .refl
    · exact hworks iw (List.mem_append_right _ hiw)
  | @work i w w' e before after hset hstep =>
    have hw := hworks (i, w) (by simp [WorkerPool.workers, hset])
    refine ⟨fun iw hiw => ?_, hdone⟩
    simp only [WorkerPool.workers, List.append_assoc, List.cons_append, List.mem_append, List.mem_cons] at hiw
    rcases hiw with hiw | rfl | hiw | hiw
    · exact hworks iw (by simp [WorkerPool.workers, hset, hiw])
    · exact hw.tail ⟨s.cancelled, e, id, hstep⟩
    · exact hworks iw (by simp [WorkerPool.workers, hset, hiw])
    · exact hworks iw (by simp [WorkerPool.workers, hiw])
  | @join i w before after _ hset hwdone =>
    refine ⟨fun iw hiw => hworks iw ?_, fun iw hiw => ?_⟩
    · simp only [WorkerPool.workers, hset, List.append_assoc, List.cons_append, List.mem_append,
        List.mem_cons] at hiw ⊢
      tauto
    · rcases List.mem_append.1 hiw with hiw | hiw
      · exact hdone iw hiw
      · rw [List.mem_singleton.1 hiw]
        exact hwdone

theorem Reaches.worked {items : List ι} {acc : A} (h : P.Reaches (.init items acc) s) : Worked P s :=
  h.invariant ⟨by simp [WorkerPool.workers, WorkerPool.init], by simp [WorkerPool.init]⟩
    fun hs _ hstep => hstep.worked hs

/-! ## §5 — Runs come to an end -/

section Ends

variable (rank : W → ℕ)

/-- What is still to be done: a step of the pool makes it smaller. -/
def remaining (P : PoolSpec ι A W E) (s : WorkerPool ι A W) : ℕ :=
  (if s.cancelled then 0 else 1) + (s.todo.map fun i => rank (P.start i) + 2).sum +
    (s.set.map fun iw => rank iw.2 + 1).sum

theorem Step.remaining_lt (hrank : ∀ {c i w e w'}, P.step c i w e w' → rank w' < rank w)
    (h : P.Step s act t) : remaining rank P t < remaining rank P s := by
  unfold remaining
  cases h with
  | cancel hs => simp [hs]
  | cutOff _ htodo =>
    obtain ⟨i, rest, htodo⟩ := List.exists_cons_of_ne_nil htodo
    simp only [htodo, List.map_nil, List.sum_nil, List.map_cons, List.sum_cons]
    omega
  | skip _ htodo | stop _ htodo =>
    simp only [htodo, List.map_nil, List.sum_nil, List.map_cons, List.sum_cons]
    omega
  | hand htodo =>
    simp only [htodo, List.map_append, List.sum_append, List.map_cons, List.sum_cons, List.map_nil,
      List.sum_nil]
    omega
  | work hset hstep =>
    have hlt := hrank hstep
    simp only [hset, List.map_append, List.sum_append, List.map_cons, List.sum_cons]
    omega
  | join _ hset =>
    simp only [hset, List.map_append, List.sum_append, List.map_cons, List.sum_cons]
    omega

/-- **A pool is never stuck**: a worker that is not done has a step, and where all are done there is a
permit or a worker to join. -/
theorem exists_step (hpermits : 0 < P.permits)
    (hlive : ∀ iw ∈ s.set, P.done iw.2 = false → ∃ e w', P.step s.cancelled iw.1 iw.2 e w')
    (hs : ¬ s.Finished) : ∃ act t, P.Step s act t ∧ act ≠ .cancel := by
  by_cases hwork : ∃ iw ∈ s.set, P.done iw.2 = false
  · obtain ⟨⟨i, w⟩, hmem, hdone⟩ := hwork
    obtain ⟨e, w', hstep⟩ := hlive _ hmem hdone
    obtain ⟨before, after, hset⟩ := List.append_of_mem hmem
    exact ⟨_, _, .work hset hstep, by simp⟩
  · -- every worker is done: all permits are free
    push Not at hwork
    have hall : ∀ iw ∈ s.set, P.done iw.2 = true := fun iw hiw => by simpa using hwork iw hiw
    have hfree : P.holding s < P.permits := by
      have hzero : P.holding s = 0 := List.countP_eq_zero.2 fun iw hiw => by simp [hall iw hiw]
      omega
    cases htodo : s.todo with
    | nil =>
      have hset : s.set ≠ [] := fun hset => hs ⟨htodo, hset⟩
      obtain ⟨⟨i, w⟩, rest, hset⟩ := List.exists_cons_of_ne_nil hset
      have hdone : P.done w = true := hall (i, w) (by simp [hset])
      exact ⟨_, _, @Step.join _ _ _ _ P s i w [] rest htodo hset hdone, by simp⟩
    | cons i =>
      cases hcancel : s.cancelled with
      | true => exact ⟨_, _, .cutOff hcancel (by simp [htodo]), by simp⟩
      | false =>
        cases hjudge : P.judge s.acc i with
        | skip => exact ⟨_, _, .skip hcancel htodo hjudge, by simp⟩
        | stop => exact ⟨_, _, .stop hcancel htodo hjudge, by simp⟩
        | hand => exact ⟨_, _, .hand htodo hjudge hfree, by simp⟩

/-- **Every run can be brought to its end**, without a cancellation, and no run goes on for ever: each
step leaves less to be done. -/
theorem exists_finished (hrank : ∀ {c i w e w'}, P.step c i w e w' → rank w' < rank w)
    (hpermits : 0 < P.permits)
    (hlive : ∀ c i w, Works P true i (P.start i) w → P.done w = false → ∃ e w', P.step c i w e w')
    (s : WorkerPool ι A W) (hs : Worked P s) :
    ∃ t, P.ReachesBy (fun _ act => act ≠ .cancel) s t ∧ t.Finished := by
  induction hn : remaining rank P s using Nat.strong_induction_on generalizing s with
  | _ n ih =>
    by_cases hfinished : s.Finished
    · exact ⟨s, .refl, hfinished⟩
    · have hlive' : ∀ iw ∈ s.set, P.done iw.2 = false →
          ∃ e w', P.step s.cancelled iw.1 iw.2 e w' := fun iw hiw =>
        hlive _ iw.1 iw.2 ((hs.works iw (List.mem_append_left _ hiw)).mono fun _ => rfl)
      obtain ⟨act, t, hstep, hact⟩ := exists_step hpermits hlive' hfinished
      obtain ⟨u, hu, hfinished⟩ := ih _ (hn ▸ hstep.remaining_lt rank hrank) t (hstep.worked hs) rfl
      exact ⟨u, .head ⟨act, hact, hstep⟩ hu, hfinished⟩

end Ends

end PoolSpec

end Robinhood.Lib
