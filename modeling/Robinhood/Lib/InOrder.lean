/-
# Lib.InOrder — work that is taken up in order and waits in a queue

Some of the numbers are due.  They are taken up in order, wait in a queue, and are done one after the other
or given up as done while they wait.  `InOrder` says that nothing due was left out before a number of the
queue: when the head is done, so is everything up to it.  Whoever reports the head as the mark up to which
all is done therefore reports the truth, also if numbers come up a second time.
-/
import Mathlib

namespace Robinhood.Lib

variable {ι : Type*} [LinearOrder ι] {due done done' : ι → Prop} {queue queue' front : List ι} {i p : ι}

/-- **Nothing is left out before a number of the queue**: what is due up to it is done, stands before it, or
is the number itself. -/
def InOrder (due : ι → Prop) : (ι → Prop) → List ι → Prop
  | _, [] => True
  | done, i :: queue =>
    (∀ j, due j → j ≤ i → done j ∨ j = i) ∧ InOrder due (fun j => done j ∨ j = i) queue

/-- **Everything below a mark was taken up**: it is done or waits. -/
def Passed (due done : ι → Prop) (queue : List ι) (p : ι) : Prop :=
  ∀ j, due j → j < p → done j ∨ j ∈ queue

theorem InOrder.mono (h : InOrder due done queue) (hdone : ∀ j, done j → done' j) :
    InOrder due done' queue := by
  induction queue generalizing done done' with
  | nil => trivial
  | cons i queue ih =>
    exact ⟨fun j hj hle => (h.1 j hj hle).imp_left (hdone j), ih h.2 fun j => Or.imp_left (hdone j)⟩

theorem Passed.mono (h : Passed due done queue p) (hdone : ∀ j, done j → done' j) :
    Passed due done' queue p :=
  fun j hj hlt => (h j hj hlt).imp_left (hdone j)

theorem Passed.le (h : Passed due done queue p) (hle : i ≤ p) : Passed due done queue i :=
  fun j hj hlt => h j hj (hlt.trans_le hle)

/-- **When the head is done, so is everything up to it.** -/
theorem InOrder.head (h : InOrder due done (i :: queue)) (hi : done i) : ∀ j, due j → j ≤ i → done j := by
  intro j hj hle
  obtain hdone | rfl := h.1 j hj hle
  · exact hdone
  · exact hi

theorem InOrder.tail (h : InOrder due done (i :: queue)) (hi : done i) : InOrder due done queue := by
  refine h.2.mono fun j hj => ?_
  obtain hdone | rfl := hj
  · exact hdone
  · exact hi

theorem Passed.tail (h : Passed due done (i :: queue) p) (hi : done i) : Passed due done queue p := by
  intro j hj hlt
  obtain hdone | hmem := h j hj hlt
  · exact .inl hdone
  · obtain rfl | hmem := List.mem_cons.1 hmem
    · exact .inl hi
    · exact .inr hmem

theorem InOrder.left (h : InOrder due done (queue ++ queue')) : InOrder due done queue := by
  induction queue generalizing done with
  | nil => trivial
  | cons i queue ih => exact ⟨h.1, ih h.2⟩

/-- **The next number** joins the queue when everything before it was taken up. -/
theorem InOrder.append (h : InOrder due done queue) (hpassed : Passed due done queue i) :
    InOrder due done (queue ++ [i]) := by
  induction queue generalizing done with
  | nil =>
    refine ⟨fun j hj hle => ?_, trivial⟩
    obtain hlt | rfl := lt_or_eq_of_le hle
    · exact .inl ((hpassed j hj hlt).resolve_right List.not_mem_nil)
    · exact .inr rfl
  | cons a queue ih =>
    refine ⟨h.1, ih h.2 fun j hj hlt => ?_⟩
    obtain hdone | hmem := hpassed j hj hlt
    · exact .inl (.inl hdone)
    · exact (List.mem_cons.1 hmem).imp .inr id

/-- **Numbers that wait at the rear may be given up**, if they count as done from then on. -/
theorem InOrder.sublist (h : InOrder due done (front ++ queue)) (hsub : queue'.Sublist queue)
    (hnodup : queue.Nodup) (hdone : ∀ i ∈ queue, i ∉ queue' → done i) :
    InOrder due done (front ++ queue') := by
  induction front generalizing done with
  | cons a front ih => exact ⟨h.1, ih h.2 fun i hi hgone => .inl (hdone i hi hgone)⟩
  | nil =>
    induction hsub generalizing done with
    | slnil => trivial
    | @cons queue' queue i hsub ih =>
      have hnotin := (List.nodup_cons.1 hnodup).1
      have hi : done i := hdone i List.mem_cons_self fun hmem => hnotin (hsub.subset hmem)
      exact ih (List.nodup_cons.1 hnodup).2 (h.tail hi)
        fun j hj hgone => hdone j (List.mem_cons_of_mem _ hj) hgone
    | @cons_cons queue' queue i hsub ih =>
      refine ⟨h.1, ih (List.nodup_cons.1 hnodup).2 h.2 fun j hj hgone => .inl ?_⟩
      refine hdone j (List.mem_cons_of_mem _ hj) fun hmem => ?_
      obtain rfl | hmem := List.mem_cons.1 hmem
      · exact (List.nodup_cons.1 hnodup).1 hj
      · exact hgone hmem

theorem Passed.of_lost (h : Passed due done queue p)
    (hdone : ∀ i ∈ queue, i ∉ queue' → done i) : Passed due done queue' p := by
  intro j hj hlt
  obtain hj' | hmem := h j hj hlt
  · exact .inl hj'
  · by_cases hin : j ∈ queue'
    · exact .inr hin
    · exact .inl (hdone j hmem hin)

end Robinhood.Lib
