/-
# Lib.FuzzyReplay — replaying a log over an inconsistent snapshot

A cell goes through the values `log 0, log 1, …`.  A copy of it starts at instant `j` with a value the
cell has at some later instant `t`, and the log is replayed onto the copy from `j` on.  Replayed entries
may be conditional, so an entry can leave the copy alone where it changed the cell; it is enough that an
entry does the right thing on a copy that agrees, and otherwise either sets the right value or leaves
the copy alone.  Then the copy has caught up at `t` and follows the cell from there on.
-/
import Mathlib

namespace Robinhood.Lib

variable {V : Type*} {log copy : ℕ → V} {j t n : ℕ}

theorem copy_eq_or_eq_snapshot (start : copy j = log t)
    (agree : ∀ i, j ≤ i → i < n → copy i = log i → copy (i + 1) = log (i + 1))
    (sets : ∀ i, j ≤ i → i < n → copy (i + 1) = log (i + 1) ∨ copy (i + 1) = copy i) :
    ∀ i, j ≤ i → i ≤ n → copy i = log i ∨ copy i = log t := by
  intro i hji
  induction i, hji using Nat.le_induction with
  | base => exact fun _ => .inr start
  | succ i hji ih =>
    intro hin
    rcases sets i hji hin with h | h
    · exact .inl h
    · rcases ih (by omega) with hi | hi
      · exact .inl (agree i hji hin hi)
      · exact .inr (h.trans hi)

/-- **A fuzzy snapshot is repaired by the replay**: the copy ends with the value of the cell. -/
theorem fuzzy_replay (log copy : ℕ → V) (hjt : j ≤ t) (htn : t ≤ n) (start : copy j = log t)
    (agree : ∀ i, j ≤ i → i < n → copy i = log i → copy (i + 1) = log (i + 1))
    (sets : ∀ i, j ≤ i → i < n → copy (i + 1) = log (i + 1) ∨ copy (i + 1) = copy i) :
    copy n = log n := by
  have hcaught : copy t = log t := by
    rcases copy_eq_or_eq_snapshot start agree sets t hjt htn with h | h <;> exact h
  -- From the snapshot instant on the copy agrees, and agreement is preserved.
  have hfollow : ∀ i, t ≤ i → i ≤ n → copy i = log i := by
    intro i hti
    induction i, hti using Nat.le_induction with
    | base => exact fun _ => hcaught
    | succ i hti ih => exact fun hin => agree i (hjt.trans hti) hin (ih (by omega))
  exact hfollow n htn le_rfl

end Robinhood.Lib
