/-
# Lib.Wildcard — patterns with runs and single places

A pattern is a list of tokens: a run of any length, any one letter, or a given letter.  A text of the
least length that can match does so in one way only, letter against token (`fits_of_length`); the texts
of that length tell patterns apart.
-/
import Mathlib

namespace Robinhood.Lib

/-- A token of a pattern. -/
inductive Wild (α : Type) where
  | run
  | one
  | letter (a : α)
deriving DecidableEq, Repr

namespace Wild

variable {α : Type}

/-- **A text matches a pattern.** -/
def Matches : List (Wild α) → List α → Prop
  | [], text => text = []
  | run :: rest, text => ∃ i ≤ text.length, Matches rest (text.drop i)
  | one :: _, [] => False
  | one :: rest, _ :: text => Matches rest text
  | letter _ :: _, [] => False
  | letter a :: rest, x :: text => x = a ∧ Matches rest text

instance decidableMatches [DecidableEq α] :
    (pattern : List (Wild α)) → (text : List α) → Decidable (Matches pattern text)
  | [], text => inferInstanceAs (Decidable (text = []))
  | run :: rest, text =>
    have := fun i => decidableMatches rest (text.drop i)
    decidable_of_iff (∃ i < text.length + 1, Matches rest (text.drop i))
      (by simp only [Nat.lt_succ_iff, Matches])
  | one :: _, [] => inferInstanceAs (Decidable False)
  | one :: rest, _ :: text => decidableMatches rest text
  | letter _ :: _, [] => inferInstanceAs (Decidable False)
  | letter a :: rest, x :: text =>
    have := decidableMatches rest text
    inferInstanceAs (Decidable (x = a ∧ Matches rest text))

def Fits : Wild α → α → Prop
  | run, _ => False
  | one, _ => True
  | letter a, x => x = a

def places (pattern : List (Wild α)) : List (Wild α) :=
  pattern.filter fun
    | run => false
    | _ => true

/-- **A pattern with an escape letter**: it takes the next letter as it is, and at the end stands for its own
token. -/
def escaped [DecidableEq α] (escape : α) (token : α → Wild α) : List α → List (Wild α)
  | [] => []
  | [c] => [token c]
  | c :: d :: rest =>
    if c = escape then letter d :: escaped escape token rest else token c :: escaped escape token (d :: rest)

theorem escaped_escape [DecidableEq α] (escape d : α) (token : α → Wild α) (rest : List α) :
    escaped escape token (escape :: d :: rest) = letter d :: escaped escape token rest := by
  rw [escaped, if_pos rfl]

theorem escaped_cons [DecidableEq α] {escape c : α} (h : c ≠ escape) (token : α → Wild α) (rest : List α) :
    escaped escape token (c :: rest) = token c :: escaped escape token rest := by
  cases rest with
  | nil => rfl
  | cons => rw [escaped, if_neg h]

/-- A text of the least length that matches, with `fill` where any letter may stand. -/
def shortest (fill : α) (pattern : List (Wild α)) : List α :=
  pattern.filterMap fun
    | run => none
    | one => some fill
    | letter a => some a

section Shapes

variable {a : α} {fill : α} {rest : List (Wild α)}

@[simp] theorem places_run : places (run :: rest) = places rest := rfl
@[simp] theorem places_one : places (one :: rest) = one :: places rest := rfl
@[simp] theorem places_letter : places (letter a :: rest) = letter a :: places rest := rfl
@[simp] theorem shortest_nil : shortest fill ([] : List (Wild α)) = [] := rfl
@[simp] theorem shortest_run : shortest fill (run :: rest) = shortest fill rest := rfl
@[simp] theorem shortest_one : shortest fill (one :: rest) = fill :: shortest fill rest := rfl
@[simp] theorem shortest_letter : shortest fill (letter a :: rest) = a :: shortest fill rest := rfl

end Shapes

theorem length_shortest (fill : α) (pattern : List (Wild α)) :
    (shortest fill pattern).length = (places pattern).length := by
  induction pattern with
  | nil => rfl
  | cons token rest ih => cases token <;> simp [ih]

theorem matches_shortest (fill : α) (pattern : List (Wild α)) : Matches pattern (shortest fill pattern) := by
  induction pattern with
  | nil => rfl
  | cons token rest ih =>
    cases token with
    | run => exact ⟨0, Nat.zero_le _, ih⟩
    | one => exact ih
    | letter a => exact ⟨rfl, ih⟩

theorem Matches.length_le {pattern : List (Wild α)} :
    ∀ {text : List α}, Matches pattern text → (places pattern).length ≤ text.length := by
  induction pattern with
  | nil => exact fun _ => Nat.zero_le _
  | cons token rest ih =>
    intro text h
    cases token with
    | run =>
      obtain ⟨i, hi, h⟩ := h
      have hle := ih h
      rw [List.length_drop] at hle
      exact hle.trans (Nat.sub_le _ _)
    | one =>
      cases text with
      | nil => cases h
      | cons x text => exact Nat.succ_le_succ (ih h)
    | letter a =>
      cases text with
      | nil => cases h
      | cons x text => exact Nat.succ_le_succ (ih h.2)

/-- **A text of the least length** matches letter by letter: every run is empty. -/
theorem fits_of_length {pattern : List (Wild α)} :
    ∀ {text : List α}, Matches pattern text → text.length ≤ (places pattern).length →
      List.Forall₂ Fits (places pattern) text := by
  induction pattern with
  | nil =>
    intro text h _
    have h : text = [] := h
    rw [h]
    exact .nil
  | cons token rest ih =>
    intro text h hlength
    cases token with
    | run =>
      obtain ⟨i, hi, h⟩ := h
      have hle := h.length_le
      rw [List.length_drop] at hle
      have hlength : text.length ≤ (places rest).length := hlength
      -- a run that is not empty leaves too few letters
      obtain rfl | hpos := Nat.eq_zero_or_pos i
      · exact ih h hlength
      · omega
    | one =>
      cases text with
      | nil => cases h
      | cons x text => exact .cons trivial (ih h (Nat.le_of_succ_le_succ hlength))
    | letter a =>
      cases text with
      | nil => cases h
      | cons x text => exact .cons h.1 (ih h.2 (Nat.le_of_succ_le_succ hlength))

theorem matches_map {f : α → α} {pattern : List (Wild α)}
    (h : ∀ a, letter a ∈ pattern → ∀ x, f x = a ↔ x = a) :
    ∀ text : List α, Matches pattern (text.map f) ↔ Matches pattern text := by
  induction pattern with
  | nil =>
    intro text
    show text.map f = [] ↔ text = []
    simp
  | cons token rest ih =>
    have ih := ih fun a ha => h a (.tail _ ha)
    intro text
    cases token with
    | run => simp only [Matches, List.length_map, ← List.map_drop, ih]
    | one =>
      cases text with
      | nil => exact Iff.rfl
      | cons x text => exact ih text
    | letter a =>
      cases text with
      | nil => exact Iff.rfl
      | cons x text => exact and_congr (h a (.head _) x) (ih text)

theorem letter_eq_of_fits {f : α → α} {fill : α} {pattern : List (Wild α)}
    (h : List.Forall₂ Fits (places pattern) ((shortest fill pattern).map f)) :
    ∀ a, letter a ∈ pattern → f a = a := by
  induction pattern with
  | nil => exact fun a ha => nomatch ha
  | cons token rest ih =>
    intro a ha
    cases token with
    | run => exact ih h a (by simpa using ha)
    | one => exact ih (List.forall₂_cons.1 h).2 a (by simpa using ha)
    | letter b =>
      obtain ⟨hhead, htail⟩ := List.forall₂_cons.1 h
      rcases List.mem_cons.1 ha with hab | ha
      · cases hab
        exact hhead
      · exact ih htail a ha

theorem mem_shortest {fill x : α} {pattern : List (Wild α)} (h : x ∈ shortest fill pattern) :
    x = fill ∨ letter x ∈ pattern := by
  obtain ⟨token, htoken, hx⟩ := List.mem_filterMap.1 h
  cases token with
  | run => cases hx
  | one =>
    cases hx
    exact .inl rfl
  | letter a =>
    cases hx
    exact .inr htoken

def weight (w : α → ℕ) : Wild α → ℕ
  | run => 0
  | one => 1
  | letter a => w a

theorem Matches.weight_le {w : α → ℕ} (hw : ∀ a, 1 ≤ w a) {pattern : List (Wild α)} :
    ∀ {text : List α}, Matches pattern text → (pattern.map (weight w)).sum ≤ (text.map w).sum := by
  induction pattern with
  | nil => exact fun _ => Nat.zero_le _
  | cons token rest ih =>
    intro text h
    cases token with
    | run =>
      obtain ⟨i, -, h⟩ := h
      have hdrop : ((text.drop i).map w).sum ≤ (text.map w).sum :=
        ((List.drop_sublist i text).map w).sum_le_sum fun _ _ => Nat.zero_le _
      simpa [weight] using (ih h).trans hdrop
    | one =>
      cases text with
      | nil => cases h
      | cons x text => simpa [weight] using Nat.add_le_add (hw x) (ih h)
    | letter a =>
      cases text with
      | nil => cases h
      | cons x text => simpa [weight, h.1] using ih h.2

theorem weight_shortest {w : α → ℕ} {fill : α} (hfill : w fill = 1) (pattern : List (Wild α)) :
    ((shortest fill pattern).map w).sum = (pattern.map (weight w)).sum := by
  induction pattern with
  | nil => rfl
  | cons token rest ih => cases token <;> simp [weight, hfill, ih]

end Wild

end Robinhood.Lib
