/-
# Lib.Sql.Semantics — what a search condition means

Conditions have three truth values.  A comparison with a missing value is unknown, the connectives are
Kleene's, and a row is selected where the condition is true, so that a row on which it is unknown is
selected neither by the condition nor by its negation.

What the server does with two values under a test, or with the arguments of a function, is a parameter
(`Server`); a name that cannot be resolved fails the statement.
-/
import Mathlib
import Robinhood.Lib.Sql.Grammar

namespace Robinhood.Lib.Sql

/-! ## §1 — three truth values -/

inductive Truth
  | true
  | false
  | unknown
  deriving DecidableEq, Repr

namespace Truth

def ofBool : Bool → Truth
  | Bool.true => .true
  | Bool.false => .false

def not : Truth → Truth
  | true => .false
  | false => .true
  | unknown => .unknown

def and : Truth → Truth → Truth
  | true, b => b
  | false, _ => .false
  | unknown, false => .false
  | unknown, _ => .unknown

def or : Truth → Truth → Truth
  | true, _ => .true
  | false, b => b
  | unknown, true => .true
  | unknown, _ => .unknown

variable {a b : Truth}

@[simp] theorem not_eq_true : a.not = .true ↔ a = .false := by cases a <;> simp [not]

@[simp] theorem and_eq_true : a.and b = .true ↔ a = .true ∧ b = .true := by
  cases a <;> cases b <;> simp [and]

@[simp] theorem ofBool_eq_true {b : Bool} : ofBool b = .true ↔ b = Bool.true := by
  cases b <;> simp [ofBool]

theorem ofBool_not (b : Bool) : ofBool (!b) = (ofBool b).not := by cases b <;> rfl

theorem ofBool_and (a b : Bool) : ofBool (a && b) = (ofBool a).and (ofBool b) := by
  cases a <;> cases b <;> rfl

theorem ofBool_or (a b : Bool) : ofBool (a || b) = (ofBool a).or (ofBool b) := by
  cases a <;> cases b <;> rfl

theorem foldl_and_ofBool (b : Bool) (bs : List Bool) :
    (bs.map ofBool).foldl and (ofBool b) = ofBool (b && bs.all id) := by
  induction bs generalizing b with
  | nil => simp
  | cons c bs ih => simp [← ofBool_and, ih, Bool.and_assoc]

theorem foldl_or_ofBool (b : Bool) (bs : List Bool) :
    (bs.map ofBool).foldl or (ofBool b) = ofBool (b || bs.any id) := by
  induction bs generalizing b with
  | nil => simp
  | cons c bs ih => simp [← ofBool_or, ih, Bool.or_assoc]

end Truth

/-! ## §2 — evaluation -/

variable {ν : Type}

structure Server (ν : Type) where
  number : ℕ → ν
  text : String → ν
  test : Test → ν → ν → Truth
  call : String → ν → Option ν
  call₂ : String → ν → ν → Option ν

abbrev Row (ν : Type) := String → Option ν

/-- The rows in scope under their names, the innermost first. -/
abbrev Scope (ν : Type) := List (String × Row ν)

def Scope.column (scope : Scope ν) : Option String → String → Option ν
  | some table, name => ((scope.find? fun s => s.1 = table).map Prod.snd).bind fun row => row name
  | none, name => scope.findSome? fun s => s.2 name

def Scalar.eval (srv : Server ν) (scope : Scope ν) : Scalar ν → Option ν
  | column table name => scope.column table name
  | number n => some (srv.number n)
  | text s => some (srv.text s)
  | value x => some x
  | call f a => (a.eval srv scope).bind (srv.call f)
  | call₂ f a b => do
    let x ← a.eval srv scope
    let y ← b.eval srv scope
    srv.call₂ f x y

/-- **The truth value of a condition** on the rows in scope; `none` where the statement fails. -/
def Cond.eval (srv : Server ν) (tables : String → List (Row ν)) : Scope ν → Cond ν → Option Truth
  | scope, test t l r => do
    let x ← l.eval srv scope
    let y ← r.eval srv scope
    return srv.test t x y
  | scope, among e es => do
    let x ← e.eval srv scope
    let ys ← es.mapM (Scalar.eval srv scope)
    return ys.foldr (fun y t => (srv.test (.compare .eq) x y).or t) .false
  | scope, exists_ t a c => do
    let ts ← (tables t).mapM fun row => eval srv tables ((a, row) :: scope) c
    return .ofBool (ts.any (· = .true))
  | scope, not c => do
    let x ← eval srv tables scope c
    return x.not
  | scope, and l r => do
    let x ← eval srv tables scope l
    let y ← eval srv tables scope r
    return x.and y
  | scope, or l r => do
    let x ← eval srv tables scope l
    let y ← eval srv tables scope r
    return x.or y

variable {srv : Server ν} {tables : String → List (Row ν)} {scope : Scope ν} {c d : Cond ν}

theorem Cond.eval_test {t : Test} {l r : Scalar ν} {x y : ν} (hl : l.eval srv scope = some x)
    (hr : r.eval srv scope = some y) : (Cond.test t l r).eval srv tables scope = some (srv.test t x y) := by
  simp [eval, hl, hr]

theorem Cond.eval_not {x : Truth} (h : c.eval srv tables scope = some x) :
    (Cond.not c).eval srv tables scope = some x.not := by
  simp [eval, h]

theorem Cond.eval_and_eq_true :
    (Cond.and c d).eval srv tables scope = some .true ↔
      c.eval srv tables scope = some .true ∧ d.eval srv tables scope = some .true := by
  simp only [eval, Option.bind_eq_bind, Option.bind_eq_some_iff, Option.pure_def, Option.some.injEq]
  constructor
  · rintro ⟨x, hx, y, hy, hxy⟩
    obtain ⟨rfl, rfl⟩ := Truth.and_eq_true.1 hxy
    exact ⟨hx, hy⟩
  · rintro ⟨hx, hy⟩
    exact ⟨_, hx, _, hy, rfl⟩

theorem Cond.eval_conj_eq_true {cs : List (Cond ν)} :
    (c.conj cs).eval srv tables scope = some .true ↔
      ∀ d ∈ c :: cs, d.eval srv tables scope = some .true := by
  induction cs generalizing c with
  | nil => simp [conj]
  | cons d cs ih =>
    have hstep : c.conj (d :: cs) = (c.and d).conj cs := rfl
    rw [hstep, ih]
    simp [eval_and_eq_true, and_assoc]

theorem Cond.eval_conj {x : Truth} {cs : List (Cond ν)} {xs : List Truth}
    (hc : c.eval srv tables scope = some x)
    (hcs : List.Forall₂ (fun d y => d.eval srv tables scope = some y) cs xs) :
    (c.conj cs).eval srv tables scope = some (xs.foldl .and x) := by
  induction hcs generalizing c x with
  | nil => exact hc
  | cons hd _ ih => exact ih (by simp [eval, hc, hd])

theorem Cond.eval_disj {x : Truth} {cs : List (Cond ν)} {xs : List Truth}
    (hc : c.eval srv tables scope = some x)
    (hcs : List.Forall₂ (fun d y => d.eval srv tables scope = some y) cs xs) :
    (c.disj cs).eval srv tables scope = some (xs.foldl .or x) := by
  induction hcs generalizing c x with
  | nil => exact hc
  | cons hd _ ih => exact ih (by simp [eval, hc, hd])

end Robinhood.Lib.Sql
