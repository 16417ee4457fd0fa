/-
# Store.Json — the JSON documents of `sm_status`

`serde_json::Value` with its default map, a `BTreeMap`: the members of an object are kept in key order
and a key occurs once.
-/
import Mathlib

namespace Robinhood.Store

/-- **A JSON value.**  An object lists its members in key order; a number that is not an integer is
carried by its bits. -/
inductive Json where
  | null
  | bool (b : Bool)
  | int (n : Int)
  | float (bits : UInt64)
  | str (s : String)
  | arr (items : List Json)
  | obj (members : List (String × Json))

namespace Json

mutual

/-- Equality of JSON values is decidable; the recursion follows the nesting of the type. -/
def decEq : (a b : Json) → Decidable (a = b)
  | null, null => isTrue rfl
  | bool a, bool b => decidable_of_iff (a = b) (by simp)
  | int a, int b => decidable_of_iff (a = b) (by simp)
  | float a, float b => decidable_of_iff (a = b) (by simp)
  | str a, str b => decidable_of_iff (a = b) (by simp)
  | arr a, arr b => @decidable_of_iff _ (a = b) (by simp) (decEqItems a b)
  | obj a, obj b => @decidable_of_iff _ (a = b) (by simp) (decEqMembers a b)
  | null, bool _ | null, int _ | null, float _ | null, str _ | null, arr _ | null, obj _
  | bool _, null | bool _, int _ | bool _, float _ | bool _, str _ | bool _, arr _ | bool _, obj _
  | int _, null | int _, bool _ | int _, float _ | int _, str _ | int _, arr _ | int _, obj _
  | float _, null | float _, bool _ | float _, int _ | float _, str _ | float _, arr _
  | float _, obj _
  | str _, null | str _, bool _ | str _, int _ | str _, float _ | str _, arr _ | str _, obj _
  | arr _, null | arr _, bool _ | arr _, int _ | arr _, float _ | arr _, str _ | arr _, obj _
  | obj _, null | obj _, bool _ | obj _, int _ | obj _, float _ | obj _, str _ | obj _, arr _ =>
    isFalse (by simp)

def decEqItems : (a b : List Json) → Decidable (a = b)
  | [], [] => isTrue rfl
  | [], _ :: _ | _ :: _, [] => isFalse (by simp)
  | x :: xs, y :: ys =>
    @decidable_of_iff _ (x = y ∧ xs = ys) (by simp)
      (@instDecidableAnd _ _ (decEq x y) (decEqItems xs ys))

def decEqMembers : (a b : List (String × Json)) → Decidable (a = b)
  | [], [] => isTrue rfl
  | [], _ :: _ | _ :: _, [] => isFalse (by simp)
  | (k, x) :: xs, (l, y) :: ys =>
    @decidable_of_iff _ (k = l ∧ x = y ∧ xs = ys) (by simp [and_assoc])
      (@instDecidableAnd _ _ _ (@instDecidableAnd _ _ (decEq x y) (decEqMembers xs ys)))

end

instance : DecidableEq Json := decEq

/-- `Value::as_object`. -/
def asObject : Json → Option (List (String × Json))
  | obj members => some members
  | _ => none

/-- `Map::insert`: the member `name` becomes `value`, at its place in key order. -/
def insertMember (name : String) (value : Json) : List (String × Json) → List (String × Json)
  | [] => [(name, value)]
  | (k, v) :: rest =>
    if k = name then (name, value) :: rest
    else if name < k then (name, value) :: (k, v) :: rest
    else (k, v) :: insertMember name value rest

/-- `Map::get`. -/
def lookup (name : String) (members : List (String × Json)) : Option Json :=
  (members.find? fun m => m.1 = name).map Prod.snd

/-- `Map::remove`. -/
def removeMember (name : String) (members : List (String × Json)) : List (String × Json) :=
  members.filter fun m => m.1 ≠ name

/-- `Value::get` with a name: only an object has members. -/
def get (name : String) : Json → Option Json
  | obj members => lookup name members
  | _ => none

/-- `Value::as_str`. -/
def asStr : Json → Option String
  | str s => some s
  | _ => none

/-- `Number::as_i64`. -/
def asI64 : Json → Option Int64
  | int n => if -2 ^ 63 ≤ n ∧ n < 2 ^ 63 then some (Int64.ofInt n) else none
  | _ => none

section members

variable {name other : String} {value : Json} {members : List (String × Json)}

@[simp] theorem lookup_nil : lookup name [] = none := rfl

theorem lookup_cons {m : String × Json} :
    lookup name (m :: members) = if m.1 = name then some m.2 else lookup name members := by
  by_cases h : m.1 = name <;> simp [lookup, h]

@[simp] theorem lookup_insertMember_self : lookup name (insertMember name value members) = some value := by
  induction members with
  | nil => simp [insertMember, lookup_cons]
  | cons m members ih =>
    simp only [insertMember]
    split_ifs with hk hlt
    · simp [lookup_cons]
    · simp [lookup_cons]
    · simp [lookup_cons, hk, ih]

theorem lookup_insertMember_of_ne (h : other ≠ name) :
    lookup other (insertMember name value members) = lookup other members := by
  induction members with
  | nil => simp [insertMember, lookup_cons, h.symm]
  | cons m members ih =>
    simp only [insertMember]
    split_ifs with hk hlt
    · simp [lookup_cons, hk, h.symm]
    · simp [lookup_cons, h.symm]
    · simp [lookup_cons, ih]

@[simp] theorem lookup_removeMember_self : lookup name (removeMember name members) = none := by
  simp [lookup, removeMember]

theorem lookup_removeMember_of_ne (h : other ≠ name) :
    lookup other (removeMember name members) = lookup other members := by
  induction members with
  | nil => rfl
  | cons m members ih =>
    by_cases hm : m.1 = name
    · have hne : m.1 ≠ other := fun e => h (e.symm.trans hm)
      simpa [removeMember, hm, lookup_cons, hm ▸ hne] using ih
    · have : removeMember name (m :: members) = m :: removeMember name members := by
        simp [removeMember, hm]
      rw [this, lookup_cons, lookup_cons, ih]

theorem lookup_append (name : String) (members others : List (String × Json)) :
    lookup name (members ++ others) = (lookup name members).or (lookup name others) := by
  induction members with
  | nil => simp
  | cons m members ih =>
    rw [List.cons_append, lookup_cons, lookup_cons, ih]
    split_ifs <;> rfl

theorem lookup_foldl_insertMember (name : String) (delta members : List (String × Json)) :
    lookup name (delta.foldl (fun ms m => insertMember m.1 m.2 ms) members) =
      (lookup name delta.reverse).or (lookup name members) := by
  induction delta generalizing members with
  | nil => simp
  | cons m delta ih =>
    rw [List.foldl_cons, ih, List.reverse_cons, lookup_append, lookup_cons, lookup_nil]
    by_cases h : m.1 = name
    · subst h
      simp
    · rw [lookup_insertMember_of_ne (Ne.symm h), if_neg h, Option.or_none]

end members

end Json

end Robinhood.Store
