/-
# Posix.Path — `std::path` on Unix

`Path::eq`, `components`, `strip_prefix`, `starts_with` and `parent` all look at a path through its
components, so a path is kept as the list of them.  `push` is where the bytes of a name matter: a name
with a `/` adds several components, and one that starts with `/` replaces the path.
-/
import Mathlib

namespace Robinhood.Posix

/-- The bytes of a file name (`bytes::Bytes`, `OsStr`). -/
abbrev Name := List UInt8

/-- `std::path::Component` on Unix. -/
inductive Component where
  | rootDir
  | curDir
  | parentDir
  | normal (name : Name)
deriving DecidableEq, Repr

abbrev Path := List Component

namespace Path

/-- The byte `/`. -/
def slash : UInt8 := 47

def componentOf (piece : Name) : Component :=
  if piece = [46, 46] then .parentDir else if piece = [46] then .curDir else .normal piece

/-- `Path::new(bytes).components()`: empty pieces and every `.` but a leading one are skipped. -/
def ofBytes (bytes : Name) : Path :=
  let pieces := ((bytes.splitOn slash).filter (· ≠ [])).map componentOf
  if bytes.head? = some slash then .rootDir :: pieces.filter (· ≠ .curDir)
  else match pieces with
    | [] => []
    | first :: rest => first :: rest.filter (· ≠ .curDir)

/-- `PathBuf::push` (and `Path::join`): an absolute argument replaces the path. -/
def push (path : Path) (name : Name) : Path :=
  match ofBytes name with
  | .rootDir :: rest => .rootDir :: rest
  | .curDir :: rest => if path = [] then .curDir :: rest else path ++ rest
  | pieces => path ++ pieces

/-- `Path::join` with a path. -/
def join (path relative : Path) : Path :=
  match relative with
  | .rootDir :: rest => .rootDir :: rest
  | .curDir :: rest => if path = [] then .curDir :: rest else path ++ rest
  | pieces => path ++ pieces

def pushAll (path : Path) (names : List Name) : Path := names.foldl push path

/-- `Path::strip_prefix`. -/
def stripPrefix : Path → Path → Option Path
  | path, [] => some path
  | [], _ :: _ => none
  | c :: path, b :: base => if c = b then stripPrefix path base else none

/-- `Path::starts_with`. -/
def startsWith (path base : Path) : Bool := (stripPrefix path base).isSome

/-- `Path::parent`. -/
def parent (path : Path) : Option Path :=
  match path.getLast? with
  | none | some .rootDir => none
  | some _ => some path.dropLast

/-- `Path::file_name`. -/
def fileName (path : Path) : Option Name :=
  match path.getLast? with
  | some (.normal name) => some name
  | _ => none

/-! ## Plain names -/

/-- **A plain name**, the only kind a directory can hold: not empty, no `/`, neither `.` nor `..`. -/
def Plain (name : Name) : Prop := name ≠ [] ∧ slash ∉ name ∧ name ≠ [46] ∧ name ≠ [46, 46]

instance (name : Name) : Decidable (Plain name) := by unfold Plain; infer_instance

theorem ofBytes_plain {name : Name} (h : Plain name) : ofBytes name = [.normal name] := by
  obtain ⟨hne, hslash, hdot, hdots⟩ := h
  have hsplit : name.splitOn slash = [name] :=
    List.splitOnP_eq_singleton fun b hb => beq_false_of_ne fun hbs => hslash (hbs ▸ hb)
  have hhead : name.head? ≠ some slash := fun hh => hslash (List.mem_of_mem_head? hh)
  simp [ofBytes, hsplit, hhead, hne, componentOf, hdot, hdots]

theorem push_plain {name : Name} (h : Plain name) (path : Path) :
    path.push name = path ++ [.normal name] := by
  simp only [push, ofBytes_plain h]

theorem pushAll_plain {names : List Name} (h : ∀ n ∈ names, Plain n) (path : Path) :
    path.pushAll names = path ++ names.map .normal := by
  induction names generalizing path with
  | nil => simp [pushAll]
  | cons n names ih =>
    have hn := h n (by simp)
    have ih := ih (fun m hm => h m (by simp [hm])) (path.push n)
    simp only [pushAll, List.foldl_cons] at ih ⊢
    rw [ih, push_plain hn]
    simp

theorem stripPrefix_append (base rest : Path) : stripPrefix (base ++ rest) base = some rest := by
  induction base with
  | nil => cases rest <;> rfl
  | cons b base ih => simp [stripPrefix, ih]

end Path

end Robinhood.Posix
