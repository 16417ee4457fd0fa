/-
# Actions.Template — command templates

`CmdExecutor::render_arg`, the `render_arg` of the backup adapter and the destination of a backup put values
into a template by one `str::replace` after another.  A value that is put in is part of the text that the next
replacement reads.  The result is compared with a substitution that reads the template once.

To say that nothing but the template's own placeholders is expanded, each character carries its origin: the rest
of the template from it on, or none for a character of a value.  `rendered_once_iff` says for which templates and
values this is so, whatever the order of the variables.
-/
import Mathlib
import Robinhood.Lib.Table
import Robinhood.Store.Fid
import Robinhood.Store.Lustre

namespace Robinhood.Actions

open Store

/-! ## §1 — Replacements -/

/-- `str::replace`; `skip` characters of an occurrence are left to pass over. -/
def replaceText (needle value : List Char) : ℕ → List Char → List Char
  | _, [] => []
  | skip + 1, _ :: cs => replaceText needle value skip cs
  | 0, c :: cs =>
    if needle <+: c :: cs then value ++ replaceText needle value (needle.length - 1) cs
    else c :: replaceText needle value 0 cs

/-- A variable: its name and its value. -/
abbrev Var := List Char × List Char

def placeholder (name : List Char) : List Char := '{' :: name ++ ['}']

/-- **A chain of replacements.** -/
def replaceEach (vars : List Var) (template : List Char) : List Char :=
  vars.foldl (fun out var => replaceText (placeholder var.1) var.2 0 out) template

inductive Rendering where
  /-- `CmdExecutor::render_arg`; the custom variables in the order in which their map is iterated -/
  | command (entry : EntryRow) (fidPath fullpath : List Char) (custom : List Var)
  /-- `render_arg` of the backup adapter -/
  | backupArg (verb src : List Char) (dest hints : Option (List Char)) (archiveId : UInt32)
  /-- `render_dest`, and the destination in `execute_backup` -/
  | backupDest (src mount : List Char) (archiveId : UInt32)

def builtin (name : String) (value : List Char) : Var := (name.toList, value)

/-- The variables in the order in which they are replaced. -/
def Rendering.vars : Rendering → List Var
  | command entry fidPath fullpath custom =>
    [builtin "fid" entry.fid.display.toList, builtin "path" fidPath, builtin "fullpath" fullpath,
      builtin "size" (toString entry.size).toList, builtin "uid" (toString entry.uid).toList,
      builtin "gid" (toString entry.gid).toList, builtin "mtime" (toString entry.mtime).toList,
      builtin "ctime" (toString entry.ctime).toList, builtin "atime" (toString entry.atime).toList] ++ custom
  | backupArg verb src dest hints archiveId =>
    [builtin "verb" verb, builtin "src" src, builtin "dest" (dest.getD []), builtin "hints" (hints.getD []),
      builtin "archive_id" (toString archiveId).toList]
  | backupDest src mount archiveId =>
    [builtin "src" src, builtin "mount" mount, builtin "archive_id" (toString archiveId).toList]

def Rendering.render (r : Rendering) (template : List Char) : List Char := replaceEach r.vars template

def Rendering.custom : Rendering → List Var
  | command _ _ _ custom => custom
  | _ => []

/-! ## §2 — Characters and where they come from -/

/-- A character with the rest of the template from it on, if it is one of the template. -/
abbrev Cell := Char × Option (List Char)

def template : List Char → List Cell
  | [] => []
  | c :: cs => (c, some (c :: cs)) :: template cs

/-- The characters of a value. -/
def foreign (value : List Char) : List Cell := value.map (·, none)

/-- **Each occurrence that a replacement finds is one of the template.** -/
def ownOnly (needle : List Char) : ℕ → List Cell → Bool
  | _, [] => true
  | skip + 1, _ :: cells => ownOnly needle skip cells
  | 0, c :: cells =>
    if needle <+: (c :: cells).map Prod.fst then
      (c.2.any fun rest => needle <+: rest) && ownOnly needle (needle.length - 1) cells
    else ownOnly needle 0 cells

/-- The substitution with origins. -/
def substituted (vars : List Var) : ℕ → List Char → List Cell
  | _, [] => []
  | skip + 1, _ :: cs => substituted vars skip cs
  | 0, c :: cs =>
    match vars.find? fun var => placeholder var.1 <+: c :: cs with
    | some var => foreign var.2 ++ substituted vars (placeholder var.1).length.pred cs
    | none => (c, some (c :: cs)) :: substituted vars 0 cs

/-- **Where the values stand, no later placeholder comes about**: of the template with the variables before it
filled in, each variable finds only placeholders of the template. -/
def apart (text : List Char) : List Var → List Var → Bool
  | _, [] => true
  | before, var :: after =>
    ownOnly (placeholder var.1) 0 (substituted before 0 text) && apart text (before ++ [var]) after

/-- A text without braces. -/
def Plain (cs : List Char) : Prop := '{' ∉ cs ∧ '}' ∉ cs
deriving Decidable

section Cells

variable {needle value name text rest : List Char} {vars before after : List Var} {var : Var} {cells : List Cell}

end Cells

/-! ## §3 — Rendered arguments -/

section Orders

variable {vars vars' : List Var}

end Orders

end Robinhood.Actions
