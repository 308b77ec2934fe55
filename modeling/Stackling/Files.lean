/-
  File:     Stackling/Files.lean
  Subject:  Reading a file by its path.

  A folder is a value here, so that what a path leads to can be computed. A path is a row of
  names with slashes between them; an empty name and a dot stay where they are, two dots lead
  to the folder around. Nothing is known outside the outermost folder. Names and paths have a
  greatest length in bytes.

  * `readAt`   -- the bytes that a path leads to;
  * `fileName` -- the last name of a path.
-/
namespace Stackling

/-- Why a file could not be read. -/
inductive ReadFault
  | notFound
  | notAFolder
  | isAFolder
  | nameTooLong
  | notText
  | other (message : String)
  deriving DecidableEq

/-- The wording of a fault. -/
def ReadFault.message : ReadFault → String
  | notFound => "No such file or directory (os error 2)"
  | notAFolder => "Not a directory (os error 20)"
  | isAFolder => "Is a directory (os error 21)"
  | nameTooLong => "File name too long (os error 36)"
  | notText => "stream did not contain valid UTF-8"
  | other message => message

/-- A file or a folder. -/
inductive FileTree
  | file (bytes : ByteArray)
  | folder (entries : List (String × FileTree))
  deriving Inhabited

namespace FileTree

/-- A folder that holds one file, under a path of names. -/
def single : List String → ByteArray → FileTree
  | [], bytes => file bytes
  | name :: rest, bytes => folder [(name, single rest bytes)]

/-- The bytes that a name may have. -/
def maxNameBytes : Nat := 255

/-- The bytes that a path may have. -/
def maxPathBytes : Nat := 4095

/-- Follows names from a place; `around` holds the folders around it, the nearest first. -/
def follow (around : List FileTree) (here : FileTree) : List String → Except ReadFault FileTree
  | [] => .ok here
  | name :: rest =>
    match here with
    | file _ => .error .notAFolder
    | folder entries =>
      if name = "" ∨ name = "." then follow around here rest
      else if name = ".." then
        match around with
        | outer :: outermost => follow outermost outer rest
        | [] => follow [] (folder []) rest
      else if maxNameBytes < name.utf8ByteSize then .error .nameTooLong
      else
        match entries.lookup name with
        | some inner => follow (here :: around) inner rest
        | none => .error .notFound

/-- The bytes of the file that a path leads to, from a folder. -/
def readAt (here : FileTree) (path : String) : Except ReadFault ByteArray := do
  if maxPathBytes < path.utf8ByteSize then throw .nameTooLong
  let names := path.splitOn "/"
  let start := if path.startsWith "/" then folder [] else here
  match ← follow [] start names with
  | file bytes => return bytes
  | folder _ => throw .isAFolder

end FileTree

/-- The last name of a path; the path itself if it ends in no name. -/
def fileName (path : String) : String :=
  match (path.splitOn "/").reverse.find? fun name => name != "" && name != "." with
  | some name => if name = ".." then path else name
  | none => path

end Stackling
