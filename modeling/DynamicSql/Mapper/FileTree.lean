import DynamicSql.Parameter.Entries

/-!
A tree of files, seen from the directory that relative paths start from. Outside of that directory
there is nothing but the directories above it.
-/

namespace DynamicSql

inductive File where
  | plain (bytes : ByteArray)
  | directory (entries : List (String × File))
  | link (target : String)
  deriving Inhabited

inductive ReadError where
  | notFound
  | isDirectory
  | notDirectory
  | tooManyLinks
  | notUtf8
  deriving DecidableEq, Repr

/-- The wording of the operating system, where it is the one that complains. -/
def ReadError.message : ReadError → String
  | .notFound => "No such file or directory (os error 2)"
  | .isDirectory => "Is a directory (os error 21)"
  | .notDirectory => "Not a directory (os error 20)"
  | .tooManyLinks => "Too many levels of symbolic links (os error 40)"
  | .notUtf8 => "stream did not contain valid UTF-8"

/-- What a path leads to, with the links on the way followed. -/
abbrev FileSystem := String → Except ReadError File

/-- The parts between the slashes, empty ones included. -/
def splitSlashes : List Char → List (List Char)
  | [] => [[]]
  | '/' :: cs => [] :: splitSlashes cs
  | c :: cs =>
    match splitSlashes cs with
    | w :: ws => (c :: w) :: ws
    | [] => [[c]]

def pathParts (path : String) : List String :=
  (splitSlashes path.toList).map String.ofList

/-- The entries of the directory that relative paths start from. -/
abbrev FileTree := Entries File

namespace FileTree

def add : List String → File → FileTree → FileTree
  | [], _, t => t
  | [name], f, t =>
    match f, t.get? name with
    | .directory [], some (.directory _) => t
    | f, _ => t.insert name f
  | name :: names, f, t =>
    match t.get? name with
    | some (.directory inner) => t.insert name (.directory (add names f inner))
    | _ => t.insert name (.directory (add names f []))

/-- The file under a list of names, none of which is followed as a link. -/
def find? (t : FileTree) : List String → Option File
  | [] => some (.directory t)
  | [name] => t.get? name
  | name :: names =>
    match t.get? name with
    | some (.directory inner) => find? inner names
    | _ => none

/-- What comes of a path that has left the tree, by the parts that are still to come. -/
def outside (parts : List String) : ReadError :=
  if parts.all fun p => p = "" ∨ p = "." ∨ p = ".." then .isDirectory else .notFound

/-- Follows the parts of a path from a place inside the tree. Every link on the way uses up one
of the allowed ones. -/
def follow (t : FileTree) (links : Nat) (place : List String) (parts : List String) :
    Except ReadError (List String) :=
  match parts with
  | [] => .ok place
  | part :: parts =>
    match t.find? place with
    | some (.directory _) =>
      if part = "" ∨ part = "." then follow t links place parts
      else if part = ".." then
        if place = [] then .error (outside parts) else follow t links place.dropLast parts
      else
        match t.find? (place ++ [part]) with
        | none => .error .notFound
        | some (.link target) =>
          match links, pathParts target with
          | 0, _ => .error .tooManyLinks
          | _ + 1, "" :: above => .error (outside (above ++ parts))
          | links + 1, targetParts => follow t links place (targetParts ++ parts)
        | some _ => follow t links (place ++ [part]) parts
    | _ => .error .notDirectory
termination_by (links, parts.length)

def maxLinks : Nat := 40

/-- The file at a path, links followed. An absolute path leads outside. -/
def lookup (t : FileTree) : FileSystem := fun path => do
  match pathParts path with
  | "" :: above => .error (outside above)
  | parts =>
    let place ← t.follow maxLinks [] parts
    match t.find? place with
    | some f => .ok f
    | none => .error .notFound

def decodeText (bytes : ByteArray) : Except ReadError String :=
  match String.fromUTF8? bytes with
  | some s => .ok s
  | none => .error .notUtf8

def readText (t : FileTree) (path : String) : Except ReadError String := do
  match ← t.lookup path with
  | .plain bytes => decodeText bytes
  | .directory _ => .error .isDirectory
  | .link _ => .error .tooManyLinks

end FileTree

namespace File

mutual

/-- The plain files at any depth, each by the names that lead to it. Links are not followed. -/
def plainFiles : File → List (List String)
  | .plain _ => [[]]
  | .link _ => []
  | .directory entries => plainFilesIn entries

def plainFilesIn : List (String × File) → List (List String)
  | [] => []
  | (name, f) :: entries => f.plainFiles.map (name :: ·) ++ plainFilesIn entries

end

end File

end DynamicSql
