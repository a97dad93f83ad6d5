import Vimlet.Fault
import Vimlet.Text.Split

/-!
# Files

A tree of text files with a working directory, and paths into it.
-/

namespace Vimlet

/-- A path: its root, and its parts without empty ones and single dots. -/
structure Path where
  root : String
  parts : List String
deriving DecidableEq, Repr

namespace Path

/-- The root of a path. Two slashes are a root of their own, and more are the same as one. -/
def rootOf : List Char → String
  | '/' :: '/' :: '/' :: _ => "/"
  | '/' :: '/' :: _ => "//"
  | '/' :: _ => "/"
  | _ => ""

/-- The path that a text stands for. -/
def ofText (text : String) : Path where
  root := rootOf text.toList
  parts := ((Text.split ['/'] text.toList).map String.ofList).filter fun part =>
    part != "" && part != "."

/-- The path starts at the root. -/
def isAbsolute (path : Path) : Bool := !path.root.isEmpty

/-- The path as a text. -/
def text (path : Path) : String :=
  let text := path.root ++ "/".intercalate path.parts
  if text.isEmpty then "." else text

/-- No path is longer. -/
def maxBytes : Nat := 4095

/-- Bytes that a name between slashes may have. -/
def maxNameBytes : Nat := 255

end Path

/-- Reads lines that end in any of the three common ways. -/
def normalizeBreaks : List Char → List Char
  | [] => []
  | '\r' :: '\n' :: rest => '\n' :: normalizeBreaks rest
  | '\r' :: rest => '\n' :: normalizeBreaks rest
  | c :: rest => c :: normalizeBreaks rest

/-- A text file that was read. -/
structure File where
  path : String
  text : String

/-- The file with these contents. Bytes that are no UTF-8 are no text. -/
def File.ofBytes (path : String) (bytes : ByteArray) : Except Stop File :=
  match String.fromUTF8? bytes with
  | some text => .ok ⟨path, String.ofList (normalizeBreaks text.toList)⟩
  | none => .error .internal

/-- Why a path leads to no file. -/
inductive Obstacle where
  | missing
  | directory
  | notDirectory
  | nameTooLong
deriving DecidableEq, Repr

/-- What the system calls an obstacle. -/
def Obstacle.text : Obstacle → String
  | missing => "No such file or directory"
  | directory => "Is a directory"
  | notDirectory => "Not a directory"
  | nameTooLong => "File name too long"

/-- A tree of text files. A place in it is the list of the names from the root, the last one first.
-/
structure FileTree where
  directory : List String
  /-- Directories that exist even if there is no file in them. -/
  others : List (List String) := []
  files : Table (List String) String := {}

namespace FileTree

/-- The place of an absolute path, or of one below a directory. -/
def place (directory : List String) (text : String) : List String :=
  let path := Path.ofText text
  path.parts.reverse ++ if path.isAbsolute then [] else directory

/-- The tree of files in a working directory, beside some other directories. -/
def ofList (directory : String) (others : List String) (files : List (String × String)) :
    FileTree where
  directory := place [] directory
  others := others.map (place [])
  files := .ofList (files.map fun (path, text) => (place (place [] directory) path, text))

/-- There is a directory at a place. -/
def isDirectory (tree : FileTree) (place : List String) : Bool :=
  (tree.directory :: tree.others ++ tree.files.keys.map List.tail).any (place.isSuffixOf ·)

/-- Where a path leads from a directory: to a file and its text, or the reason why it leads to none.
-/
def walk (tree : FileTree) (place : List String) :
    List String → Except Obstacle (List String × String)
  | [] => .error .directory
  | ".." :: rest => walk tree place.tail rest
  | name :: rest =>
    if Path.maxNameBytes < name.utf8ByteSize then .error .nameTooLong
    else match tree.files.get? (name :: place) with
      | some text =>
        if rest.isEmpty then .ok (name :: place, text) else .error .notDirectory
      | none =>
        if tree.isDirectory (name :: place) then walk tree (name :: place) rest
        else .error .missing

/-- The directory and the name that a path leads to. -/
def follow (tree : FileTree) (path : Path) : Except Obstacle (List String × String) :=
  if Path.maxBytes < path.text.utf8ByteSize then .error .nameTooLong
  else tree.walk (if path.isAbsolute then [] else tree.directory) path.parts

/-- The file at a path. A path with a null character is none. -/
def open? (tree : FileTree) (text : String) : Except Stop File :=
  if text.toList.contains '\x00' then .error .internal
  else
    let path := Path.ofText text
    match tree.follow path with
    | .ok (place, text) =>
      .ok ⟨"/" ++ "/".intercalate place.reverse, String.ofList (normalizeBreaks text.toList)⟩
    | .error obstacle => .error (.fault (.unreadable path.text obstacle.text))

end FileTree

end Vimlet
