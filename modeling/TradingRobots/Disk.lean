/-
Files by their paths. A path is a row of names with strokes between them; empty names and single points stay in a
folder, and two points go back to the folder around it. All that something follows in a path must be a folder, so
nothing, not even a stroke, follows the name of a file.

A folder is there when it was made or when a file lies in it. The folder that paths start from, the home folder, those
around them and the root are always there.
-/

namespace TradingRobots

namespace Path

/-- the parts of a text between strokes -/
def pieces (path : String) : List String :=
  (path.toList.splitOn '/').map String.ofList

/-- a piece that leads nowhere else -/
def isSilent (piece : String) : Bool :=
  piece = "" || piece = "."

/-- the home folder; no name holds a stroke -/
def home : String := "~/"

/-- the folder around a folder; names come with the latest first. Those around the folder that paths start from and around
the home folder have no names of their own -/
def back : List String → List String
  | [] => [".."]
  | last :: rest =>
    if last = ".." || last = home then ".." :: last :: rest else if last = "/" then [last] else rest

/-- one piece after the names before it, the latest first -/
def enter (names : List String) (piece : String) : List String :=
  if isSilent piece then names else if piece = ".." then back names else piece :: names

/-- where a path starts: at the root if a stroke is its first character -/
def start (path : String) : List String :=
  if path.toList.head? = some '/' then ["/"] else []

/-- the names that a path leads through -/
def names (path : String) : List String :=
  ((pieces path).foldl enter (start path)).reverse

/-- the path of a name in a folder -/
def join (folder name : String) : String :=
  if folder.isEmpty || folder.toList.getLast? = some '/' then folder ++ name else folder ++ "/" ++ name

/-- the pieces up to the last name -/
def named (path : String) : List String :=
  ((pieces path).reverse.dropWhile isSilent).reverse

/-- the last name of a path -/
def fileName (path : String) : String :=
  (named path).getLastD ""

/-- the path cut off after its last name, with an ending put there; a path that ends by going back has none -/
def withEnding? (path ending : String) : Option String :=
  let name := fileName path
  if name = "" ∨ name = ".." then none else some ("/".intercalate (named path) ++ ending)

/-- what stands before and after the last point of a name; a point at the start parts nothing -/
def splitExtension (name : String) : List Char × Option (List Char) :=
  let cs := name.toList.reverse
  let after := cs.takeWhile (· ≠ '.')
  match cs.dropWhile (· ≠ '.') with
  | '.' :: before => if before.isEmpty then (name.toList, none) else (before.reverse, some after.reverse)
  | _ => (name.toList, none)

/-- the last name of a path without its extension -/
def stem (path : String) : String :=
  String.ofList (splitExtension (fileName path)).1

/-- the extension of a name, in lower case -/
def extension? (name : String) : Option String :=
  (splitExtension name).2.map fun cs => String.ofList (cs.map Char.toLower)

end Path

/-- the text of every file, under the names its path leads through, and folders that were made -/
structure Disk where
  files : List (List String × String)
  folders : List (List String)

/-- what a path leads to -/
inductive Place where
  | file (text : String)
  | folder (names : List String)
deriving DecidableEq, Repr

namespace Disk

def ofFiles (files : List (String × String)) : Disk :=
  ⟨files.map fun f => (Path.names f.1, f.2), []⟩

/-- the name of what lies in a folder and leads to other names, or is the last of them -/
def nameIn? (folder names : List String) : Option String :=
  if names.take folder.length = folder then names[folder.length]? else none

def isFolder (d : Disk) (names : List String) : Bool :=
  names.all (fun name => name = ".." || name = "/" || name = Path.home) || d.folders.contains names ||
    d.files.any fun f => (nameIn? names f.1).isSome

/-- goes on by pieces of a path, from names with the latest first -/
def walk? (d : Disk) : List String → List String → Option Place
  | names, [] => some (.folder names.reverse)
  | names, piece :: rest =>
    let next := Path.enter names piece
    match d.files.lookup next.reverse with
    | some text => if rest.isEmpty then some (.file text) else none
    | none => if d.isFolder next.reverse then d.walk? next rest else none

def find? (d : Disk) (path : String) : Option Place :=
  if path.isEmpty then none else d.walk? (Path.start path) (Path.pieces path)

/-- like `find?`, where the name `~` at the start stands for the home folder -/
def findExpanded? (d : Disk) (path : String) : Option Place :=
  match Path.pieces path with
  | "~" :: rest => d.walk? [Path.home] rest
  | _ => d.find? path

/-- the text of a file -/
def read? (d : Disk) (path : String) : Option String :=
  match d.find? path with
  | some (.file text) => some text
  | _ => none

/-- the names of the files and folders right in a folder, if it is there -/
def entries? (d : Disk) (path : String) : Option (List String) :=
  match d.find? path with
  | some (.folder names) => some ((d.files.map Prod.fst ++ d.folders).filterMap (nameIn? names)).eraseDups
  | _ => none

/-- the most bytes of a name -/
def longestName : Nat := 255

/-- writes a file over an old one; its folder must be there, and it must not be a folder itself -/
def write? (d : Disk) (path text : String) : Option Disk :=
  let pieces := Path.pieces path
  let name := pieces.getLastD ""
  match d.walk? (Path.start path) pieces.dropLast with
  | some (.folder names) =>
    let target := names ++ [name]
    if Path.isSilent name || name = ".." || longestName < name.utf8ByteSize || d.isFolder target then none
    else some { d with files := (target, text) :: d.files.filter fun f => f.1 ≠ target }
  | _ => none

end Disk

end TradingRobots
