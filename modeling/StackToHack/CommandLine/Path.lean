import StackToHack.Text.Cut

/-!
# Paths

A path is a text that slashes cut into steps. An empty step and `.` mean to stay where one is,
`..` means to go up, and any other step is a name.

A file name in turn is split at its last dot into a stem and an extension. A name that has no dot,
or none but the one it starts with, is all stem: a hidden file has no extension by that alone.
-/

namespace StackToHack.Path

/-! ## The last character of a kind -/

/-- A text up to and including the last occurrence of a character. -/
def throughLast (c : Char) (cs : List Char) : List Char := (cs.reverse.dropWhile (· != c)).reverse

/-- A text behind the last occurrence of a character; all of it if there is none. -/
def behindLast (c : Char) (cs : List Char) : List Char := (cs.reverse.takeWhile (· != c)).reverse

theorem throughLast_append_behindLast (c : Char) (cs : List Char) :
    throughLast c cs ++ behindLast c cs = cs := by
  rw [throughLast, behindLast, ← List.reverse_append, List.takeWhile_append_dropWhile,
    List.reverse_reverse]

/-! ## Steps -/

def steps (path : String) : List String :=
  (Text.cut (· == '/') path.toList).map String.ofList

/-- A step that the systems of files can hold: at most 255 bytes. -/
def stepFits (step : String) : Bool := step.utf8ByteSize ≤ 255

/-- A path that can be handed to a system of files: fewer than 4096 bytes. -/
def fits (path : String) : Bool := path.utf8ByteSize < 4096

def isAbsolute (path : String) : Bool := path.toList.head? == some '/'

def endsWithSlash (path : String) : Bool := path.toList.getLast? == some '/'

/-- The path of a name inside of a directory. -/
def join (directory name : String) : String :=
  if endsWithSlash directory then directory ++ name else directory ++ "/" ++ name

/-! ## File names -/

def fileName (path : String) : String := String.ofList (behindLast '/' path.toList)

def stemOfName (name : List Char) : List Char :=
  match throughLast '.' name with
  | [] | [_] => name
  | through => through.dropLast

def extensionOfName? (name : List Char) : Option (List Char) :=
  match throughLast '.' name with
  | [] | [_] => none
  | _ => some (behindLast '.' name)

def stem (name : String) : String := String.ofList (stemOfName name.toList)

/-- The last step of a path that does not stay, if that is a name. Steps that stay are left out
behind it, and `..` is no name. -/
def lastName? (path : String) : Option String :=
  match (steps path).reverse.dropWhile fun step => step = "" ∨ step = "." with
  | [] => none
  | name :: _ => if name = ".." then none else some name

/-- The name of the unit that is read from a path, if the path ends in a name. -/
def unitName? (path : String) : Option String := (lastName? path).map stem

def extension? (path : String) : Option String :=
  (extensionOfName? (behindLast '/' path.toList)).map String.ofList

/-- A file name with its extension replaced, or supplied. Behind a stem of one dot the dot alone
makes `..`, which is no file name, so no extension follows. -/
def nameWithExtension (name extension : List Char) : List Char :=
  if stemOfName name = ['.'] then ['.', '.'] else stemOfName name ++ '.' :: extension

/-- The path with the extension of its file name replaced, or supplied. -/
def withExtension (path extension : String) : String :=
  String.ofList (throughLast '/' path.toList ++
    nameWithExtension (behindLast '/' path.toList) extension.toList)

end StackToHack.Path
