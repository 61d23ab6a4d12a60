/-!
# Hosts

What a program needs from where its files are: six operations, in any monad, and any of them may
fail. The command line is written against a `Host`, so it runs on the files of a machine and on a
`Disk` alike.

- `isDirectory`, `isFile` — whether a path leads to a directory, or to a regular file. Where that
  cannot be told, it does not.
- `entryNames` — the names of what is inside of a directory, in any order, or an error in place of a
  name.
- `directoryName` — what the directory at a path is called; the root has no name.
- `readText` — the content of a file, which must be UTF-8.
- `writeText` — makes a text the content of a file, which is created if need be.

Paths and names are texts here, so nothing is said about names that are no UTF-8.
-/

namespace StackToHack

/-! ## Errors of files -/

inductive FileError
  | missing
  | notDirectory
  | isDirectory
  | nameTooLong
  | notText
  | other (message : String)
  deriving DecidableEq

def FileError.message : FileError → String
  | .missing => "No such file or directory (os error 2)"
  | .notDirectory => "Not a directory (os error 20)"
  | .isDirectory => "Is a directory (os error 21)"
  | .nameTooLong => "File name too long (os error 36)"
  | .notText => "stream did not contain valid UTF-8"
  | .other message => message

/-! ## Operations -/

structure Host (m : Type → Type) where
  isDirectory : String → m Bool
  isFile : String → m Bool
  entryNames : String → m (Except FileError (List (Except FileError String)))
  directoryName : String → m (Except FileError (Option String))
  readText : String → m (Except FileError String)
  writeText : String → String → m (Except FileError Unit)

end StackToHack
