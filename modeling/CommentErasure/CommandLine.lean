import CommentErasure.Erasure

/-!
# The command line

The command takes one argument, the path of a file, and removes the comments from that file.
`CommandLine.run` is a whole run of it on a file tree.  Any other number of arguments gets the
usage line and exit code 1, and nothing is touched.  A failure is printed in place of silence, and
the exit code is still 0.

Two things are left to libraries, which `CommandLine.Services` stands for.
-/

namespace CommentErasure

namespace CommandLine

/-- What goes before an argument that is not to be read as an option. -/
def separator : Bytes := Utf8.encode "--".toList

/-- The libraries behind the command: a reader of arguments, which finds the value of the only
parameter, and the colors of the terminal.  The laws are all that is relied on. -/
structure Services where
  value? : List Bytes → Option Bytes
  red : Text → Text
  value?_separated : ∀ program value, value? [program, separator, value] = some value
  red_eq : ∀ text, red text = "\x1b[31m".toList ++ text ++ "\x1b[0m".toList

def Services.standard : Services where
  value?
    | [_, mark, value] => if mark = separator then some value else none
    | _ => none
  red text := "\x1b[31m".toList ++ text ++ "\x1b[0m".toList
  value?_separated _ _ := if_pos rfl
  red_eq _ := rfl

/-- The path among the arguments, of which the first is the name of the program.  A single one
behind that is always a path, even if it is empty or looks like an option. -/
def path? (arguments : List Bytes) (services : Services := .standard) : Option Bytes :=
  match arguments with
  | [program, path] => services.value? [program, separator, path]
  | _ => none

def calledAs : List Bytes → Text
  | [] => "decomment".toList
  | program :: _ => Utf8.decodeLossy program

def usageLine (program : Text) : Text :=
  "Usage: ".toList ++ program ++ " <file_path>".toList

structure Output where
  stdout : Text := []
  stderr : Text := []
  exitCode : Nat := 0
  deriving DecidableEq, Repr

def inRed (colored : Bool) (text : Text) (services : Services := .standard) : Text :=
  if colored then services.red text else text

def usageOutput (arguments : List Bytes) : Output where
  stdout := usageLine (calledAs arguments) ++ ['\n']
  exitCode := 1

def resultOutput
    (colored : Bool) (result : Option Failure) (services : Services := .standard) : Output :=
  match result with
  | none => {}
  | some failure => { stdout := inRed colored failure.message services ++ ['\n'] }

structure Run where
  tree : FileTree
  output : Output
  deriving DecidableEq, Repr

/-- Run the command on a file tree.  Where the size of files is bounded, the bound is the one that
the command has been started under. -/
def run
    (tree : FileTree) (arguments : List Bytes) (colored : Bool) (limit : Option Nat := none)
    (services : Services := .standard) : Run :=
  match path? arguments services with
  | none => ⟨tree, usageOutput arguments⟩
  | some path =>
      let erasure := tree.eraseComments path limit
      ⟨erasure.tree, resultOutput colored erasure.failure services⟩

end CommandLine

end CommentErasure
