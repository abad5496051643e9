import CommentErasure.CommandLine

namespace CommentErasure

namespace Program

def systemError? : IO.Error → Option (Nat × String)
  | .alreadyExists _ number wording
  | .invalidArgument _ number wording
  | .permissionDenied _ number wording
  | .resourceExhausted _ number wording
  | .inappropriateType _ number wording
  | .noSuchThing _ number wording
  | .noFileOrDirectory _ number wording
  | .interrupted _ number wording
  | .otherError number wording
  | .resourceBusy number wording
  | .resourceVanished number wording
  | .unsupportedOperation number wording
  | .hardwareFault number wording
  | .unsatisfiedConstraints number wording
  | .illegalOperation number wording
  | .protocolError number wording
  | .timeExpired number wording => some (number.toNat, wording)
  | .unexpectedEof => none
  | .userError _ => none

def causeOf (error : IO.Error) : Cause :=
  match systemError? error with
  | some (2, _) => .notFound
  | some (13, _) => .permissionDenied
  | some (17, _) => .alreadyExists
  | some (20, _) => .notADirectory
  | some (21, _) => .isADirectory
  | some (27, _) => .fileTooLarge
  | some (36, _) => .nameTooLong
  | some (40, _) => .linkLoop
  | some (number, wording) => .other s!"{wording} (os error {number})".toList
  | none => .other error.toString.toList

def readFile (name : String) : BaseIO (Except Cause Bytes) := do
  let content := IO.FS.withFile name .read fun handle => handle.readBinToEnd
  match ← EIO.toBaseIO content with
  | .error error => return .error (causeOf error)
  | .ok bytes => return .ok bytes.toList

/-- Write a file of the machine anew.  Only a flush shows whether all of it could be written. -/
def writeFile (name : String) (content : Bytes) : BaseIO (Except Cause Unit) := do
  let written := IO.FS.withFile name .write fun handle => do
    handle.write ⟨content.toArray⟩
    handle.flush
  match ← EIO.toBaseIO written with
  | .error error => return .error (causeOf error)
  | .ok () => return .ok ()

/-- Remove the comments from a file of the machine, which takes names as texts.  What a path that is
not UTF-8 reads as may be the name of another file, so such a path is not tried. -/
def eraseComments (path : Bytes) : BaseIO (Option Failure) :=
  match Utf8.decode? path with
  | none => return some ⟨.read, path, .other "path is not valid UTF-8".toList⟩
  | some spelled =>
      let name := String.ofList spelled
      eraseVia path (readFile name) (writeFile name)

/-- The arguments of the process as the machine has recorded them, the name of the program first.
Where there is no such record, the program goes by its default name. -/
def arguments (given : List String) : BaseIO (List Bytes) := do
  match ← readFile "/proc/self/cmdline" with
  | .ok record => return terminated record
  | .error _ =>
      let program := Utf8.encode (CommandLine.calledAs [])
      return program :: given.map fun argument => Utf8.encode argument.toList
where
  /-- The pieces of a byte string of which each ends in a NUL byte. -/
  terminated (record : Bytes) : List Bytes :=
    (record.splitBy fun before _ => before ≠ Path.nul).map
      fun piece => piece.filter (· ≠ Path.nul)

/-- Whether colors are wanted: on a terminal that has them, unless switched off, and wherever
they are forced. -/
def colored : BaseIO Bool := do
  let forced := (← IO.getEnv "CLICOLOR_FORCE").any (· ≠ "0")
  let capable := (← IO.getEnv "TERM").any (· ≠ "dumb")
  let refused := (← IO.getEnv "NO_COLOR").isSome || (← IO.getEnv "CLICOLOR") == some "0"
  let onTerminal ← (← IO.getStdout).isTty
  return forced || (onTerminal && capable && !refused)

def emit (output : CommandLine.Output) : IO UInt32 := do
  IO.print (String.ofList output.stdout)
  IO.eprint (String.ofList output.stderr)
  return output.exitCode.toUInt32

def run (given : List String) : IO UInt32 := do
  let arguments ← arguments given
  match CommandLine.path? arguments .standard with
  | none => emit (CommandLine.usageOutput arguments)
  | some path =>
      let failure ← eraseComments path
      emit (CommandLine.resultOutput (← colored) failure .standard)

end Program

end CommentErasure

/-- Remove the comments from the file named on the command line. -/
def main (given : List String) : IO UInt32 :=
  CommentErasure.Program.run given
