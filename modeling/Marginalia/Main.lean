import Marginalia.Command

/-!
# The program

The command line, run in the world: arguments come from the process, a file from the file system,
answers from standard input. All decisions are in `Command.perform`. An interactive session
performs the command with the answers it has; while the outcome awaits another one, it writes what
is new, reads a line, and performs the command again.
-/

namespace Marginalia

/-- A code of the file system is the number. Some of its calls report a code negated. -/
def isCode (number code : UInt32) : Bool :=
  code = number || code + number = 0

/-- Why the file system did not give a file. -/
def readFaultOf (path : String) : IO.Error → ReadFault
  | .noFileOrDirectory .. => .missing path
  | .inappropriateType _ code _ => if isCode 20 code then .notFolder path else .isFolder path
  | .invalidArgument _ code _ => if isCode 36 code then .nameTooLong path else .refused path
  | _ => .refused path

/-- Reads a file of the file system. -/
def readFile (path : Path) : IO (Except ReadFault String) := do
  if path.shown.toList.contains '\x00' then return .error .nullCharacter
  try
    return fileText (← IO.FS.readBinFile path.shown).toList
  catch error => return .error (readFaultOf path.shown error)

/-- The only file that a command line names, if it names one. -/
def readNamedFile (arguments : List String) : IO Request.Files := do
  match Command.parse arguments with
  | .ok command =>
    match Command.subject command.choices with
    | .ok (.file path) =>
      let text ← readFile path
      return fun _ => text
    | _ => return fun path => .error (.missing path.shown)
  | .error _ => return fun path => .error (.missing path.shown)

/-- Performs a command line with the answers so far, of whose outcome `shown` characters have been
written, and reads further answers as they are awaited. -/
partial def converse (arguments : List String) (files : Request.Files) (answers : List String)
    (shown : Nat) : IO UInt32 := do
  let exit := Command.perform arguments files answers
  let out ← IO.getStdout
  out.putStr (String.ofList (exit.out.toList.drop shown))
  out.flush
  let line ← if exit.awaits then (← IO.getStdin).getLine else pure ""
  if line.isEmpty then
    (← IO.getStderr).putStr exit.err
    return exit.code
  else
    let further := (takenLines (foldLineEnds line.toList)).map String.ofList
    converse arguments files (answers ++ further) exit.out.length

end Marginalia

/-- Runs the command line of the process. -/
def main (arguments : List String) : IO UInt32 := do
  Marginalia.converse arguments (← Marginalia.readNamedFile arguments) [] 0
