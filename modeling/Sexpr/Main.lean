import Sexpr.Command.Run

/-!
# The program

Reads the files of a run from disk, prints what the run answers and sets the exit
code.
-/

namespace Sexpr

/-- The system's error number; it may come with its sign turned. -/
def errorNumber (code : UInt32) : UInt32 := min code (0 - code)

/-- Why the system does not let a file be read. -/
def readFaultOf (fault : IO.Error) : ReadFault :=
  match fault with
  | .noFileOrDirectory .. => .notFound
  | .inappropriateType _ code _ =>
      if errorNumber code = 20 then .notDirectory else .isDirectory
  | .invalidArgument _ code _ =>
      if errorNumber code = 36 then .nameTooLong else .other (toString fault)
  | fault => .other (toString fault)

/-- Reads a file of the disk as text. -/
def readFile (file : String) : IO (Except ReadFault String) := do
  try
    let content ← IO.FS.readBinFile file
    match String.fromUTF8? content with
    | some text => return .ok text
    | none => return .error .notText
  catch fault => return .error (readFaultOf fault)

end Sexpr

open Sexpr in
def main (args : List String) : IO UInt32 := do
  let outcome ← Command.respond readFile args
  IO.print outcome.output
  IO.eprint outcome.errors
  return outcome.code.toUInt32
