import Sexpr.Command.Arguments
import Sexpr.Form.Source
import Sexpr.Render

/-!
# The command

One run of the command, from its words to what it prints. How a file is read is
left open: the command needs only an answer, or the reason why there is none.
-/

namespace Sexpr

/-- Why a file cannot be read as text. -/
inductive ReadFault where
  | notFound
  | notDirectory
  | isDirectory
  | nameTooLong
  | notText
  | other (reason : String)
deriving DecidableEq, Inhabited, Repr

def ReadFault.message : ReadFault → String
  | .notFound => "No such file or directory (os error 2)"
  | .notDirectory => "Not a directory (os error 20)"
  | .isDirectory => "Is a directory (os error 21)"
  | .nameTooLong => "File name too long (os error 36)"
  | .notText => "stream did not contain valid UTF-8"
  | .other reason => reason

/-- Why a run fails. -/
inductive Failure where
  | configUnreadable (file : String) (cause : ReadFault)
  | configInvalid (file : String)
  | fileUnreadable (file : String) (cause : ReadFault)
  | fileUnparsable (file : String) (cause : Fault)
  | fileUnrenderable (file : String) (cause : Fault)
deriving DecidableEq, Inhabited, Repr

/-- The wording of a failure. What the JSON reader finds wrong with a configuration is left
out: there the wording ends with the name of the file. -/
def Failure.message : Failure → String
  | .configUnreadable file cause => s!"failed to read config '{file}': {cause.message}"
  | .configInvalid file => s!"invalid config '{file}'"
  | .fileUnreadable file cause => s!"failed to read '{file}': {cause.message}"
  | .fileUnparsable file cause => s!"failed to parse '{file}': {cause.text}"
  | .fileUnrenderable file cause => s!"failed to render '{file}': {cause.text}"

/-- The text of a file's contents for a configuration. -/
def renderFile (c : Config) (file contents : String) : Except Failure String := do
  let forms ← (parse (c.sourceOf contents)).mapError (.fileUnparsable file)
  (render c forms).mapError (.fileUnrenderable file)

/-- How a run ends. -/
inductive Outcome where
  | help
  | misuse
  | rendered (output : String)
  | failed (failure : Failure)
deriving DecidableEq, Inhabited, Repr

namespace Outcome

/-- The exit code. -/
def code : Outcome → Nat
  | .help | .rendered _ => 0
  | .failed _ => 1
  | .misuse => 2

/-- How the command is called. The help on each option, and what is wrong with a misuse, are
left out. -/
def usage : String :=
  "Usage: [-t|--target sexpr|html|js|json] [-c|--config FILE] [-v|--verbose] FILE\n"

/-- What is printed. -/
def output : Outcome → String
  | .help => usage
  | .rendered output => output ++ "\n"
  | .misuse | .failed _ => ""

/-- What is printed as an error. -/
def errors : Outcome → String
  | .help | .rendered _ => ""
  | .failed failure => s!"Error: {failure.message}\n"
  | .misuse => usage

end Outcome

namespace Command

variable {m : Type → Type} [Monad m]

/-- The configuration of a run. It is read before the file. -/
def configOf (read : String → m (Except ReadFault String)) (a : Arguments) :
    ExceptT Failure m Config := do
  let config ←
    match a.config with
    | none => pure {}
    | some file =>
        match ← read file with
        | .error cause => throw (.configUnreadable file cause)
        | .ok text =>
            match Config.ofJsonText? text with
            | none => throw (.configInvalid file)
            | some config => pure config
  return config.withTarget a.target

/-- Renders the file of a run. -/
def run (read : String → m (Except ReadFault String)) (a : Arguments) :
    ExceptT Failure m String := do
  let config ← configOf read a
  match ← read a.file with
  | .error cause => throw (.fileUnreadable a.file cause)
  | .ok contents => ExceptT.mk (pure (renderFile config a.file contents))

/-- One run, from the words of a command line. -/
def respond (read : String → m (Except ReadFault String)) (words : List String) :
    m Outcome := do
  match Arguments.ofWords words with
  | .error .help => return .help
  | .error .misuse => return .misuse
  | .ok arguments =>
      match ← (run read arguments).run with
      | .ok output => return .rendered output
      | .error failure => return .failed failure

end Command
end Sexpr
