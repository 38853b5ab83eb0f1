import Sexpr.Config

/-!
# Command-line arguments

A file, and options in any order around it. An option has a long name, or a
letter that can share a word with other letters; its value stands in the same
word or in the next one. Words are read from left to right, and reading stops at
the first misuse and at the first call for help.
-/

namespace Sexpr

structure Arguments where
  file : String
  target : Option Target
  config : Option String
  verbose : Bool
deriving DecidableEq, Inhabited, Repr

namespace Arguments

/-- Why no file is to be rendered. -/
inductive Stop where
  | help
  | misuse
deriving DecidableEq, Inhabited, Repr

/-- The arguments read so far. -/
structure Draft where
  file : Option String := none
  target : Option Target := none
  config : Option String := none
  verbose : Bool := false
deriving DecidableEq, Inhabited, Repr

/-- An option that takes a value. -/
inductive Setting where
  | target
  | config
deriving DecidableEq, Inhabited, Repr

namespace Draft

/-- Takes the file. There is one, and its name is not empty. -/
def setFile (d : Draft) (name : String) : Except Stop Draft :=
  if d.file.isSome || name.isEmpty then .error .misuse
  else .ok { d with file := some name }

def setVerbose (d : Draft) : Except Stop Draft :=
  if d.verbose then .error .misuse else .ok { d with verbose := true }

/-- Takes the value of an option. No option may be given twice. -/
def set (d : Draft) (value : String) : Setting → Except Stop Draft
  | .target =>
      match d.target, Target.ofName? value with
      | none, some target => .ok { d with target := some target }
      | _, _ => .error .misuse
  | .config =>
      if d.config.isSome || value.isEmpty then .error .misuse
      else .ok { d with config := some value }

/-- Takes an option whose value may stand in the same word. -/
def attach (d : Draft) (setting : Setting) (value : Option String) :
    Except Stop (Draft × Option Setting) :=
  match value with
  | none => .ok (d, some setting)
  | some value => do return (← d.set value setting, none)

/-- The value behind the letter of an option, with or without an equals sign. -/
def letterValue? : List Char → Option String
  | [] => none
  | '=' :: cs => some (String.ofList cs)
  | cs => some (String.ofList cs)

/-- Reads the letters of a word, and which of them still needs its value. -/
def letters (d : Draft) : List Char → Except Stop (Draft × Option Setting)
  | [] => .ok (d, none)
  | 'v' :: cs => do letters (← d.setVerbose) cs
  | 'h' :: _ => .error .help
  | 't' :: cs => d.attach .target (letterValue? cs)
  | 'c' :: cs => d.attach .config (letterValue? cs)
  | _ :: _ => .error .misuse

/-- Reads a long name with the value behind its equals sign. -/
def long (d : Draft) (name : String) (value : Option String) :
    Except Stop (Draft × Option Setting) :=
  match name, value with
  | "target", value => d.attach .target value
  | "config", value => d.attach .config value
  | "verbose", none => do return (← d.setVerbose, none)
  | "help", none => .error .help
  | _, _ => .error .misuse

/-- Reads a word in a place where options are allowed. -/
def word (d : Draft) (w : String) : Except Stop (Draft × Option Setting) :=
  match w.toList with
  | '-' :: '-' :: cs =>
      let value :=
        match cs.dropWhile (· != '=') with
        | _ :: value => some (String.ofList value)
        | [] => none
      d.long (String.ofList (cs.takeWhile (· != '='))) value
  | '-' :: c :: cs => d.letters (c :: cs)
  | _ => do return (← d.setFile w, none)

/-- Whether a word cannot be the value of an option before it. -/
def isOption (w : String) : Bool := w.toList.head? = some '-' && w != "-"

/-- Reads all words. Behind two hyphens there are no options. -/
def words (d : Draft) : List String → Except Stop Draft
  | [] => .ok d
  | "--" :: ws => ws.foldlM setFile d
  | w :: ws => do
      match ← d.word w, ws with
      | (d, none), ws => d.words ws
      | (_, some _), [] => .error .misuse
      | (d, some setting), value :: ws =>
          if isOption value then .error .misuse
          else (← d.set value setting).words ws

end Draft

/-- The arguments that the words of a command line spell. -/
def ofWords (ws : List String) : Except Stop Arguments := do
  let d ← ({} : Draft).words ws
  match d.file with
  | none => .error .misuse
  | some file => .ok ⟨file, d.target, d.config, d.verbose⟩

end Arguments
end Sexpr
