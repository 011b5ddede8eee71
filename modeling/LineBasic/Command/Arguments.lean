import LineBasic.Command

/-!
# Arguments

The arguments of the command line: a file, a command, and for a run the prompt. Options may stand
anywhere.
-/

namespace LineBasic

/-- What the command line asks for. -/
structure Invocation where
  file : String
  command : Command
deriving DecidableEq

namespace Invocation

/-- The options among the arguments, and the other arguments in order. -/
structure Arguments where
  prompt : Option String := none
  plain : List String := []

/-- Sorts arguments. The text of a prompt follows its option or an equals sign in it. -/
def Arguments.sort : List String → Arguments
  | [] => {}
  | "-v" :: rest => sort rest
  | "--verbose" :: rest => sort rest
  | "--prompt" :: text :: rest => { sort rest with prompt := some text }
  | arg :: rest =>
    let others := sort rest
    if arg.startsWith "--prompt=" then { others with prompt := some (arg.drop 9).toString }
    else { others with plain := arg :: others.plain }

/-- The invocation that arguments write, if they write one. Only a run has a prompt. -/
def ofArgs? (args : List String) : Option Invocation :=
  match Arguments.sort args with
  | ⟨none, [file, "tokens"]⟩ => some ⟨file, .tokens⟩
  | ⟨none, [file, "check"]⟩ => some ⟨file, .check⟩
  | ⟨none, [file, "tac"]⟩ => some ⟨file, .tac⟩
  | ⟨prompt, [file, "run"]⟩ => some ⟨file, .run (prompt.getD Machine.defaultPrompt)⟩
  | _ => none

end Invocation

end LineBasic
