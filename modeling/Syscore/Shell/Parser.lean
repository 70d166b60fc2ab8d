import Syscore.Library.Ascii

/-!
# The command lines of stsh

`parsePipeline`: a line is lexed into words and operators, and one pass over the tokens assembles
the pipeline.
-/

namespace Syscore
namespace Shell

/-- `pipeline_t`. -/
structure Pipeline where
  /-- One argument vector for each stage. -/
  commands : List (List Text)
  /-- Empty without `<`. -/
  input : Text
  /-- Empty without `>`. -/
  output : Text
  background : Bool
  valid : Bool
  error : Text
  deriving DecidableEq

/-- The characters that are tokens of their own. -/
def isOperatorChar (c : UInt8) : Bool := c = 124 || c = 60 || c = 62 || c = 38

/-- `flush`. -/
def flush (cur : Text) : List Text := if cur = [] then [] else [cur]

/-- The loop of `lex`. -/
def lexLoop : Text → Text → List Text
  | [], cur => flush cur
  | c :: line, cur =>
      if isspace c then flush cur ++ lexLoop line []
      else if isOperatorChar c then flush cur ++ [c] :: lexLoop line []
      else lexLoop line (cur ++ [c])

/-- `lex`. -/
def lex (line : Text) : List Text := lexLoop line []

/-- `isOperator`. -/
def isOperator (t : Text) : Bool := t = ascii "|" || t = ascii "<" || t = ascii ">" || t = ascii "&"

namespace Pipeline

/-- A fresh `pipeline_t`. -/
def initial : Pipeline where
  commands := []
  input := []
  output := []
  background := false
  valid := true
  error := []

/-- `fail`. -/
def fail (p : Pipeline) (msg : String) : Pipeline :=
  { p with valid := false, error := ascii msg }

end Pipeline

/-- The loop of `parsePipeline`, and what follows it when every token was accepted. -/
def parseLoop : List Text → List Text → Pipeline → Pipeline
  | [], current, p =>
      let p := if current = [] then p else { p with commands := p.commands ++ [current] }
      if p.commands = [] ∧ (p.input ≠ [] ∨ p.output ≠ []) then
        p.fail "redirection without a command"
      else p
  | t :: tokens, current, p =>
      if t = ascii "|" then
        if current = [] then p.fail "missing command before '|'"
        else parseLoop tokens [] { p with commands := p.commands ++ [current] }
      else if t = ascii "<" then
        match tokens with
        | [] => p.fail "expected filename after '<'"
        | name :: tokens =>
            if isOperator name then p.fail "expected filename after '<'"
            else parseLoop tokens current { p with input := name }
      else if t = ascii ">" then
        match tokens with
        | [] => p.fail "expected filename after '>'"
        | name :: tokens =>
            if isOperator name then p.fail "expected filename after '>'"
            else parseLoop tokens current { p with output := name }
      else if t = ascii "&" then
        if tokens = [] then parseLoop tokens current { p with background := true }
        else p.fail "'&' must be the last token"
      else parseLoop tokens (current ++ [t]) p

/-- `parsePipeline`. -/
def parsePipeline (line : Text) : Pipeline := parseLoop (lex line) [] .initial

example : (parsePipeline (ascii "sort<in | wc -l > out &")).commands =
    [[ascii "sort"], [ascii "wc", ascii "-l"]] := by
  decide +kernel

end Shell
end Syscore
