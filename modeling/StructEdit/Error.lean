import StructEdit.Fault
import StructEdit.Location
import StructEdit.Tree.Basic

namespace StructEdit

inductive ParseError where
  | grammarRejected (grammar : String)
  | noTree
  | oneError (start : Point) (span : Span)
  | manyErrors (count : Nat)
deriving DecidableEq, Repr

namespace ParseError

/-- Whether the text is to blame and not the parser. -/
def isSyntaxError : ParseError → Bool
  | .oneError _ _ => true
  | .manyErrors _ => true
  | _ => false

def message : ParseError → String
  | .grammarRejected grammar => s!"failed to set {grammar} grammar for parser"
  | .noTree => "failed to parse source code"
  | .oneError start span =>
    s!"syntax error detected at {start.describe} (byte {span.start}..{span.stop})"
  | .manyErrors count => s!"multiple syntax errors detected: {count} ERROR nodes"

end ParseError

inductive EngineError where
  | fault (cause : Fault)
  | unsupportedLanguage (name : String) (suggestion : Option String)
  | raiseExhausted (kind : String) (start : Point)
  | parse (cause : ParseError)
deriving DecidableEq, Repr

def EngineError.message : EngineError → String
  | .fault cause => cause.message
  | .unsupportedLanguage name none => s!"unsupported language: {name}"
  | .unsupportedLanguage name (some suggestion) =>
    s!"unsupported language: {name} (did you mean '{suggestion}'?)"
  | .raiseExhausted kind start =>
    s!"cannot raise `{kind}` at {start.describe}: no ancestor accepts it without syntax errors"
  | .parse cause => s!"tree-sitter error: {cause.message}"

instance : MonadLift Checked (Except EngineError) := ⟨Except.mapError .fault⟩

instance : MonadLift (Except ParseError) (Except EngineError) := ⟨Except.mapError .parse⟩

end StructEdit
