import StructEdit.Error
import StructEdit.Language.Registry

namespace StructEdit

/-- A language ready for use; profiles with one serial are one and the same. -/
structure Profile where
  definition : Definition
  serial : Nat
deriving DecidableEq

structure Session where
  registry : Registry
  built : List Profile := []

namespace Session

def lookup? (s : Session) (name : String) : Option Profile :=
  s.built.find? (·.definition.name == nameKey name)

/-- The profile of a language and the session after it was asked for. -/
def get (s : Session) (name : String) : Except EngineError Profile × Session :=
  match s.lookup? name with
  | some profile => (.ok profile, s)
  | none =>
    match s.registry.find? name with
    | some definition =>
      let profile : Profile := ⟨definition, s.built.length⟩
      (.ok profile, { s with built := s.built ++ [profile] })
    | none => (.error (.unsupportedLanguage name (s.registry.suggest name)), s)

def cached (s : Session) : Nat := s.built.length

end Session

end StructEdit
