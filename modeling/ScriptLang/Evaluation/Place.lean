import ScriptLang.Evaluation.Basic

/-! Reading places and assigning to them. A container is evaluated before its key. -/

namespace ScriptLang

namespace Eval

def read (scope : ScopeId) : Place Nat → Eval Value
  | .variable name line => inspect (·.lookup scope name line)
  | .dot container name _ line => do
    let target ← expression scope container
    inspect (·.getMember target (.string name) line)
  | .index container key line => do
    let target ← expression scope container
    let key ← expression scope key
    inspect (·.getMember target key line)

/-- Stores a value at a place; faults of the store are on `line`. -/
def store (scope : ScopeId) (place : Place Nat) (value : Value) (line : Nat) : Eval Unit :=
  match place with
  | .variable name _ => write (·.assignment scope name value line)
  | .dot container name _ _ => do
    let target ← expression scope container
    write (·.memberWrite target (.string name) value line)
  | .index container key _ => do
    let target ← expression scope container
    let key ← expression scope key
    write (·.memberWrite target key value line)

end Eval

end ScriptLang
