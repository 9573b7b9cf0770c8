import ScriptLang.Evaluation.Statement
import ScriptLang.Grammar.Program
import ScriptLang.Syntax.Identity

/-! Running programs. A run is bounded by a number of steps that no machine gets to. -/

namespace ScriptLang

/-- Why a source text has no value. -/
inductive Failure
  | parse (e : ParseError)
  | runtime (e : RuntimeError)

namespace RuntimeError

/-- What is reported of an error that no program caught. -/
def message (s : State) : RuntimeError → String
  | thrown value line => Fault.onLine line ("Uncaught exception: " ++ s.display value ++ ".")
  | fault f => f.message

end RuntimeError

def Failure.message (s : State) : Failure → String
  | parse e => e.message
  | runtime e => e.message s

namespace Eval

def answer (request : Task × State) : Steps (Outcome × State) :=
  (body request.1).run.run request.2

def stepLimit : Nat :=
  1 <<< 60

/-- How a computation ends and the state it leaves, unless it takes too many steps. -/
def run? (computation : Eval Value) (s : State) : Option (Outcome × State) :=
  Dialogue.drive answer stepLimit [] (computation.run.run s)

end Eval

namespace State

/-- The program with its functions told apart from all others of this state. -/
def load (s : State) (source : Source) : Program Nat × State :=
  let (program, next) := source.identify s.nextFunction
  (program, { s with nextFunction := next })

/-- Runs the statements of a program in a scope and tells how they end. -/
def runBlock? (s : State) (scope : ScopeId) (source : Source) : Option (Outcome × State) :=
  let (program, s) := s.load source
  (Eval.perform (.block scope program)).run? s

/-- Runs a program in a scope. A `return` outside of any function ends it. -/
def runProgram? (s : State) (scope : ScopeId) (source : Source) :
    Option (Except RuntimeError Value × State) :=
  (s.runBlock? scope source).map fun (outcome, s) => (outcome.result, s)

def runText? (s : State) (scope : ScopeId) (text : String) :
    Option (Except Failure Value × State) :=
  match parse text with
  | .error e => some (.error (.parse e), s)
  | .ok source =>
    (s.runProgram? scope source).map fun (result, s) => (result.mapError .runtime, s)

/-- Does something with fresh limits, and puts the former ones back. -/
def withFreshLimits? {α : Type} (s : State) (act : State → Option (α × State)) :
    Option (α × State) :=
  let (depth, maxDepth) := (s.depth, s.maxDepth)
  (act { s with depth := 0, maxDepth := defaultMaxDepth }).map fun (a, s) =>
    (a, { s with depth, maxDepth })

end State

end ScriptLang
