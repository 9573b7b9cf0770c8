import ScriptLang.Evaluation.Call

/-! Choosing an arm. The patterns are tried in order; the body behind the first that matches runs. -/

namespace ScriptLang

/-- What a pattern does with the value at hand. A match may bind a name to the payload. -/
inductive PatternMatch
  | miss
  | hit (binding : Option (String × Value))

/-- A tagged value of the same member gives its payload to the name. -/
def Member.destructure (m : Member) (name : String) (scrutinee : Value) : PatternMatch :=
  match scrutinee with
  | .tagged n payload => if n.isSame m then .hit (some (name, payload)) else .miss
  | _ => .miss

/-- The callee, the name and the lines of a call with a name as its only argument. -/
def Expr.nameCall? : Expr Nat → Option (Expr Nat × String × Nat × Nat)
  | .call callee [.place (.variable name nameLine)] line => some (callee, name, nameLine, line)
  | _ => none

theorem Expr.nameCall?_eq_some {pattern callee : Expr Nat} {name : String} {nameLine line : Nat}
    (h : pattern.nameCall? = some (callee, name, nameLine, line)) :
    pattern = .call callee [.place (.variable name nameLine)] line := by
  unfold Expr.nameCall? at h
  split at h
  · cases h
    rfl
  · cases h

namespace Eval

def compare (candidate scrutinee : Value) : Eval PatternMatch := do
  return if (← get).equal candidate scrutinee then .hit none else .miss

/-- Tries one pattern. A call with a name as its only argument takes a payload apart if the callee
is a member of an enum, and then the name is not evaluated. -/
def tryPattern (scope : ScopeId) (scrutinee : Value) (pattern : Expr Nat) : Eval PatternMatch :=
  match pattern.nameCall? with
  | none => do compare (← expression scope pattern) scrutinee
  | some (callee, name, nameLine, line) => do
    match ← expression scope callee with
    | .member m | .tagged m _ => return m.destructure name scrutinee
    | callee =>
      let argument ← expression scope (.place (.variable name nameLine))
      compare (← callValue callee [argument] scope line) scrutinee

def runArm (scope : ScopeId) (binding : Option (String × Value)) (body : List (Stmt Nat)) :
    Eval Value := do
  let inner ← create (·.enter .child scope)
  if let some (name, value) := binding then declare inner name value false
  perform (.block inner body)

/-- Tries the patterns, each with the body behind it; without a match the default body runs. -/
def tryPatterns (scope : ScopeId) (scrutinee : Value) (default : Option (List (Stmt Nat))) :
    List (Expr Nat × List (Stmt Nat)) → Eval Value
  | [] =>
    match default with
    | some body => runArm scope none body
    | none => return .null
  | (pattern, body) :: rest => do
    match ← tryPattern scope scrutinee pattern with
    | .hit binding => runArm scope binding body
    | .miss => tryPatterns scope scrutinee default rest

end Eval

/-- The patterns of all arms in order, each with the body of its arm. -/
def Arm.cases {ι : Type} (arms : List (Arm ι)) : List (Expr ι × List (Stmt ι)) :=
  arms.flatMap fun arm => arm.patterns.map (·, arm.body)

/-- The body of the default arm. -/
def Arm.default? {ι : Type} (arms : List (Arm ι)) : Option (List (Stmt ι)) :=
  (arms.find? Arm.isDefault).map Arm.body

namespace Eval

def select (scope : ScopeId) (scrutinee : Expr Nat) (arms : List (Arm Nat)) : Eval Value := do
  let inner ← create (·.enter .child scope)
  let scrutinee ← expression inner scrutinee
  tryPatterns inner scrutinee (Arm.default? arms) (Arm.cases arms)

end Eval

end ScriptLang
