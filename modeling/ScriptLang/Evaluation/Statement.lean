import ScriptLang.Evaluation.Match

/-! What each expression and each statement does. -/

namespace ScriptLang

namespace Eval

/-- Makes a function; a named one is bound to its name in this scope. -/
def makeFunction (scope : ScopeId) (f : FunctionDecl Nat) : Eval Value := do
  let value := .function ⟨f, scope, none⟩
  if f.name ≠ FunctionDecl.anonymous then declare scope f.name value true
  return value

def makeObject (scope : ScopeId) (properties : List (String × Expr Nat)) : Eval Value := do
  let values ← properties.mapM fun (name, e) => return (name, ← expression scope e)
  create (·.newObject (.ofList values))

/-- Whatever error stops the body is bound to `error` around the handler. -/
def attemptBlock (scope : ScopeId) (body handler : List (Stmt Nat)) : Eval Value := do
  let inner ← create (·.enter .child scope)
  match ← attempt (.block inner body) with
  | .error (.raised error) =>
    declare scope "error" error.caught false
    blockIn .child scope handler
  | outcome => conclude outcome

def evaluate (scope : ScopeId) : Expr Nat → Eval Value
  | .number x _ => return .number x
  | .string text _ => return .string text
  | .place p => read scope p
  | .object properties _ => makeObject scope properties
  | .array elements _ => do
    let items ← expressions scope elements
    create (·.newArray items.toArray)
  | .binary operator left right line => do
    let a ← expression scope left
    let b ← expression scope right
    inspect (·.operate operator a b line)
  | .assign target value line => do
    let value ← expression scope value
    store scope target value line
    return value
  | .call callee arguments line => do
    let arguments ← expressions scope arguments
    let callee ← expression scope callee
    callValue callee arguments scope line
  | .construct target arguments line => do
    instantiate (← read scope target) (expressions scope arguments) line
  | .select scrutinee arms _ => select scope scrutinee arms
  | .function f => makeFunction scope f
  | .attempt body handler _ => attemptBlock scope body handler

def declareVariable (scope : ScopeId) : VariableDecl Nat → Eval Value
  | .variable name none _ => do
    declare scope name .null false
    return .null
  | .variable name (some value) _ => do
    let value ← expression scope value
    declare scope name value false
    return value
  | .constant name value _ => do
    let value ← expression scope value
    declare scope name value true
    return value

def branch (scope : ScopeId) (test : Expr Nat) (body : List (Stmt Nat))
    (alternate : Option (List (Stmt Nat))) : Eval Value := do
  if (← expression scope test).isTrue then blockIn .child scope body
  else
    match alternate with
    | some alternate => blockIn .child scope alternate
    | none => return .null

/-- The start of a loop with a header has a scope around the whole loop. -/
def forLoop (scope : ScopeId) (start : VariableDecl Nat) (test update : Expr Nat)
    (body : List (Stmt Nat)) : Eval Value := do
  let inner ← create (·.enter .child scope)
  let _ ← declareVariable inner start
  perform (.forLoop inner test update body)

/-- `break` and `continue` need a scope that permits them. -/
def loopControl (scope : ScopeId) (word : String) (signal : Signal) (line : Nat) : Eval Value := do
  if (← get).permitsLoopControl scope then throw signal
  else fault (.loopControlOutsideLoop word line)

/-- A later method replaces an earlier one of its name. -/
def methodTable (methods : List (FunctionDecl Nat)) : Record (FunctionDecl Nat) :=
  .ofList (methods.map fun f => (f.name, f))

def declareClass (scope : ScopeId) : ClassDecl Nat → Eval Value
  | .mk name fields staticFields methods staticMethods _ => do
    let values ← staticFields.mapM fun (name, e) => return (name, ← expression scope e)
    let value ← create (·.newClass
      ⟨name, fields, .ofList values, methodTable methods, methodTable staticMethods, scope⟩)
    declare scope name value false
    return .null

def declareEnum (scope : ScopeId) (name : String) (members : List String) : Eval Value := do
  let serial ← create State.newSerial
  declare scope name (.enumeration ⟨serial, name, members⟩) false
  return .null

def execute (scope : ScopeId) : Stmt Nat → Eval Value
  | .declare d => declareVariable scope d
  | .function f => do
    let value := .function ⟨f, scope, none⟩
    declare scope f.name value true
    return value
  | .branch test body alternate _ => branch scope test body alternate
  | .forLoop start test update body _ => forLoop scope start test update body
  | .whileLoop test body _ => perform (.whileLoop scope test body .null)
  | .returns none _ => throw (.returned .null)
  | .returns (some value) _ => do throw (.returned (← expression scope value))
  | .breaks line => loopControl scope "break" .broke line
  | .continues line => loopControl scope "continue" .continued line
  | .throws value line => do raise (.thrown (← expression scope value) line)
  | .declareClass c => declareClass scope c
  | .declareEnum name members _ => declareEnum scope name members
  | .expression e _ => expression scope e

/-- The statements one after the other. The result is that of the last one, or `last`. -/
def executeAll (scope : ScopeId) (last : Value) : List (Stmt Nat) → Eval Value
  | [] => return last
  | s :: rest => do
    let value ← execute scope s
    executeAll scope value rest

/-- One round of a `while` and all that follow. The result is that of the last body that ended
normally. -/
def whileRounds (scope : ScopeId) (test : Expr Nat) (body : List (Stmt Nat)) (last : Value) :
    Eval Value := do
  if !(← expression scope test).isTrue then return last
  let inner ← create (·.enter .loop scope)
  match ← attempt (.block inner body) with
  | .ok value => perform (.whileLoop scope test body value)
  | .error .continued => perform (.whileLoop scope test body last)
  | .error .broke => return last
  | .error signal => throw signal

/-- One round of a `for` and all that follow. The update comes after each body that was not left
for good. -/
def forRounds (scope : ScopeId) (test update : Expr Nat) (body : List (Stmt Nat)) :
    Eval Value := do
  if !(← expression scope test).isTrue then return .null
  let inner ← create (·.enter .loop scope)
  match ← attempt (.block inner body) with
  | .ok _ | .error .continued =>
    let _ ← expression scope update
    perform (.forLoop scope test update body)
  | .error .broke => return .null
  | .error signal => throw signal

/-- What a task consists of. -/
def body : Task → Eval Value
  | .expression scope e => evaluate scope e
  | .block scope statements => executeAll scope .null statements
  | .whileLoop scope test body last => whileRounds scope test body last
  | .forLoop scope test update body => forRounds scope test update body

end Eval

end ScriptLang
