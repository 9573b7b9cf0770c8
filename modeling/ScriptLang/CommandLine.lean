import ScriptLang.Interpreter

/-! The command line: options, one script or the name of its file, and what a run prints. -/

namespace ScriptLang

namespace CommandLine

structure Options where
  isFile : Bool
  isPipe : Bool
  maxDepth : Option Nat
  contents : Option String
  deriving DecidableEq, Repr

inductive Request
  | version
  | run (options : Options)
  deriving DecidableEq, Repr

def Options.none : Options :=
  ⟨false, false, Option.none, Option.none⟩

/-- Counts are written in digits, possibly behind a plus sign, and fit in 64 bits. -/
def count? (text : String) : Option Nat :=
  let digits :=
    match text.toList with
    | '+' :: rest => rest
    | rest => rest
  if digits.isEmpty || !digits.all Char.isDigit then none
  else
    let value := digits.foldl (fun n c => 10 * n + (c.toNat - '0'.toNat)) 0
    if value < UInt64.size then some value else none

namespace Options

/-! An option that is given twice is an error, and so is a second script. -/

def setFile? (o : Options) : Option Options :=
  if o.isFile then Option.none else some { o with isFile := true }

def setPipe? (o : Options) : Option Options :=
  if o.isPipe then Option.none else some { o with isPipe := true }

def setMaxDepth? (o : Options) (text : String) : Option Options :=
  if o.maxDepth.isSome then Option.none
  else (count? text).map fun n => { o with maxDepth := some n }

def setContents? (o : Options) (text : String) : Option Options :=
  if o.contents.isSome then Option.none else some { o with contents := some text }

/-- The script is required. -/
def request? (o : Options) : Option Request :=
  if o.contents.isSome then some (.run o) else Option.none

end Options

/-- Single letters, which may stand together behind one dash. Everything behind the request for the
version is ignored. -/
def letters? (o : Options) : List Char → Option (Options ⊕ Request)
  | [] => some (.inl o)
  | 'f' :: rest => o.setFile?.bind (letters? · rest)
  | 'p' :: rest => o.setPipe?.bind (letters? · rest)
  | 'V' :: _ => some (.inr .version)
  | _ => none

/-- The arguments behind `--`, which are no options. -/
def positionals? (o : Options) : List String → Option Request
  | [] => o.request?
  | text :: rest => (o.setContents? text).bind (positionals? · rest)

def startsOption (argument : String) : Bool :=
  argument.startsWith "-" && argument ≠ "-"

/-- Reads the arguments from left to right. -/
def arguments? (o : Options) : List String → Option Request
  | [] => o.request?
  | "--" :: rest => positionals? o rest
  | "--version" :: _ => some .version
  | "--file" :: rest => o.setFile?.bind (arguments? · rest)
  | "--pipe-mode" :: rest => o.setPipe?.bind (arguments? · rest)
  | ["--max-depth"] => none
  | "--max-depth" :: value :: rest =>
    if startsOption value then none else (o.setMaxDepth? value).bind (arguments? · rest)
  | argument :: rest =>
    match argument.dropPrefix? "--max-depth=" with
    | some value => (o.setMaxDepth? value.toString).bind (arguments? · rest)
    | none =>
      if argument.startsWith "--" then none
      else if startsOption argument then
        match letters? o (argument.toList.drop 1) with
        | some (.inl o) => arguments? o rest
        | some (.inr request) => some request
        | none => none
      else (o.setContents? argument).bind (arguments? · rest)

/-- What the arguments ask for, unless they are in error. -/
def request? (arguments : List String) : Option Request :=
  arguments? .none arguments

structure Report where
  code : Nat
  stdout : String
  stderr : String
  deriving DecidableEq, Repr

def usageReport : Report :=
  ⟨2, "", "Usage: tessera [OPTIONS] <CONTENTS>\n"⟩

def versionReport : Report :=
  ⟨0, "tessera 0.1.0\n", ""⟩

def unreadableReport (file : String) : Report :=
  ⟨1, "", "Failed to read the input file '" ++ file ++ "'. Perhaps this file does not exist?\n"⟩

def valueText (s : State) : Value → String
  | .null => ""
  | value => s.display value ++ "\n"

/-- Runs a script. In pipe mode its value is printed behind what it printed itself. -/
def Options.execute (o : Options) (script : String) : Report :=
  let (scope, s) := (State.initial (o.maxDepth.getD State.defaultMaxDepth)).newGlobal
  match s.runText? scope script with
  | some (.ok value, s) => ⟨0, if o.isPipe then s.output ++ valueText s value else s.output, ""⟩
  | some (.error e, s) => ⟨1, s.output, e.message s ++ "\n"⟩
  | Option.none => ⟨1, "", "The script takes too long.\n"⟩

end CommandLine

end ScriptLang
