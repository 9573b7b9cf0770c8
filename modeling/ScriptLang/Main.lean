import ScriptLang.CommandLine

/-! The command itself. -/

namespace ScriptLang

namespace CommandLine

def fileText? (name : String) : IO (Option String) := do
  try
    return some (← IO.FS.readFile name)
  catch _ => return none

def report (options : Options) : IO Report := do
  let contents := options.contents.getD ""
  if !options.isFile then return options.execute contents
  match ← fileText? contents with
  | some script => return options.execute script
  | none => return unreadableReport contents

def respond (arguments : List String) : IO Report :=
  match request? arguments with
  | some .version => return versionReport
  | some (.run options) => report options
  | none => return usageReport

end CommandLine

end ScriptLang

def main (arguments : List String) : IO UInt32 := do
  let report ← ScriptLang.CommandLine.respond arguments
  IO.print report.stdout
  IO.eprint report.stderr
  return report.code.toUInt32
