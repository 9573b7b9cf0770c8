import ScriptLang.Text.CharClass
import ScriptLang.Text.Quoted

/-! Quoted text in which every character can be told: those without a visible form of their own are
written by their number. -/

namespace ScriptLang.Text

def revealingEscape (c : Char) : String :=
  if c = '"' then "\\\""
  else if c = '\\' then "\\\\"
  else if c = '\n' then "\\n"
  else if c = '\r' then "\\r"
  else if c = '\t' then "\\t"
  else if c = '\x00' then "\\0"
  else if isExtending c || isInvisible c then "\\u\x7b" ++ hexDigits c.toNat ++ "\x7d"
  else String.singleton c

def revealed (text : String) : String :=
  quote revealingEscape text

end ScriptLang.Text
