/-! Quoted text. A style says how each character is written between the quotes. -/

namespace ScriptLang.Text

def quote (escape : Char → String) (text : String) : String :=
  "\"" ++ String.join (text.toList.map escape) ++ "\""

def hexDigits (n : Nat) : String :=
  String.ofList (Nat.toDigits 16 n)

/-- Quotes, backslashes and control characters are escaped, the latter by four digits if they have
no letter. -/
def plainEscape (c : Char) : String :=
  if c = '"' then "\\\""
  else if c = '\\' then "\\\\"
  else if c = '\n' then "\\n"
  else if c = '\r' then "\\r"
  else if c = '\t' then "\\t"
  else if c = '\x08' then "\\b"
  else if c = '\x0c' then "\\f"
  else if c.toNat < 16 then "\\u000" ++ hexDigits c.toNat
  else if c.toNat < 32 then "\\u00" ++ hexDigits c.toNat
  else String.singleton c

def quoted (text : String) : String :=
  quote plainEscape text

end ScriptLang.Text
