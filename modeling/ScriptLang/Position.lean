/-! Places in a source text. Lines and columns count from one; a column counts characters. -/

namespace ScriptLang

structure Position where
  line : Nat
  column : Nat
  deriving DecidableEq, Inhabited, Repr

namespace Position

def start : Position :=
  ⟨1, 1⟩

def next (p : Position) (c : Char) : Position :=
  if c = '\n' then ⟨p.line + 1, 1⟩ else ⟨p.line, p.column + 1⟩

/-- The place just behind `text`, when `text` starts at `p`. -/
def after (p : Position) (text : List Char) : Position :=
  text.foldl next p

end Position

end ScriptLang
