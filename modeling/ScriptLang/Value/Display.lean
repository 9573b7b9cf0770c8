import ScriptLang.Number.Style
import ScriptLang.State.Container

/-! The display form of values, which programs print. Inside of a container strings stand in quotes.
A container that is met again inside of itself is cut short. -/

namespace ScriptLang

/-- How a container is written: what stands around its parts, and what each part begins with. -/
structure Layout where
  opening : String
  parts : List (String × Value)
  closing : String

namespace Layout

def ofRecord (record : Record Value) : Layout :=
  if record.isEmpty then ⟨"\x7b", [], "\x7d"⟩
  else ⟨"\x7b ", record.entries.map fun entry => (entry.1 ++ ": ", entry.2), " \x7d"⟩

def ofContents (s : State) : Contents → Layout
  | .elements items => ⟨"[", items.map ("", ·), "]"⟩
  | .properties record => ofRecord record
  | .fields id record =>
    let fields := ofRecord record
    { fields with opening := (s.classOf id).name ++ " " ++ fields.opening }

end Layout

def Container.elided : Container → String
  | array _ => "[...]"
  | object _ | inst _ => "\x7b...\x7d"

def Member.text (m : Member) : String :=
  m.enumeration.name ++ "." ++ m.name

/-- The display form of a value inside of the containers `path`. -/
def State.displayIn (s : State) (path : List Container) (nested : Bool) (v : Value) : String :=
  match v with
  | .null => "null"
  | .bool b => if b then "true" else "false"
  | .number x => Number.Style.display.text x
  | .string text => if nested then "\"" ++ text ++ "\"" else text
  | .function f => "fn " ++ f.function.name
  | .native f => "native fn " ++ f.name
  | .classRef id => "class " ++ (s.classOf id).name
  | .enumeration e => "enum " ++ e.name
  | .member m => m.text
  | .tagged m payload => m.text ++ "(" ++ s.displayIn path true payload ++ ")"
  | .container c =>
    if _ : c ∈ path then c.elided
    else
      match _ : s.contents? c with
      | none => ""
      | some contents =>
        let layout := Layout.ofContents s contents
        let parts := layout.parts.map fun part => part.1 ++ s.displayIn (c :: path) true part.2
        layout.opening ++ ", ".intercalate parts ++ layout.closing
termination_by (unseen s.containers path, sizeOf v)
decreasing_by
  · exact Prod.Lex.right _ (by simp only [Value.tagged.sizeOf_spec]; omega)
  · exact Prod.Lex.left _ _ (unseen_cons_lt (mem_containers_of_contents? ‹_›) ‹_›)

def State.display (s : State) (v : Value) : String :=
  s.displayIn [] false v

end ScriptLang
