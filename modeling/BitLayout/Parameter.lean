import BitLayout.Layout
import BitLayout.Text.Quoted

/-! # Parameters

A parameter is a named field of an instruction: its source, and the layout that
the source spells. Names and sources are never empty. A parameter changes by
edits; an edit that would break a rule is refused.
-/

namespace BitLayout

/-- A named field with its source and the layout that the source spells. -/
structure Parameter where
  name : String
  source : String
  description : Option String
  layout : Layout
deriving DecidableEq, Repr

namespace Parameter

def layoutOf (name source : String) : Except EncodingError Layout :=
  if source.isEmpty then .error (.emptySource name) else Layout.ofSource source

def make (name source : String) (description : Option String) : Except EncodingError Parameter :=
  if name.isEmpty then .error .emptyName
  else (layoutOf name source).map (⟨name, source, description, ·⟩)

def width (p : Parameter) : Nat := p.layout.width

def value (p : Parameter) (w : Word) : Word := Layout.value w p.layout

inductive Edit where
  | name (name : String)
  | source (source : String)
  | description (description : Option String)
deriving DecidableEq, Repr

def edit (p : Parameter) : Edit → Except EncodingError Parameter
  | .name name => if name.isEmpty then .error .emptyName else .ok { p with name }
  | .source source => (layoutOf p.name source).map ({ p with source, layout := · })
  | .description description => .ok { p with description }

/-- The parameter that an edit leaves behind, unchanged when it is refused, and how it ended. -/
def perform (p : Parameter) (e : Edit) : Parameter × Except EncodingError Unit :=
  match p.edit e with
  | .ok q => (q, .ok ())
  | .error cause => (p, .error cause)

def displayDescription : Option String → String
  | some description => Text.quote description
  | none => "None"

def display (p : Parameter) : String :=
  "Parameter(name=" ++ Text.quote p.name ++ ", source=" ++ Text.quote p.source ++
    ", description=" ++ displayDescription p.description ++ ")"

end Parameter

end BitLayout
