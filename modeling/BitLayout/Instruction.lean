import BitLayout.Architecture
import BitLayout.OrderedMap
import BitLayout.Parameter

/-! # Instructions

An instruction is a named row of parameters over the words of one architecture.
Its name is not empty and no two parameters share a name. Decoding a word gives
the value of each parameter in the order of their declaration; the word may be
wider than the architecture.
-/

namespace BitLayout

/-- A named row of parameters over the words of an architecture. -/
structure Instruction where
  name : String
  description : Option String
  parameters : List Parameter
  architecture : Architecture
deriving DecidableEq, Repr

namespace Instruction

/-- The first name that stands later in a list than one of its equals, given the names before it. -/
def repeatedAfter? (before : List String) : List String → Option String
  | [] => none
  | name :: rest =>
    if name ∈ before then some name else repeatedAfter? (name :: before) rest

def repeated? (names : List String) : Option String := repeatedAfter? [] names

theorem repeatedAfter?_eq_none_iff {before names : List String} :
    repeatedAfter? before names = none ↔ names.Nodup ∧ ∀ name ∈ names, name ∉ before := by
  induction names generalizing before with
  | nil => simp [repeatedAfter?]
  | cons name rest ih =>
    simp only [repeatedAfter?, List.nodup_cons, List.forall_mem_cons]
    split
    · simp [*]
    · rename_i h
      rw [ih]
      constructor
      · rintro ⟨hn, hb⟩
        have fresh : name ∉ rest := fun hm => hb name hm List.mem_cons_self
        exact ⟨⟨fresh, hn⟩, h, fun m hm hmb => hb m hm (List.mem_cons_of_mem _ hmb)⟩
      · rintro ⟨⟨fresh, hn⟩, -, hb⟩
        refine ⟨hn, fun m hm => ?_⟩
        rw [List.mem_cons, not_or]
        exact ⟨fun e => fresh (e ▸ hm), hb m hm⟩

theorem repeated?_eq_none_iff {names : List String} : repeated? names = none ↔ names.Nodup := by
  simp [repeated?, repeatedAfter?_eq_none_iff]

def distinct (parameters : List Parameter) : Except EncodingError (List Parameter) :=
  match repeated? (parameters.map (·.name)) with
  | some name => .error (.repeatedParameter name)
  | none => .ok parameters

def make (name : String) (description : Option String) (parameters : List Parameter)
    (tag : String) : Except EncodingError Instruction := do
  let architecture ← Architecture.ofTag tag
  if name.isEmpty then .error .emptyName
  else do
    let parameters ← distinct parameters
    .ok { name, description, parameters, architecture }

def parameter? (i : Instruction) (name : String) : Option Parameter :=
  i.parameters.find? (·.name == name)

def decode (i : Instruction) (w : Word) : OrderedMap Word :=
  OrderedMap.ofList (i.parameters.map fun p => (p.name, p.value w))

def fits (i : Instruction) (w : Word) : Bool := i.architecture.fits w

inductive Edit where
  | name (name : String)
  | description (description : Option String)
  | architecture (tag : String)
  | parameters (parameters : List Parameter)
  | push (parameter : Parameter)
deriving DecidableEq, Repr

def edit (i : Instruction) : Edit → Except EncodingError Instruction
  | .name name => if name.isEmpty then .error .emptyName else .ok { i with name }
  | .description description => .ok { i with description }
  | .architecture tag => (Architecture.ofTag tag).map ({ i with architecture := · })
  | .parameters parameters => (distinct parameters).map ({ i with parameters := · })
  | .push p =>
    if (i.parameter? p.name).isSome then .error (.repeatedParameter p.name)
    else .ok { i with parameters := i.parameters ++ [p] }

/-- The instruction that an edit leaves behind, unchanged when it is refused, and how it ended. -/
def perform (i : Instruction) (e : Edit) : Instruction × Except EncodingError Unit :=
  match i.edit e with
  | .ok k => (k, .ok ())
  | .error cause => (i, .error cause)

def display (i : Instruction) : String :=
  "Instruction(name=" ++ Text.quote i.name ++ ", description=" ++
    Parameter.displayDescription i.description ++ ", parameters=[" ++
    ", ".intercalate (i.parameters.map Parameter.display) ++ "], architecture=" ++
    Text.quote i.architecture.tag ++ ")"

end Instruction

end BitLayout
