import BitLayout.Log.Condition

/-! # Log directives

A directive lets pass the events of a target up to a level of detail. It applies
to every target that begins with its own, so the empty target stands for all, and
to the events that meet its condition.

The text of a directive is a level, or a target with an optional condition in
brackets and an optional level after an equals sign. Without a level everything
passes. A target may be left out before a bracket. Behind blanks the level takes
in the equals sign, so no level can be set there.
-/

namespace BitLayout.Log

/-- The detail to let pass: nothing, or everything up to a level. -/
abbrev Detail := Option Level

namespace Detail

/-- The details from least to most; the place in the row is the number of a detail. -/
def all : List Detail := [none, some .error, some .warn, some .info, some .debug, some .trace]

def ofNumber? (digits : List Char) : Option Detail :=
  match digits with
  | [] => none
  | _ :: _ =>
    match Text.Numeral.read 10 all.length digits with
    | .ok n => all[n]?
    | .error _ => none

/-- The detail that a name in letters of either case stands for. -/
def ofName? (name : List Char) : Option Detail :=
  [("off", none), ("error", some Level.error), ("warn", some .warn), ("info", some .info),
    ("debug", some .debug), ("trace", some .trace)].lookup
      (String.ofList (name.map Char.toLower))

/-- The detail that a name stands for, or a number with or without a plus sign. -/
def ofText? : List Char → Option Detail
  | '+' :: digits => ofNumber? digits
  | text => (ofNumber? text).or (ofName? text)

end Detail

/-- The detail to let pass for the targets that begin with `target`. -/
structure Directive where
  target : String
  condition : Condition
  detail : Detail
deriving DecidableEq, Repr

namespace Directive

def opensWith (c : Char) : Bool := Text.isAlphanumeric c || ['-', ':', '_', '['].contains c

/-- The detail that the end of a directive asks for, from the equals sign on. -/
def detailOf? : Signs → Option Detail
  | [('=', _)] => some (some .trace)
  | ('=', _) :: level => Detail.ofText? (Signs.part level)
  | rest => if rest.all (Text.isBlank ·.1) then some (some .trace) else none

/-- The directive that a single word spells: a level, or else a target. -/
def ofWord (text : List Char) : Directive :=
  match Detail.ofText? text with
  | some detail => ⟨"", .always, detail⟩
  | none => ⟨String.ofList text, .always, some .trace⟩

def ofSigns? (signs : Signs) : Option Directive :=
  match signs.span fun c => c.1 != '=' && c.1 != '[' with
  | (word, []) => some (ofWord (Signs.part word))
  | (target, rest) => do
    let (condition, level) ← Condition.read? rest
    let detail ← detailOf? level
    some ⟨String.ofList (Signs.part target), condition, detail⟩

def ofText? (text : List Char) : Option Directive :=
  let signs := Signs.ofText text
  if (signs.head?.map (·.1)).any opensWith then ofSigns? signs else none

def applies (d : Directive) (e : Event) : Bool :=
  d.target.toList.isPrefixOf e.target.toList && d.condition.holds e

def allows (d : Directive) (level : Level) : Bool :=
  match d.detail with
  | none => false
  | some most => level.rank ≤ most.rank

/-- The test that a directive speaks of less than another, by target and then by fields. -/
def isNarrowerThan (d other : Directive) : Bool :=
  d.target.length > other.target.length ||
    d.target.length == other.target.length &&
      d.condition.fieldCount > other.condition.fieldCount

end Directive

end BitLayout.Log
