import BitLayout.Log.Directive

/-! # Log filters

A filter is a list of directives. Of the directives that apply to an event the
one with the longest target decides, of those with equal targets one that names a
field, and of two equal ones the later. An event to which none applies does not
pass.
-/

namespace BitLayout.Log

abbrev Filter := List Directive

namespace Filter

def upTo (level : Level) : Filter := [⟨"", .always, some level⟩]

/-- The filter that a text spells; without any directive it lets pass errors. -/
def ofText? (text : String) : Option Filter :=
  let parts := (text.toList.splitOn ',').filter (!·.isEmpty)
  if parts.isEmpty then some (upTo .error) else parts.mapM Directive.ofText?

def prefer (best : Option Directive) (d : Directive) : Option Directive :=
  match best with
  | none => some d
  | some b => if b.isNarrowerThan d then some b else some d

def deciding? (f : Filter) (e : Event) : Option Directive :=
  (f.filter (·.applies e)).foldl prefer none

def passes (f : Filter) (e : Event) : Bool :=
  match f.deciding? e with
  | some d => d.allows e.level
  | none => false

def lines (f : Filter) (events : List Event) : List String :=
  (events.filter f.passes).map Event.line

end Filter

end BitLayout.Log
