set_option autoImplicit false

namespace IndexedSequence

inductive Rendering where
  | atom (text : String)
  | tuple (name : String) (parts : List Rendering)
  /-- A name and its labelled parts in braces; `more` says that some are left out. -/
  | record (name : String) (parts : List (String × Rendering)) (more : Bool)
  | list (parts : List Rendering)

class Rendered (α : Type) where
  rendering : α → Rendering

export Rendered (rendering)

namespace Rendering

mutual

def compact : Rendering → String
  | atom text => text
  | tuple name parts => name ++ "(" ++ ", ".intercalate (compactAll parts) ++ ")"
  | record name parts more =>
    name ++ " \x7b " ++
      ", ".intercalate (compactLabelled parts ++ if more then [".."] else []) ++ " \x7d"
  | list parts => "[" ++ ", ".intercalate (compactAll parts) ++ "]"

def compactAll : List Rendering → List String
  | [] => []
  | part :: rest => part.compact :: compactAll rest

def compactLabelled : List (String × Rendering) → List String
  | [] => []
  | (label, part) :: rest => (label ++ ": " ++ part.compact) :: compactLabelled rest

end

def step : String := "    "

mutual

/-- Every part on a line of its own, one step further in than what holds it. `indent` stands before
the line on which the rendering starts. -/
def expandedAt (indent : String) : Rendering → String
  | atom text => text
  | tuple name parts =>
    name ++ "(\n" ++ String.join (expandedAll (indent ++ step) parts) ++ indent ++ ")"
  | record name parts more =>
    name ++ " \x7b\n" ++ String.join (expandedLabelled (indent ++ step) parts) ++
      (if more then indent ++ step ++ "..\n" else "") ++ indent ++ "\x7d"
  | list [] => "[]"
  | list (part :: rest) =>
    "[\n" ++ String.join (expandedAll (indent ++ step) (part :: rest)) ++ indent ++ "]"

def expandedAll (indent : String) : List Rendering → List String
  | [] => []
  | part :: rest => (indent ++ part.expandedAt indent ++ ",\n") :: expandedAll indent rest

def expandedLabelled (indent : String) : List (String × Rendering) → List String
  | [] => []
  | (label, part) :: rest =>
    (indent ++ label ++ ": " ++ part.expandedAt indent ++ ",\n") :: expandedLabelled indent rest

end

def expanded (value : Rendering) : String :=
  value.expandedAt ""

end Rendering

inductive Layout where
  | compact
  | expanded
  deriving DecidableEq

def Layout.text : Layout → Rendering → String
  | compact => Rendering.compact
  | expanded => Rendering.expanded

end IndexedSequence
