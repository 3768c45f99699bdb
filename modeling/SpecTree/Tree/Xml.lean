import SpecTree.Tree.Node

/-!
# Parameter lists in XML

What a tree holds, as nested lists of named values. Only explicit values are written; a
sub-spec is written if anything in it holds a value.
-/

namespace SpecTree

/-- A named list of values and of lists. -/
inductive XmlElement where
  | parameter (name : String) (value : Value)
  | list (name : String) (children : List XmlElement)

namespace XmlElement

/-- A character inside an attribute. -/
def escapeChar : Char → List Char
  | '<' => "&lt;".toList
  | '>' => "&gt;".toList
  | '&' => "&amp;".toList
  | '\'' => "&apos;".toList
  | '"' => "&quot;".toList
  | c => [c]

/-- The value of an attribute. -/
def escape (s : String) : String := String.ofList (s.toList.flatMap escapeChar)

/-- An attribute, with a space before it. -/
def attr (name value : String) : String :=
  " " ++ name ++ "=\"" ++ escape value ++ "\""

/-- A line at a level of nesting. -/
def line (level : Nat) (text : String) : String := "".pushn ' ' (2 * level) ++ text ++ "\n"

mutual

/-- An element with its children, a line for every tag. -/
def render (level : Nat) : XmlElement → String
  | parameter name value =>
    line level ("<Parameter" ++ attr "name" name ++ attr "type" value.type.name ++
      attr "value" value.toText ++ "/>")
  | list name children =>
    line level ("<ParameterList" ++ attr "name" name ++ attr "type" "ParameterList" ++ ">") ++
      renderAll (level + 1) children ++ line level "</ParameterList>"

def renderAll (level : Nat) : List XmlElement → String
  | [] => ""
  | e :: es => render level e ++ renderAll level es

end

/-- What is written for a parameter: its value, or else the list that its sub-spec makes. -/
def ofParameter (p : Parameter (Judgement (List XmlElement))) : List XmlElement :=
  match p.value, p.node with
  | some value, _ => [parameter p.name value]
  | none, some node => [list p.name node.result]
  | none, none => []

end XmlElement

namespace Node

/-- The elements that a tree's values make. -/
def xmlElements (n : Node) : List XmlElement :=
  (n.judge
    (fun s => s.valued.flatMap XmlElement.ofParameter)
    (fun l => l.valued.flatMap XmlElement.ofParameter)
    (fun c => c.body.valued.flatMap XmlElement.ofParameter)).result

/-- The tree as a list of the given name. -/
def toXml (name : String) (n : Node) : String :=
  (XmlElement.list name n.xmlElements).render 0

end Node

end SpecTree
