import ModelForms.Json.Basic
import ModelForms.Tree.Basic
import ModelForms.Types.Term

/-!
# Texts of form trees

A form tree is written as the type of the form, as in
`FormGroup<{ a: FormControl<number>; tags: FormArray<FormControl<string>> }>`, or described as JSON.
Both need to know how a type is written, which depends on whether the names of models are known.
-/

namespace ModelForms

namespace TreeNode

mutual

/-- The characters of a node. -/
def chars (typeText : TypeId → String) : TreeNode → List Char
  | .control value => "FormControl<".toList ++ (typeText value).toList ++ ['>']
  | .group members =>
      if members.isEmpty then "FormGroup<\x7b\x7d>".toList
      else "FormGroup<\x7b ".toList
        ++ TypeTerm.separated [';', ' '] (memberChars typeText members) ++ " \x7d>".toList
  | .array element => "FormArray<".toList ++ chars typeText element ++ ['>']
termination_by structural node => node

/-- The characters of each member. -/
def memberChars (typeText : TypeId → String) :
    List (String × (Bool × TreeNode)) → List (List Char)
  | [] => []
  | (name, (optional, node)) :: rest =>
      (TypeTerm.nameChars name ++ (if optional then ['?'] else [])
        ++ ':' :: ' ' :: chars typeText node) :: memberChars typeText rest
termination_by structural members => members

end

/-- The text of a node. -/
def text (typeText : TypeId → String) (node : TreeNode) : String :=
  String.ofList (node.chars typeText)

mutual

/-- The description of a node, as the members of an object. -/
def description (typeText : TypeId → String) : TreeNode → List (String × Json)
  | .control value => [("kind", .string "control"), ("value", .string (typeText value))]
  | .group members =>
      [("kind", .string "group"), ("controls", Json.ofMembers (memberJson typeText members))]
  | .array element =>
      [("kind", .string "array"), ("element", .object (description typeText element))]
termination_by structural node => node

/-- The descriptions of the members, each with whether it may be absent. -/
def memberJson (typeText : TypeId → String) :
    List (String × (Bool × TreeNode)) → List (String × Json)
  | [] => []
  | (name, (optional, node)) :: rest =>
      (name, .object (description typeText node ++ [("optional", .bool optional)]))
        :: memberJson typeText rest
termination_by structural members => members

end

end TreeNode

namespace DerivedForm

/-- The description of a form: its model, its mode, the type of its value, and its tree. -/
def toJson (typeText : TypeId → String) (value : TypeId) (tree : DerivedForm) : Json :=
  .object [
    ("root", .string (typeText tree.model)),
    ("mode", .string tree.mode.text),
    ("value", .string (typeText value)),
    ("tree", .object (tree.root.description typeText))]

end DerivedForm

end ModelForms
