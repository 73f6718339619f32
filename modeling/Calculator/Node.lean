import Calculator.Expression

/-!
# Nodes and Outlines

A uniform view of an expression tree, in which tokens are nodes as well: every node has a kind
and a list of children, and tokens have none.

The **outline** of a node lists the node and its descendants in preorder, one a line, with its
depth, its kind and, for a token that has one, its value. Texts and positions are no part of
an outline. On paper a line is indented by four columns a level.

* `Node.children`, `Node.descendant?` — the children, and the node at the end of a path;
* `Node.outline` — the lines of the outline;
* `Node.outlineText` — the outline on paper.
-/

namespace Calculator

/-- A token or an expression as a place in a tree. -/
inductive Node
  /-- A token, which has no children. -/
  | token (t : Token)
  /-- An expression, whose children are its parts. -/
  | expression (e : Expression)
deriving DecidableEq

/-- The kinds of nodes. -/
inductive Node.Kind
  /-- A token of the given kind. -/
  | token (k : Token.Kind)
  /-- A numeral as an expression. -/
  | number
  /-- An operator between two operands. -/
  | binary
  /-- An expression in parentheses. -/
  | grouped
deriving DecidableEq

namespace Node.Kind

/-- The name of a kind, as outlines print it. -/
def name : Node.Kind → String
  | token k => k.name
  | number => "NumberExpression"
  | binary => "BinaryExpression"
  | grouped => "GroupedExpression"

/-- Different kinds have different names. -/
theorem name_injective {j k : Node.Kind} (h : j.name = k.name) : j = k := by
  have tokens : ∀ l : Token.Kind, l.name ≠ "NumberExpression" ∧ l.name ≠ "BinaryExpression" ∧
      l.name ≠ "GroupedExpression" := by
    intro l
    cases l with
    | operator o => cases o <;> simp [Token.Kind.name]
    | _ => simp [Token.Kind.name]
  cases j with
  | token l =>
    cases k with
    | token m => rw [Token.Kind.name_injective h]
    | _ => simp [name, tokens] at h
  | _ =>
    cases k with
    | token m => simp [name, (tokens m).1.symm, (tokens m).2.1.symm, (tokens m).2.2.symm] at h
    | _ => simp_all [name]

end Node.Kind

/-- The kind of an expression. -/
def Expression.kind : Expression → Node.Kind
  | number _ => .number
  | binary _ _ _ => .binary
  | grouped _ _ _ => .grouped

/-- The parts of an expression from left to right. -/
def Expression.children : Expression → List Node
  | number t => [.token t]
  | binary left operator right => [.expression left, .token operator, .expression right]
  | grouped opening inner closing => [.token opening, .expression inner, .token closing]

namespace Node

/-- The kind of a node. -/
def kind : Node → Node.Kind
  | token t => .token t.kind
  | expression e => e.kind

/-- The children of a node from left to right. -/
def children : Node → List Node
  | token _ => []
  | expression e => e.children

/-- The node that is reached by following child indices, if the path stays in the tree. -/
def descendant? : List Nat → Node → Option Node
  | [], n => some n
  | i :: path, n => n.children[i]?.bind (descendant? path)

/-- A line of an outline. -/
structure Line where
  /-- How many levels the node lies below the top of the outline. -/
  depth : Nat
  /-- The kind of the node. -/
  kind : Node.Kind
  /-- The value of the node, if it is a token that has one. -/
  value : Option Int32
deriving DecidableEq

/-- A line on paper: four columns a level, the name of the kind, and the value if there is
one. -/
def Line.text (l : Line) : String :=
  String.ofList (List.replicate (4 * l.depth) ' ') ++ l.kind.name ++
    l.value.elim "" (fun v => " " ++ Text.Numeral.ofInt32 v) ++ "\n"

/-- The line of a token. -/
def tokenLine (depth : Nat) (t : Token) : Line :=
  ⟨depth, .token t.kind, t.value⟩

/-- The lines of an expression that lies at a depth, in preorder. -/
def expressionLines (depth : Nat) : Expression → List Line
  | .number t => [⟨depth, .number, none⟩, tokenLine (depth + 1) t]
  | .binary left operator right =>
    ⟨depth, .binary, none⟩ ::
      (expressionLines (depth + 1) left ++ tokenLine (depth + 1) operator ::
        expressionLines (depth + 1) right)
  | .grouped opening inner closing =>
    ⟨depth, .grouped, none⟩ :: tokenLine (depth + 1) opening ::
      (expressionLines (depth + 1) inner ++ [tokenLine (depth + 1) closing])

/-- The **outline of a node**: the node and its descendants in preorder. -/
def outline : Node → List Line
  | token t => [tokenLine 0 t]
  | expression e => expressionLines 0 e

/-- The outline of a node on paper. -/
def outlineText (n : Node) : String :=
  String.join (n.outline.map Line.text)

end Node

end Calculator
