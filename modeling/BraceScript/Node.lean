import BraceScript.Token

/-!
# Program trees

A program is a tree of labelled branches over leaves. A leaf keeps the kind and the text of its
token and, as far as they are known, its coordinates. Trees can be made by hand, so that labels
and leaf kinds outside the grammar are possible, and a branch can have any number of children.

`Node.leaves` is the sequence of leaves from left to right. `Node.firstLeaf?` finds the first of
them by a search over a list of subtrees still to be looked at, without visiting the others.
-/

namespace BraceScript

/-- The kind of a leaf: that of a token, or a name of its own. -/
inductive LeafKind where
  | token (kind : Kind)
  | other (name : String)
  deriving DecidableEq, Repr

namespace LeafKind

/-- The name of a leaf kind. -/
def name : LeafKind → String
  | token kind => kind.name
  | other name => name

/-- The leaf kind of a given name. -/
def ofName (name : String) : LeafKind :=
  match Kind.ofName? name with
  | some kind => token kind
  | none => other name

end LeafKind

/-- A leaf of a program tree. -/
structure Leaf where
  kind : LeafKind
  text : String
  place : Coordinates
  deriving DecidableEq, Repr

namespace Leaf

/-- The leaf that a token becomes. -/
def ofToken (t : Token) : Leaf :=
  ⟨.token t.kind, t.text, .ofPosition t.start⟩

/-- The place of a leaf whose line is known. -/
def position? (l : Leaf) : Option Position := l.place.position?

end Leaf

/-- The labels of branches: the productions of the grammar, and names of their own. -/
inductive Label where
  | program
  | declaration
  | assignment
  | print
  | expression
  | conditional
  | loop
  | block
  | binary
  | unary
  | other (name : String)
  deriving DecidableEq, Repr

namespace Label

/-- The labels of the grammar. -/
def all : List Label :=
  [program, declaration, assignment, print, expression, conditional, loop, block, binary, unary]

/-- The name of a label. -/
def name : Label → String
  | program => "program"
  | declaration => "vardecl"
  | assignment => "assign"
  | print => "printstmt"
  | expression => "exprstmt"
  | conditional => "ifstmt"
  | loop => "whilestmt"
  | block => "block"
  | binary => "binexpr"
  | unary => "unary"
  | other name => name

/-- The label of a given name. -/
def ofName (name : String) : Label :=
  (all.find? fun label => label.name = name).getD (other name)

end Label

/-- A program tree. -/
inductive Node where
  | leaf (l : Leaf)
  | branch (label : Label) (children : List Node)
  deriving Repr

namespace Node

instance : Inhabited Node := ⟨branch .program []⟩

/-- The leaf that a token becomes, as a tree. -/
def ofToken (t : Token) : Node := leaf (.ofToken t)

/-- The label of a branch. -/
def label? : Node → Option Label
  | leaf _ => none
  | branch label _ => some label

/-- The kind of a leaf. -/
def kind? : Node → Option LeafKind
  | leaf l => some l.kind
  | branch _ _ => none

/-- The children of a branch; a leaf has none. -/
def children : Node → List Node
  | leaf _ => []
  | branch _ children => children

mutual

/-- The leaves of a tree from left to right. -/
def leaves : Node → List Leaf
  | leaf l => [l]
  | branch _ children => forestLeaves children

/-- The leaves of several trees from left to right. -/
def forestLeaves : List Node → List Leaf
  | [] => []
  | n :: rest => leaves n ++ forestLeaves rest

end

mutual

/-- The number of leaves and branches of a tree. -/
def size : Node → Nat
  | leaf _ => 1
  | branch _ children => forestSize children + 1

/-- The number of leaves and branches of several trees. -/
def forestSize : List Node → Nat
  | [] => 0
  | n :: rest => size n + forestSize rest

end

/-- Looks for a leaf in trees that are still to be searched, the first of them first. Each step
    takes off one leaf or branch, so that as many steps as there are of them are enough. -/
def search : Nat → List Node → Option Leaf
  | 0, _ => none
  | _ + 1, [] => none
  | _ + 1, leaf l :: _ => some l
  | steps + 1, branch _ children :: rest => search steps (children ++ rest)

/-- The first leaf of a tree, if it has any. -/
def firstLeaf? (n : Node) : Option Leaf := search n.size [n]

/-- The place of a tree: that of its first leaf. -/
def position? (n : Node) : Option Position := n.firstLeaf?.bind Leaf.position?

/-- The place that a fault in a tree is reported at: that of the operator for an operation, and
    that of the tree for all others. -/
def faultPosition? : Node → Option Position
  | branch .binary (_ :: op :: _) => op.position?
  | n => n.position?

/-- The left spine of an operation: the operand it starts with, then what follows the left operand
    of each operation, innermost first; `outer` holds those already passed. -/
def spine : Node → List (List Node) → Node × List (List Node)
  | branch .binary (left :: rest), outer => spine left (rest :: outer)
  | n, outer => (n, outer)

end Node

end BraceScript
