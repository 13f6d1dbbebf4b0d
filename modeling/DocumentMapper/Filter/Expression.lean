import DocumentMapper.Filter.Conditions

/-!
# Filter expressions

A tree of conditions under AND and OR. Joining with an empty tree gives the other one, and joining
trees of the same connective gives one node with all children. Before a tree is compiled it is
simplified: empty parts are dropped, and an AND of leaves becomes one leaf unless a keyword occurs
twice.
-/

namespace DocumentMapper

/-- A connective. -/
inductive Connective where
  | and
  | or
deriving DecidableEq

/-- The operator of a connective in a filter document. -/
def Connective.operator : Connective → String
  | and => "$and"
  | or => "$or"

/-- A tree of conditions. -/
inductive Filter where
  | leaf (conditions : List (String × Value))
  | node (op : Connective) (children : List Filter)

namespace Filter

/-- The filter without conditions. -/
def empty : Filter := .leaf []

instance : Inhabited Filter := ⟨empty⟩

mutual

/-- Whether the tree has no condition at all. -/
def isEmpty : Filter → Bool
  | leaf conditions => conditions.isEmpty
  | node _ children => allEmpty children
termination_by structural f => f

/-- Whether none of the trees has a condition. -/
def allEmpty : List Filter → Bool
  | [] => true
  | f :: fs => isEmpty f && allEmpty fs
termination_by structural fs => fs

end

/-- The children that a tree contributes to a node. -/
def childrenFor (op : Connective) : Filter → List Filter
  | node inner children => if inner = op then children else [node inner children]
  | f => [f]

/-- Two trees under a connective. -/
def join (op : Connective) (a b : Filter) : Filter :=
  if b.isEmpty then a
  else if a.isEmpty then b
  else .node op (a.childrenFor op ++ b.childrenFor op)

/-- Both filters. -/
def and (a b : Filter) : Filter := join .and a b

/-- Either filter. -/
def or (a b : Filter) : Filter := join .or a b

/-- The conditions of a leaf. -/
def asLeaf? : Filter → Option Conditions
  | leaf conditions => some conditions
  | node _ _ => none

/-- The conditions of several leaves as one list, unless a keyword occurs twice or one of the trees
is no leaf. -/
def mergeLeaves? (acc : Conditions) : List Filter → Option Conditions
  | [] => some acc
  | leaf conditions :: rest =>
    if conditions.any fun e => acc.contains e.1 then none
    else mergeLeaves? (acc ++ conditions) rest
  | node _ _ :: _ => none

/-- A node of simplified children. -/
def simplifyNode (op : Connective) (children : List Filter) : Filter :=
  match op with
  | .and =>
    match mergeLeaves? [] children with
    | some merged => .leaf merged
    | none => .node .and children
  | .or => .node .or children

mutual

/-- The simplified tree. -/
def simplify : Filter → Filter
  | leaf conditions => .leaf conditions
  | node op children => simplifyNode op (simplifyAll children)
termination_by structural f => f

/-- The simplified trees, without the empty ones. -/
def simplifyAll : List Filter → List Filter
  | [] => []
  | f :: fs =>
    let s := simplify f
    if s.isEmpty then simplifyAll fs else s :: simplifyAll fs
termination_by structural fs => fs

end

mutual

/-- The filter document of a tree. -/
def compileNode (c : Catalog) (t : DocumentType) : Filter → Drawing Object
  | leaf conditions => compile c t conditions
  | node op children => do
    let compiled ← compileChildren c t children
    return if compiled.isEmpty then [] else [(op.operator, .array compiled)]
termination_by structural f => f

/-- The filter documents of the trees that have conditions. -/
def compileChildren (c : Catalog) (t : DocumentType) : List Filter → Drawing (List Json)
  | [] => return []
  | f :: fs => do
    if f.isEmpty then compileChildren c t fs
    else return .object (← compileNode c t f) :: (← compileChildren c t fs)
termination_by structural fs => fs

end

/-- Simplifies a tree and compiles it. -/
def toQuery (c : Catalog) (t : DocumentType) (f : Filter) : Drawing Object :=
  compileNode c t f.simplify

end Filter

end DocumentMapper
