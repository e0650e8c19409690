/-
  PlZero/Tree/Outline.lean
  ========================
  **The outline of a tree**: one line for each node, indented by its depth.

      Program
        Block (scope 1)
          variable x: integer
          List
            Assign x := (x + 1)

  Outlines are made of loose nodes.  A `Node` is what is left of a tree when only
  the shown parts are kept, and it may hold a node of any kind in any place; a
  place that cannot hold it is found when the outline is made.  The trees that
  the grammar builds turn into loose nodes by `toNode`.

  An outline is made by recursion on the tree, and nothing bounds this recursion.
  The limits on nesting are limits of the reader: a sum of many terms is read
  without any nesting, is a deep tree, and has an outline all the same.
-/
import PlZero.Failure
import PlZero.Tree.Program

namespace PlZero

mutual

/-- A node of a tree, by what an outline shows of it. -/
inductive Node
  | program (block : Node)
  | block (scope : Int) (procedures : List Node) (body : Node)
  | procedure (name : String) (block : Node)
  | errorStatement
  | assign (targets values : List Node)
  | repeated (condition body : Node)
  | choice (condition thenBranch elseBranch : Node)
  | write (value : Node)
  | call (name : String)
  | skip
  | list (statements : List Node)
  | guarded (branches : List NodeBranch)
  | errorExpression
  | number (value : Int)
  | identifier (name : String)
  | read
  | unary (op : Operator) (operand : Node)
  | binary (op : Operator) (left right : Node)
  | foreign (nodeName : String)

/-- A branch of a guarded statement, by what an outline shows of it. -/
inductive NodeBranch
  | mk (condition body : Node) (exits : Bool)

end

instance : Inhabited Node := ⟨.skip⟩

instance : Inhabited NodeBranch := ⟨.mk .read .skip false⟩

/-- The name of a node's kind. -/
def Node.kindName : Node → String
  | .program _ => "Program"
  | .block _ _ _ => "Block"
  | .procedure _ _ => "ProcedureDeclaration"
  | .errorStatement => "ErrorStatement"
  | .assign _ _ => "AssignmentStatement"
  | .repeated _ _ => "WhileStatement"
  | .choice _ _ _ => "IfStatement"
  | .write _ => "WriteStatement"
  | .call _ => "CallStatement"
  | .skip => "SkipStatement"
  | .list _ => "StatementList"
  | .guarded _ => "DoStatement"
  | .errorExpression => "ErrorExpression"
  | .number _ => "NumberExpression"
  | .identifier _ => "IdentifierExpression"
  | .read => "ReadExpression"
  | .unary _ _ => "UnaryExpression"
  | .binary _ _ _ => "BinaryExpression"
  | .foreign nodeName => nodeName

/-! ### Loose nodes of a tree -/

/-- The loose node of an expression. -/
def Expression.toNode : Expression → Node
  | .error _ => .errorExpression
  | .number _ value => .number value
  | .identifier _ name _ => .identifier name
  | .read _ => .read
  | .unary _ op operand => .unary op operand.toNode
  | .binary _ op left right => .binary op left.toNode right.toNode

mutual

/-- The loose node of a statement. -/
def Statement.toNode : Statement → Node
  | .error _ => .errorStatement
  | .assign _ targets values =>
    .assign (targets.map Expression.toNode) (values.map Expression.toNode)
  | .repeated _ condition body => .repeated condition.toNode body.toNode
  | .choice _ condition thenBranch elseBranch =>
    .choice condition.toNode thenBranch.toNode elseBranch.toNode
  | .write _ value => .write value.toNode
  | .call _ name _ => .call name
  | .skip _ => .skip
  | .list _ statements => .list (Statement.toNodes [] statements)
  | .guarded _ branches => .guarded (Branch.toNodes [] branches)

/-- The loose nodes of some statements, after those in `done`, which are in reverse. -/
def Statement.toNodes (done : List Node) : List Statement → List Node
  | [] => done.reverse
  | s :: rest => Statement.toNodes (s.toNode :: done) rest

/-- The loose node of a branch. -/
def Branch.toNode : Branch → NodeBranch
  | .mk _ condition body exits => .mk condition.toNode body.toNode exits

/-- The loose nodes of some branches, after those in `done`, which are in reverse. -/
def Branch.toNodes (done : List NodeBranch) : List Branch → List NodeBranch
  | [] => done.reverse
  | b :: rest => Branch.toNodes (b.toNode :: done) rest

end

mutual

/-- The loose node of a block. -/
def Block.toNode : Block → Node
  | .mk _ scope procedures body =>
    .block scope (Procedure.toNodes [] procedures) body.toNode

/-- The loose node of a procedure. -/
def Procedure.toNode : Procedure → Node
  | .mk _ name _ block => .procedure name block.toNode

/-- The loose nodes of some procedures, after those in `done`, which are in reverse. -/
def Procedure.toNodes (done : List Node) : List Procedure → List Node
  | [] => done.reverse
  | p :: rest => Procedure.toNodes (p.toNode :: done) rest

end

/-- The loose node of a program. -/
def Program.toNode (p : Program) : Node := .program p.block.toNode

/-! ### Expressions -/

/-- The written form of an expression, with parentheses around every binary
    operation. -/
def Node.expressionText : Node → Except UnknownNode String
  | .errorExpression => .ok "<error>"
  | .number value => .ok (toString value)
  | .identifier name => .ok name
  | .read => .ok "read"
  | .unary op operand => do
    let text ← operand.expressionText
    return op.text ++ text
  | .binary op left right => do
    let leftText ← left.expressionText
    let rightText ← right.expressionText
    return "(" ++ leftText ++ " " ++ op.text ++ " " ++ rightText ++ ")"
  | node => .error ⟨.expression, node.kindName⟩

/-- The written forms of several expressions, separated by commas. -/
def Node.expressionsText (nodes : List Node) : Except UnknownNode String := do
  let texts ← nodes.mapM Node.expressionText
  return ", ".intercalate texts

/-! ### Outlines -/

/-- A line of an outline. -/
def outlineLine (depth : Nat) (text : String) : String :=
  String.ofList (List.replicate (2 * depth) ' ') ++ text

mutual

/-- The lines of a node at a depth, before the lines in `lines`; all lines are in
    reverse.  Blocks, procedures and programs are shown `anywhere` but in the body of
    a block and in a list of statements.  `declared` tells what is declared in a
    scope. -/
def Node.outlineFrom (declared : Int → List String) (anywhere : Bool) (depth : Nat)
    (lines : List String) : Node → Except UnknownNode (List String)
  | .program block =>
    if anywhere then
      block.outlineFrom declared true (depth + 1) (outlineLine depth "Program" :: lines)
    else .error ⟨.statement, "Program"⟩
  | .block scope procedures body =>
    if anywhere then do
      let opened := outlineLine depth s!"Block (scope {scope})" :: lines
      let listed := (declared scope).foldl (fun ls d => outlineLine (depth + 1) d :: ls) opened
      let above ← Node.outlinesFrom declared true (depth + 1) listed procedures
      body.outlineFrom declared false (depth + 1) above
    else .error ⟨.statement, "Block"⟩
  | .procedure name block =>
    if anywhere then
      block.outlineFrom declared true (depth + 1)
        (outlineLine depth ("Procedure " ++ name) :: lines)
    else .error ⟨.statement, "ProcedureDeclaration"⟩
  | .errorStatement => .ok (outlineLine depth "<error statement>" :: lines)
  | .assign targets values => do
    let targetTexts ← Node.expressionsText targets
    let valueTexts ← Node.expressionsText values
    return outlineLine depth s!"Assign {targetTexts} := {valueTexts}" :: lines
  | .repeated condition body => do
    let text ← condition.expressionText
    body.outlineFrom declared true (depth + 1) (outlineLine depth s!"While ({text})" :: lines)
  | .choice condition thenBranch elseBranch => do
    let text ← condition.expressionText
    let opened := outlineLine (depth + 1) "Then:" :: outlineLine depth s!"If ({text})" :: lines
    let above ← thenBranch.outlineFrom declared true (depth + 2) opened
    elseBranch.outlineFrom declared true (depth + 2) (outlineLine (depth + 1) "Else:" :: above)
  | .write value => do
    let text ← value.expressionText
    return outlineLine depth ("Write " ++ text) :: lines
  | .call name => .ok (outlineLine depth ("Call " ++ name) :: lines)
  | .skip => .ok (outlineLine depth "Skip" :: lines)
  | .list statements =>
    Node.outlinesFrom declared false (depth + 1) (outlineLine depth "List" :: lines) statements
  | .guarded branches =>
    NodeBranch.outlinesFrom declared (depth + 1) (outlineLine depth "Do" :: lines) branches
  | node => .error ⟨.statement, node.kindName⟩

/-- The lines of several nodes in turn. -/
def Node.outlinesFrom (declared : Int → List String) (anywhere : Bool) (depth : Nat)
    (lines : List String) : List Node → Except UnknownNode (List String)
  | [] => .ok lines
  | node :: rest => do
    let above ← node.outlineFrom declared anywhere depth lines
    Node.outlinesFrom declared anywhere depth above rest

/-- The lines of a branch. -/
def NodeBranch.outlineFrom (declared : Int → List String) (depth : Nat)
    (lines : List String) : NodeBranch → Except UnknownNode (List String)
  | .mk condition body exits => do
    let text ← condition.expressionText
    let suffix := if exits then " exit" else ""
    body.outlineFrom declared true (depth + 1)
      (outlineLine depth s!"Branch ({text}){suffix}" :: lines)

/-- The lines of several branches in turn. -/
def NodeBranch.outlinesFrom (declared : Int → List String) (depth : Nat)
    (lines : List String) : List NodeBranch → Except UnknownNode (List String)
  | [] => .ok lines
  | branch :: rest => do
    let above ← branch.outlineFrom declared depth lines
    NodeBranch.outlinesFrom declared depth above rest

end

/-- The outline of a node, with what `declared` tells of each scope. -/
def Node.outline (declared : Int → List String) (node : Node) : Except UnknownNode String := do
  let lines ← node.outlineFrom declared true 0 []
  return "\n".intercalate lines.reverse

end PlZero
