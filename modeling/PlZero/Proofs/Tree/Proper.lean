/-
  PlZero/Proofs/Tree/Proper.lean
  ==============================
  **The trees that the grammar builds**, with and without errors.  A tree is proper at
  the places `L` if every place in it satisfies `L` and every node stands where it may:
  the operator of a unary node is the sign and that of a binary node is not, an assignment
  has as many targets as values and at least one, a read is the only value of its
  assignment, and bodies are lists.  Every tree, proper or not, has an outline
  (`Program.outline_ok`).
-/
import PlZero.Scope.Table
import PlZero.Tree.Outline

namespace PlZero

variable {L : Location → Prop}

/-! ### Expressions -/

/-- An expression other than a read, with places that satisfy `L`. -/
def Expression.Proper (L : Location → Prop) : Expression → Prop
  | .error l => L l
  | .number l _ => L l
  | .identifier l _ _ => L l
  | .read _ => False
  | .unary l op operand => L l ∧ op = .neg ∧ operand.Proper L
  | .binary l op left right => L l ∧ op ≠ .neg ∧ left.Proper L ∧ right.Proper L

def Expression.IsTarget (L : Location → Prop) : Expression → Prop
  | .error l => L l
  | .identifier l _ _ => L l
  | _ => False

theorem Expression.IsTarget.proper {e : Expression} (h : e.IsTarget L) : e.Proper L := by
  cases e with
  | error l => exact h
  | identifier l n s => exact h
  | number l v => exact h.elim
  | read l => exact h.elim
  | unary l op e => exact h.elim
  | binary l op e f => exact h.elim

/-- The two sides of an assignment.  A read is the only value of its assignment. -/
structure Balanced (L : Location → Prop) (targets values : List Expression) : Prop where
  length_eq : targets.length = values.length
  nonempty : targets ≠ []
  targets : ∀ e ∈ targets, e.IsTarget L
  values : (∃ l, L l ∧ values = [.read l]) ∨ ∀ e ∈ values, e.Proper L

/-! ### Constants and types -/

/-- A constant that the grammar builds, with places that satisfy `L`. -/
def Constant.Proper (L : Location → Prop) : Constant → Prop
  | .number l _ _ => L l
  | .named l _ _ => L l
  | .negated l _ operand => L l ∧ operand.Proper L
  | .error l _ => L l
  | .foreign _ => False

/-- A type that the grammar builds, with places that satisfy `L`. -/
def TypeExpr.Proper (L : Location → Prop) : TypeExpr → Prop
  | .subrange lower upper => lower.Proper L ∧ upper.Proper L
  | .named _ _ l => L l
  | .error => True
  | _ => False

/-- What an entry of a program stands for. -/
def Meaning.Proper (L : Location → Prop) : Meaning → Prop
  | .constant tree _ => tree.Proper L
  | .type definition => definition.Proper L
  | .variableOf base => base.Proper L
  | .procedure _ => True

structure Entry.Proper (L : Location → Prop) (e : Entry) : Prop where
  location : L e.location
  meaning : e.meaning.Proper L

theorem Entry.Proper.withLocalScope {e : Entry} (h : e.Proper L) (scope : Nat) :
    (SymbolTable.withLocalScope scope e).Proper L := by
  unfold SymbolTable.withLocalScope
  split
  · exact ⟨h.location, trivial⟩
  · exact h

/-! ### Statements -/

def Statement.IsList : Statement → Prop
  | .list _ _ => True
  | _ => False

/-- A statement that could not be read. -/
def Statement.IsError : Statement → Prop
  | .error _ => True
  | _ => False

mutual

/-- A statement that the grammar builds, with places that satisfy `L`. -/
def Statement.Proper (L : Location → Prop) : Statement → Prop
  | .error l => L l
  | .assign l targets values => L l ∧ Balanced L targets values
  | .repeated l condition body => L l ∧ condition.Proper L ∧ body.Proper L
  | .choice l condition thenBranch elseBranch =>
    L l ∧ condition.Proper L ∧ thenBranch.Proper L ∧ elseBranch.Proper L
  | .write l value => L l ∧ value.Proper L
  | .call l _ _ => L l
  | .skip l => L l
  | .list l statements => L l ∧ Statement.AllProper L statements
  | .guarded l branches => L l ∧ branches ≠ [] ∧ Branch.AllProper L branches

def Statement.AllProper (L : Location → Prop) : List Statement → Prop
  | [] => True
  | s :: rest => s.Proper L ∧ Statement.AllProper L rest

def Branch.Proper (L : Location → Prop) : Branch → Prop
  | .mk l condition body _ => L l ∧ condition.Proper L ∧ body.Proper L ∧ body.IsList

def Branch.AllProper (L : Location → Prop) : List Branch → Prop
  | [] => True
  | b :: rest => b.Proper L ∧ Branch.AllProper L rest

end

theorem Statement.allProper_iff {ss : List Statement} :
    Statement.AllProper L ss ↔ ∀ s ∈ ss, s.Proper L := by
  induction ss with
  | nil => simp [Statement.AllProper]
  | cons s ss ih => simp [Statement.AllProper, ih]

theorem Branch.allProper_iff {bs : List Branch} :
    Branch.AllProper L bs ↔ ∀ b ∈ bs, b.Proper L := by
  induction bs with
  | nil => simp [Branch.AllProper]
  | cons b bs ih => simp [Branch.AllProper, ih]

theorem Statement.Proper.location {s : Statement} (h : s.Proper L) : L s.location := by
  cases s with
  | error l => exact h
  | call l n s => exact h
  | skip l => exact h
  | assign l ts vs => exact h.1
  | repeated l c b => exact h.1
  | choice l c a b => exact h.1
  | write l v => exact h.1
  | list l ss => exact h.1
  | guarded l bs => exact h.1

/-! ### Blocks -/

mutual

/-- A block that the grammar builds, with places that satisfy `L`. -/
def Block.Proper (L : Location → Prop) : Block → Prop
  | .mk l _ procedures body =>
    L l ∧ Procedure.AllProper L procedures ∧ body.Proper L ∧ (body.IsList ∨ body.IsError)

def Procedure.Proper (L : Location → Prop) : Procedure → Prop
  | .mk l _ _ block => L l ∧ block.Proper L

def Procedure.AllProper (L : Location → Prop) : List Procedure → Prop
  | [] => True
  | p :: rest => p.Proper L ∧ Procedure.AllProper L rest

end

theorem Procedure.allProper_iff {ps : List Procedure} :
    Procedure.AllProper L ps ↔ ∀ p ∈ ps, p.Proper L := by
  induction ps with
  | nil => simp [Procedure.AllProper]
  | cons p ps ih => simp [Procedure.AllProper, ih]

theorem Block.Proper.location {b : Block} (h : b.Proper L) : L b.location := by
  cases b with
  | mk l s ps body => exact h.1

/-- A program that the grammar builds, with places that satisfy `L`. -/
structure Program.Proper (L : Location → Prop) (p : Program) : Prop where
  location : L p.location
  block : p.block.Proper L

/-! ### Outlines -/

theorem Expression.text_ok (e : Expression) : ∃ text, e.toNode.expressionText = .ok text := by
  induction e with
  | error l => exact ⟨_, rfl⟩
  | number l v => exact ⟨_, rfl⟩
  | identifier l n s => exact ⟨_, rfl⟩
  | read l => exact ⟨_, rfl⟩
  | unary l op e ih =>
    obtain ⟨text, htext⟩ := ih
    refine ⟨op.text ++ text, ?_⟩
    simp only [Expression.toNode, Node.expressionText, htext]
    rfl
  | binary l op left right ihl ihr =>
    obtain ⟨leftText, hleft⟩ := ihl
    obtain ⟨rightText, hright⟩ := ihr
    refine ⟨"(" ++ leftText ++ " " ++ op.text ++ " " ++ rightText ++ ")", ?_⟩
    simp only [Expression.toNode, Node.expressionText, hleft, hright]
    rfl

theorem Expression.texts_ok (es : List Expression) :
    ∃ text, Node.expressionsText (es.map Expression.toNode) = .ok text := by
  have key : ∃ texts, (es.map Expression.toNode).mapM Node.expressionText = .ok texts := by
    induction es with
    | nil => exact ⟨[], rfl⟩
    | cons e es ih =>
      obtain ⟨text, htext⟩ := e.text_ok
      obtain ⟨texts, htexts⟩ := ih
      refine ⟨text :: texts, ?_⟩
      rw [List.map_cons, List.mapM_cons, htext, htexts]
      rfl
  obtain ⟨texts, htexts⟩ := key
  refine ⟨", ".intercalate texts, ?_⟩
  rw [Node.expressionsText, htexts]
  rfl

theorem Statement.toNodes_eq (done : List Node) (ss : List Statement) :
    Statement.toNodes done ss = done.reverse ++ ss.map Statement.toNode := by
  induction ss generalizing done with
  | nil => simp [Statement.toNodes]
  | cons s ss ih => simp [Statement.toNodes, ih]

theorem Branch.toNodes_eq (done : List NodeBranch) (bs : List Branch) :
    Branch.toNodes done bs = done.reverse ++ bs.map Branch.toNode := by
  induction bs generalizing done with
  | nil => simp [Branch.toNodes]
  | cons b bs ih => simp [Branch.toNodes, ih]

theorem Procedure.toNodes_eq (done : List Node) (ps : List Procedure) :
    Procedure.toNodes done ps = done.reverse ++ ps.map Procedure.toNode := by
  induction ps generalizing done with
  | nil => simp [Procedure.toNodes]
  | cons p ps ih => simp [Procedure.toNodes, ih]

variable (declared : Int → List String)

mutual

theorem Statement.outline_ok (anywhere : Bool) (depth : Nat) (lines : List String) :
    ∀ s : Statement, ∃ ls, s.toNode.outlineFrom declared anywhere depth lines = .ok ls
  | .error l => ⟨_, rfl⟩
  | .call l n scope => ⟨_, rfl⟩
  | .skip l => ⟨_, rfl⟩
  | .assign l targets values => by
    obtain ⟨ts, hts⟩ := Expression.texts_ok targets
    obtain ⟨vs, hvs⟩ := Expression.texts_ok values
    simp only [Statement.toNode, Node.outlineFrom, hts, hvs]
    exact ⟨_, rfl⟩
  | .write l value => by
    obtain ⟨text, htext⟩ := value.text_ok
    simp only [Statement.toNode, Node.outlineFrom, htext]
    exact ⟨_, rfl⟩
  | .repeated l condition body => by
    obtain ⟨text, htext⟩ := condition.text_ok
    simp only [Statement.toNode, Node.outlineFrom, htext]
    exact Statement.outline_ok true (depth + 1) _ body
  | .choice l condition thenBranch elseBranch => by
    obtain ⟨text, htext⟩ := condition.text_ok
    simp only [Statement.toNode, Node.outlineFrom, htext]
    obtain ⟨above, habove⟩ := Statement.outline_ok true (depth + 2)
      (outlineLine (depth + 1) "Then:" ::
        outlineLine depth (toString "If (" ++ toString text ++ toString ")") :: lines) thenBranch
    obtain ⟨ls, hls⟩ := Statement.outline_ok true (depth + 2)
      (outlineLine (depth + 1) "Else:" :: above) elseBranch
    refine ⟨ls, ?_⟩
    show (thenBranch.toNode.outlineFrom _ _ _ _ >>= fun above =>
      elseBranch.toNode.outlineFrom _ _ _ (_ :: above)) = _
    rw [habove]
    exact hls
  | .list l statements => by
    rw [Statement.toNode, Statement.toNodes_eq]
    exact Statement.outlines_ok (depth + 1) _ statements
  | .guarded l branches => by
    rw [Statement.toNode, Branch.toNodes_eq]
    exact Branch.outlines_ok (depth + 1) _ branches

theorem Statement.outlines_ok (depth : Nat) (lines : List String) :
    ∀ ss : List Statement, ∃ ls,
      Node.outlinesFrom declared false depth lines (ss.map Statement.toNode) = .ok ls
  | [] => ⟨lines, rfl⟩
  | s :: rest => by
    obtain ⟨above, habove⟩ := Statement.outline_ok false depth lines s
    obtain ⟨ls, hls⟩ := Statement.outlines_ok depth above rest
    refine ⟨ls, ?_⟩
    rw [List.map_cons, Node.outlinesFrom, habove]
    exact hls

theorem Branch.outline_ok (depth : Nat) (lines : List String) :
    ∀ b : Branch, ∃ ls, b.toNode.outlineFrom declared depth lines = .ok ls
  | .mk l condition body exits => by
    obtain ⟨text, htext⟩ := condition.text_ok
    simp only [Branch.toNode, NodeBranch.outlineFrom, htext]
    exact Statement.outline_ok true (depth + 1) _ body

theorem Branch.outlines_ok (depth : Nat) (lines : List String) :
    ∀ bs : List Branch, ∃ ls,
      NodeBranch.outlinesFrom declared depth lines (bs.map Branch.toNode) = .ok ls
  | [] => ⟨lines, rfl⟩
  | b :: rest => by
    obtain ⟨above, habove⟩ := Branch.outline_ok depth lines b
    obtain ⟨ls, hls⟩ := Branch.outlines_ok depth above rest
    refine ⟨ls, ?_⟩
    rw [List.map_cons, NodeBranch.outlinesFrom, habove]
    exact hls

end

mutual

theorem Block.outline_ok (depth : Nat) (lines : List String) :
    ∀ b : Block, ∃ ls, b.toNode.outlineFrom declared true depth lines = .ok ls
  | .mk l scope procedures body => by
    rw [Block.toNode, Procedure.toNodes_eq, Node.outlineFrom, if_pos rfl]
    obtain ⟨above, habove⟩ := Procedure.outlines_ok (depth + 1)
      ((declared scope).foldl (fun ls d => outlineLine (depth + 1) d :: ls)
        (outlineLine depth s!"Block (scope {(scope : Int)})" :: lines)) procedures
    obtain ⟨ls, hls⟩ := Statement.outline_ok declared false (depth + 1) above body
    refine ⟨ls, ?_⟩
    dsimp only [List.reverse_nil, List.nil_append]
    rw [habove]
    exact hls

theorem Procedure.outline_ok (depth : Nat) (lines : List String) :
    ∀ p : Procedure, ∃ ls, p.toNode.outlineFrom declared true depth lines = .ok ls
  | .mk l name entry block => by
    rw [Procedure.toNode, Node.outlineFrom, if_pos rfl]
    exact Block.outline_ok (depth + 1) _ block

theorem Procedure.outlines_ok (depth : Nat) (lines : List String) :
    ∀ ps : List Procedure, ∃ ls,
      Node.outlinesFrom declared true depth lines (ps.map Procedure.toNode) = .ok ls
  | [] => ⟨lines, rfl⟩
  | p :: rest => by
    obtain ⟨above, habove⟩ := Procedure.outline_ok depth lines p
    obtain ⟨ls, hls⟩ := Procedure.outlines_ok depth above rest
    refine ⟨ls, ?_⟩
    rw [List.map_cons, Node.outlinesFrom, habove]
    exact hls

end

/-- Every program has an outline, whatever is known about its scopes. -/
theorem Program.outline_ok (p : Program) :
    ∃ text, p.toNode.outline declared = .ok text := by
  obtain ⟨lines, hlines⟩ := Block.outline_ok declared 1 [outlineLine 0 "Program"] p.block
  refine ⟨"\n".intercalate lines.reverse, ?_⟩
  have hroot : p.toNode.outlineFrom declared true 0 [] = .ok lines := by
    rw [Program.toNode, Node.outlineFrom, if_pos rfl]
    exact hlines
  rw [Node.outline, hroot]
  rfl

end PlZero
