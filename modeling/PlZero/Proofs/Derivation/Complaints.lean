/-
  PlZero/Proofs/Derivation/Complaints.lean
  ========================================
  **What can be wrong with a derived program**: a name that is declared twice in a block,
  whatever it is declared as, and an assignment with unequal sides.  `Block.complaints`
  lists these mistakes in the order of the text; there are none exactly if the names of
  every block are distinct and every assignment is even (`Block.complaints_eq_nil`).  Nothing
  else is among them (`Block.complaints_admitted`).
-/
import PlZero.Diagnostic.Basic
import PlZero.Proofs.Derivation.Basic

namespace PlZero

/-- Whether a problem is one that a program of the grammar can have. -/
def Problem.isComplaint : Problem → Bool
  | .alreadyDeclared _ _ => true
  | .unequalAssignment => true
  | _ => false

namespace Derivation

/-! ### Assignments -/

/-- An assignment has as many values as targets. -/
def Assignment.Even (a : Assignment) : Prop := a.targets.length = a.values.length

instance (a : Assignment) : Decidable a.Even :=
  inferInstanceAs (Decidable (a.targets.length = a.values.length))

def Assignment.complaints (a : Assignment) : List Diagnostic :=
  if a.Even then [] else [⟨.error, .unequalAssignment, a.sign.val.location⟩]

mutual

def Statement.complaints : Statement → List Diagnostic
  | .assign assignment => assignment.complaints
  | .repeated _ _ _ body => body.complaints
  | .choice _ _ _ thenBranch _ elseBranch => thenBranch.complaints ++ elseBranch.complaints
  | .compound body => body.complaints
  | .guarded _ first more _ => first.complaints ++ DoBranch.complaintsMore more
  | .read _ _ => []
  | .write _ _ => []
  | .call _ _ _ _ => []
  | .skip _ => []

def CompoundStatement.complaints : CompoundStatement → List Diagnostic
  | .mk _ list _ => list.complaints

def StatementList.complaints : StatementList → List Diagnostic
  | .mk first more => first.complaints ++ StatementList.complaintsMore more

def StatementList.complaintsMore : List (TokenOf .semicolon × Statement) → List Diagnostic
  | [] => []
  | (_, statement) :: more => statement.complaints ++ StatementList.complaintsMore more

def DoBranch.complaints : DoBranch → List Diagnostic
  | .mk _ _ body _ => body.complaints

def DoBranch.complaintsMore : List (TokenOf .separator × DoBranch) → List Diagnostic
  | [] => []
  | (_, branch) :: more => branch.complaints ++ DoBranch.complaintsMore more

end

mutual

/-- Every assignment in a statement is even. -/
def Statement.Even : Statement → Prop
  | .assign assignment => assignment.Even
  | .repeated _ _ _ body => body.Even
  | .choice _ _ _ thenBranch _ elseBranch => thenBranch.Even ∧ elseBranch.Even
  | .compound body => body.Even
  | .guarded _ first more _ => first.Even ∧ DoBranch.EvenMore more
  | .read _ _ => True
  | .write _ _ => True
  | .call _ _ _ _ => True
  | .skip _ => True

def CompoundStatement.Even : CompoundStatement → Prop
  | .mk _ list _ => list.Even

def StatementList.Even : StatementList → Prop
  | .mk first more => first.Even ∧ StatementList.EvenMore more

def StatementList.EvenMore : List (TokenOf .semicolon × Statement) → Prop
  | [] => True
  | (_, statement) :: more => statement.Even ∧ StatementList.EvenMore more

def DoBranch.Even : DoBranch → Prop
  | .mk _ _ body _ => body.Even

def DoBranch.EvenMore : List (TokenOf .separator × DoBranch) → Prop
  | [] => True
  | (_, branch) :: more => branch.Even ∧ DoBranch.EvenMore more

end

theorem Assignment.complaints_eq_nil {a : Assignment} : a.complaints = [] ↔ a.Even := by
  unfold Assignment.complaints
  split <;> simp_all

mutual

theorem Statement.complaints_eq_nil : ∀ {c : Statement}, c.complaints = [] ↔ c.Even
  | .assign a => a.complaints_eq_nil
  | .repeated _ _ _ body => body.complaints_eq_nil
  | .choice _ _ _ thenBranch _ elseBranch => by
    rw [Statement.complaints, Statement.Even, List.append_eq_nil_iff,
      thenBranch.complaints_eq_nil, elseBranch.complaints_eq_nil]
  | .compound body => body.complaints_eq_nil
  | .guarded _ first more _ => by
    rw [Statement.complaints, Statement.Even, List.append_eq_nil_iff, first.complaints_eq_nil,
      DoBranch.complaintsMore_eq_nil]
  | .read _ _ => by simp [Statement.complaints, Statement.Even]
  | .write _ _ => by simp [Statement.complaints, Statement.Even]
  | .call _ _ _ _ => by simp [Statement.complaints, Statement.Even]
  | .skip _ => by simp [Statement.complaints, Statement.Even]

theorem CompoundStatement.complaints_eq_nil : ∀ {c : CompoundStatement},
    c.complaints = [] ↔ c.Even
  | .mk _ list _ => list.complaints_eq_nil

theorem StatementList.complaints_eq_nil : ∀ {c : StatementList}, c.complaints = [] ↔ c.Even
  | .mk first more => by
    rw [StatementList.complaints, StatementList.Even, List.append_eq_nil_iff,
      first.complaints_eq_nil, StatementList.complaintsMore_eq_nil]

theorem StatementList.complaintsMore_eq_nil : ∀ {more : List (TokenOf .semicolon × Statement)},
    StatementList.complaintsMore more = [] ↔ StatementList.EvenMore more
  | [] => by simp [StatementList.complaintsMore, StatementList.EvenMore]
  | (_, statement) :: more => by
    rw [StatementList.complaintsMore, StatementList.EvenMore, List.append_eq_nil_iff,
      statement.complaints_eq_nil, StatementList.complaintsMore_eq_nil]

theorem DoBranch.complaints_eq_nil : ∀ {c : DoBranch}, c.complaints = [] ↔ c.Even
  | .mk _ _ body _ => body.complaints_eq_nil

theorem DoBranch.complaintsMore_eq_nil : ∀ {more : List (TokenOf .separator × DoBranch)},
    DoBranch.complaintsMore more = [] ↔ DoBranch.EvenMore more
  | [] => by simp [DoBranch.complaintsMore, DoBranch.EvenMore]
  | (_, branch) :: more => by
    rw [DoBranch.complaintsMore, DoBranch.EvenMore, List.append_eq_nil_iff,
      branch.complaints_eq_nil, DoBranch.complaintsMore_eq_nil]

end

/-! ### Names -/

/-- The name that a token carries. -/
abbrev nameOf (t : Token) : String := t.payload.name

/-- The complaint about a name that is among those declared before. -/
def redeclared (what : Declared) (seen : List String) (t : Token) : List Diagnostic :=
  if nameOf t ∈ seen then [⟨.error, .alreadyDeclared what (nameOf t), t.location⟩] else []

/-- The names that are declared one after another, latest first, behind those before. -/
def namesAfter {sign : Kind} {β : Type} (seen : List String) (ds : List (Definition sign β)) :
    List String :=
  ds.foldl (fun names d => nameOf d.name :: names) seen

def redeclaredAll {sign : Kind} {β : Type} (what : Declared) (seen : List String) :
    List (Definition sign β) → List Diagnostic
  | [] => []
  | d :: more => redeclared what seen d.name ++ redeclaredAll what (nameOf d.name :: seen) more

def Declaration.names (seen : List String) : Declaration → List String
  | .constantList d => namesAfter seen d.all
  | .typeList d => namesAfter seen d.all
  | .variableList d => namesAfter seen d.all
  | .procedure _ name _ _ _ _ _ => nameOf name :: seen

mutual

/-- The complaints about a block, in the order of the text. -/
def Block.complaints : Block → List Diagnostic
  | .mk declarations body => Declaration.complaintsAll [] declarations ++ body.complaints

def Declaration.complaints (seen : List String) : Declaration → List Diagnostic
  | .constantList d => redeclaredAll .constantName seen d.all
  | .typeList d => redeclaredAll .typeName seen d.all
  | .variableList d => redeclaredAll .variableName seen d.all
  | .procedure _ name _ _ _ block _ => redeclared .procedureName seen name ++ block.complaints

def Declaration.complaintsAll (seen : List String) : List Declaration → List Diagnostic
  | [] => []
  | d :: more => d.complaints seen ++ Declaration.complaintsAll (d.names seen) more

end

mutual

/-- The names of a block and of every block in it are distinct, and every assignment in
    them is even. -/
def Block.Correct : Block → Prop
  | .mk declarations body =>
    (declarations.foldl Declaration.names []).Nodup ∧ Declaration.AllCorrect declarations ∧
      body.Even

def Declaration.Correct : Declaration → Prop
  | .constantList _ => True
  | .typeList _ => True
  | .variableList _ => True
  | .procedure _ _ _ _ _ block _ => block.Correct

def Declaration.AllCorrect : List Declaration → Prop
  | [] => True
  | d :: more => d.Correct ∧ Declaration.AllCorrect more

end

/-! ### Programs without complaints -/

theorem namesAfter_suffix {sign : Kind} {β : Type} (seen : List String)
    (ds : List (Definition sign β)) : seen <:+ namesAfter seen ds := by
  induction ds generalizing seen with
  | nil => exact List.suffix_refl _
  | cons d more ih => exact (List.suffix_cons _ _).trans (ih _)

theorem Declaration.names_suffix (seen : List String) (d : Declaration) :
    seen <:+ d.names seen := by
  cases d with
  | constantList d => exact namesAfter_suffix seen d.all
  | typeList d => exact namesAfter_suffix seen d.all
  | variableList d => exact namesAfter_suffix seen d.all
  | procedure => exact List.suffix_cons _ _

theorem foldl_names_suffix (seen : List String) (ds : List Declaration) :
    seen <:+ ds.foldl Declaration.names seen := by
  induction ds generalizing seen with
  | nil => exact List.suffix_refl _
  | cons d more ih => exact (d.names_suffix seen).trans (ih _)

theorem redeclared_eq_nil {what : Declared} {seen : List String} {t : Token}
    (h : seen.Nodup) : redeclared what seen t = [] ↔ (nameOf t :: seen).Nodup := by
  unfold redeclared
  rw [List.nodup_cons]
  split <;> simp_all

theorem redeclaredAll_eq_nil {sign : Kind} {β : Type} {what : Declared} {seen : List String}
    {ds : List (Definition sign β)} (h : seen.Nodup) :
    redeclaredAll what seen ds = [] ↔ (namesAfter seen ds).Nodup := by
  induction ds generalizing seen with
  | nil => exact ⟨fun _ => h, fun _ => rfl⟩
  | cons d more ih =>
    rw [redeclaredAll, List.append_eq_nil_iff, redeclared_eq_nil h]
    constructor
    · rintro ⟨hd, hmore⟩
      exact (ih hd).mp hmore
    · intro hnames
      have hd : (nameOf d.name :: seen).Nodup :=
        hnames.sublist (namesAfter_suffix _ more).sublist
      exact ⟨hd, (ih hd).mpr hnames⟩

mutual

/-- A block is correct exactly if there is nothing to complain of. -/
theorem Block.complaints_eq_nil : ∀ {c : Block}, c.complaints = [] ↔ c.Correct
  | .mk declarations body => by
    rw [Block.complaints, Block.Correct, List.append_eq_nil_iff, body.complaints_eq_nil,
      Declaration.complaintsAll_eq_nil List.nodup_nil, and_assoc]

theorem Declaration.complaints_eq_nil : ∀ {d : Declaration} {seen : List String},
    seen.Nodup → (d.complaints seen = [] ↔ (d.names seen).Nodup ∧ d.Correct)
  | .constantList d, _, h => by
    rw [Declaration.complaints, redeclaredAll_eq_nil h, Declaration.Correct, and_true]
    rfl
  | .typeList d, _, h => by
    rw [Declaration.complaints, redeclaredAll_eq_nil h, Declaration.Correct, and_true]
    rfl
  | .variableList d, _, h => by
    rw [Declaration.complaints, redeclaredAll_eq_nil h, Declaration.Correct, and_true]
    rfl
  | .procedure _ name _ _ _ block _, _, h => by
    rw [Declaration.complaints, List.append_eq_nil_iff, redeclared_eq_nil h,
      block.complaints_eq_nil]
    rfl

theorem Declaration.complaintsAll_eq_nil : ∀ {ds : List Declaration} {seen : List String},
    seen.Nodup → (Declaration.complaintsAll seen ds = [] ↔
      (ds.foldl Declaration.names seen).Nodup ∧ Declaration.AllCorrect ds)
  | [], _, h => ⟨fun _ => ⟨h, trivial⟩, fun _ => rfl⟩
  | d :: more, seen, h => by
    rw [Declaration.complaintsAll, List.append_eq_nil_iff, d.complaints_eq_nil h,
      List.foldl_cons, Declaration.AllCorrect]
    constructor
    · rintro ⟨⟨hd, hcorrect⟩, hmore⟩
      obtain ⟨hnames, hall⟩ := (Declaration.complaintsAll_eq_nil hd).mp hmore
      exact ⟨hnames, hcorrect, hall⟩
    · rintro ⟨hnames, hcorrect, hall⟩
      have hd : (d.names seen).Nodup := hnames.sublist (foldl_names_suffix _ more).sublist
      exact ⟨⟨hd, hcorrect⟩, (Declaration.complaintsAll_eq_nil hd).mpr ⟨hnames, hall⟩⟩

end

/-! ### The problems of programs -/

/-- Diagnostics of nothing but what a program of the grammar can have. -/
def Admitted (ds : List Diagnostic) : Prop := ∀ d ∈ ds, d.problem.isComplaint = true

theorem Admitted.nil : Admitted [] := fun _ hd => absurd hd List.not_mem_nil

theorem Admitted.append {ds ds' : List Diagnostic} (h : Admitted ds) (h' : Admitted ds') :
    Admitted (ds ++ ds') := fun d hd => (List.mem_append.mp hd).elim (h d) (h' d)

theorem Assignment.complaints_admitted (a : Assignment) : Admitted a.complaints := by
  unfold Assignment.complaints
  split
  · exact .nil
  · exact List.forall_mem_singleton.mpr rfl

theorem redeclared_admitted (what : Declared) (seen : List String) (t : Token) :
    Admitted (redeclared what seen t) := by
  unfold redeclared
  split
  · exact List.forall_mem_singleton.mpr rfl
  · exact .nil

theorem redeclaredAll_admitted {sign : Kind} {β : Type} (what : Declared)
    (seen : List String) (ds : List (Definition sign β)) :
    Admitted (redeclaredAll what seen ds) := by
  induction ds generalizing seen with
  | nil => exact .nil
  | cons d more ih => exact (redeclared_admitted what seen d.name).append (ih _)

mutual

theorem Statement.complaints_admitted : ∀ c : Statement, Admitted c.complaints
  | .assign assignment => assignment.complaints_admitted
  | .repeated _ _ _ body => body.complaints_admitted
  | .choice _ _ _ thenBranch _ elseBranch =>
    thenBranch.complaints_admitted.append elseBranch.complaints_admitted
  | .compound body => body.complaints_admitted
  | .guarded _ first more _ => first.complaints_admitted.append (DoBranch.allAdmitted more)
  | .read _ _ => .nil
  | .write _ _ => .nil
  | .call _ _ _ _ => .nil
  | .skip _ => .nil

theorem CompoundStatement.complaints_admitted : ∀ c : CompoundStatement, Admitted c.complaints
  | .mk _ list _ => list.complaints_admitted

theorem StatementList.complaints_admitted : ∀ c : StatementList, Admitted c.complaints
  | .mk first more => first.complaints_admitted.append (StatementList.allAdmitted more)

theorem StatementList.allAdmitted : ∀ more : List (TokenOf .semicolon × Statement),
    Admitted (StatementList.complaintsMore more)
  | [] => .nil
  | (_, statement) :: more =>
    statement.complaints_admitted.append (StatementList.allAdmitted more)

theorem DoBranch.complaints_admitted : ∀ c : DoBranch, Admitted c.complaints
  | .mk _ _ body _ => body.complaints_admitted

theorem DoBranch.allAdmitted : ∀ more : List (TokenOf .separator × DoBranch),
    Admitted (DoBranch.complaintsMore more)
  | [] => .nil
  | (_, branch) :: more => branch.complaints_admitted.append (DoBranch.allAdmitted more)

end

mutual

/-- Names that are taken and unequal assignments are all that is complained of. -/
theorem Block.complaints_admitted : ∀ c : Block, Admitted c.complaints
  | .mk declarations body =>
    (Declaration.allAdmitted [] declarations).append body.complaints_admitted

theorem Declaration.complaints_admitted (seen : List String) :
    ∀ c : Declaration, Admitted (c.complaints seen)
  | .constantList d => redeclaredAll_admitted .constantName seen d.all
  | .typeList d => redeclaredAll_admitted .typeName seen d.all
  | .variableList d => redeclaredAll_admitted .variableName seen d.all
  | .procedure _ name _ _ _ block _ =>
    (redeclared_admitted .procedureName seen name).append block.complaints_admitted

theorem Declaration.allAdmitted (seen : List String) :
    ∀ ds : List Declaration, Admitted (Declaration.complaintsAll seen ds)
  | [] => .nil
  | d :: more => (d.complaints_admitted seen).append (Declaration.allAdmitted _ more)

end

end Derivation

end PlZero
