/-
  PlZero/Proofs/Progress/Loops.lean
  =================================
  **The loops of the grammar take a token in every turn.**  A declaration was chosen by the
  keyword that it takes; a definition takes the name that led into it; further statements,
  targets, values and branches take the sign in front of them, and further operands their
  operator.  So none of these loops needs the bound that it is given (`loops_end`).
-/
import PlZero.Proofs.Progress.Turns

namespace PlZero.Grammar

open Reader

variable {recover : KindSet} {s : ReaderState}

/-! ### The turns of the loops -/

/-- A further part behind a separator. -/
def further {α : Type} (pass : Reader Unit) (part : Reader α) (found : List α) :
    Reader (List α) := do
  pass
  return (← part) :: found

/-- A further operand behind an operator. -/
def operand (operator : Kind → Operator) (part : Reader Expression) (left : Expression) :
    Reader Expression := do
  let sign ← head
  expect sign.kind
  let right ← part
  return .binary sign.location (operator sign.kind) left right

/-- A further declaration of a block, whose procedure is kept if it is one. -/
def furtherDeclaration (block : Nat → KindSet → Reader Block) (recover : KindSet)
    (found : List Procedure) : Reader (List Procedure) := do
  match ← declaration block recover with
  | some procedure => return procedure :: found
  | none => return found

theorem separated_eq {α : Type} (sign : Kind) (pass : Reader Unit) (part : Reader α) :
    separated sign pass part = (do
      let first ← part
      let found ← whileIn {sign} (further pass part) [first]
      return found.reverse) := rfl

theorem joined_eq (kinds : KindSet) (operator : Kind → Operator) (part : Reader Expression)
    (first : Expression) :
    joined kinds operator part first = whileIn kinds (operand operator part) first := rfl

theorem blockOver_eq (statement : KindSet → Reader Statement)
    (block : Nat → KindSet → Reader Block) (scope : Nat) (recover : KindSet) :
    blockOver statement block scope recover =
      attempt .block recover (fun l => .mk l scope [] (.error l)) fun _ => do
        let found ← whileIn Starts.declaration
          (furtherDeclaration block (recover ∪ Starts.block)) []
        let body ← compoundStatement statement recover
        return .mk body.location scope found.reverse body := rfl

/-! ### Turns that take a token -/

theorem further_advances {α : Type} {pass : Reader Unit} {part : Reader α} {found : List α}
    (hpass : Advances pass s) (hpart : ∀ t, Steady part t) :
    Advances (further pass part found) s := by
  apply hpass.bind
  intro _ t
  exact (hpart t).bind fun _ _ => .pure

theorem operand_advances {kinds : KindSet} {operator : Kind → Operator}
    {part : Reader Expression} {left : Expression} (hkinds : .endOfFile ∉ kinds)
    (hhead : s.stream.head.kind ∈ kinds) (hpart : ∀ t, Steady part t) :
    Advances (operand operator part left) s := by
  apply Advances.look
  have hne : s.stream.head.kind ≠ .endOfFile := fun hend => hkinds (hend ▸ hhead)
  apply (Advances.expect hne).bind
  intro _ t
  exact (hpart t).bind fun _ _ => .pure

/-- A definition that is found where it is looked for takes its name. -/
theorem definition_advances {β : Type} {r : Rule} {sign : Kind} {follow : KindSet}
    {meaning : KindSet → Reader β} {declare : String → Location → β → Reader Unit}
    (hhead : s.stream.head.kind ∈ r.starts) (hsign : sign ≠ .endOfFile)
    (hmeaning : ∀ k t, Steady (meaning k) t) (hdeclare : ∀ x l m t, Steady (declare x l m) t) :
    Advances (definition r sign follow meaning declare recover) s := by
  apply Advances.attempt hhead
  intro l t _
  apply Steady.name.advances_bind
  intro x u
  apply Advances.look
  apply (Advances.expect (by decide)).bind
  intro _ v
  apply (Steady.demand hsign).bind
  intro _ w
  apply (hmeaning _ w).bind
  intro m y
  exact (hdeclare _ _ _ y).bind fun _ _ => .demand (by decide)

theorem definitionList_advances {r : Rule} {keyword : Kind} {item : KindSet → Reader Unit}
    (hkeyword : keyword ≠ .endOfFile) (hitem : ∀ k t, Steady (item k) t) :
    Advances (definitionList r keyword item recover) s := by
  apply Advances.certainly
  intro l t _
  apply (Advances.expect hkeyword).bind
  intro _ u
  exact (hitem _ u).bind fun _ _ => .whileIn fun _ w _ => hitem _ w

theorem constantDefinition_steady : Steady (constantDefinition recover) s :=
  definition_steady (by decide) (fun _ _ => constant_steady) fun _ _ _ _ => declareConstant_steady

theorem typeDefinition_steady : Steady (typeDefinition recover) s :=
  definition_steady (by decide) (fun _ _ => typeExpr_steady) fun _ _ _ _ => declareType_steady

theorem variableDeclaration_steady : Steady (variableDeclaration recover) s :=
  definition_steady (by decide) (fun _ _ => typeIdentifier_steady)
    fun _ _ _ _ => declareVariable_steady

theorem procedureHeader_advances : Advances (procedureHeader recover) s := by
  apply Advances.certainly
  intro l t _
  apply (Advances.expect (by decide)).bind
  intro _ u
  apply procedureEntry_steady.bind
  intro entry v
  exact nameAndParens_steady.bind fun _ _ => .pure

section

variable {block : Nat → KindSet → Reader Block} (hblock : ∀ n r t, Steady (block n r) t)
include hblock

theorem procedureDefinition_advances : Advances (procedureDefinition block recover) s := by
  apply Advances.certainly
  intro l t _
  apply procedureHeader_advances.bind
  intro entry u
  apply Steady.bind
  · apply Steady.inScope
    intro scope v
    exact (Steady.demand (by decide)).bind fun _ w => hblock _ _ w
  · intro body v
    exact (Steady.demand (by decide)).bind fun _ _ => .pure

/-- Every declaration takes the keyword that it begins with. -/
theorem declaration_advances : Advances (declaration block recover) s := by
  apply Advances.certainly
  intro l t _
  apply Advances.look
  split
  · exact (definitionList_advances (by decide) fun _ _ => constantDefinition_steady).bind
      fun _ _ => .pure
  · exact (definitionList_advances (by decide) fun _ _ => typeDefinition_steady).bind
      fun _ _ => .pure
  · exact (definitionList_advances (by decide) fun _ _ => variableDeclaration_steady).bind
      fun _ _ => .pure
  · exact (procedureDefinition_advances hblock).bind fun _ _ => .pure
  · exact .unreachable

theorem furtherDeclaration_steady {found : List Procedure} :
    Steady (furtherDeclaration block recover found) s := by
  apply (declaration_steady hblock).bind
  intro read t
  cases read with
  | some procedure => exact .pure
  | none => exact .pure

theorem furtherDeclaration_advances {found : List Procedure} :
    Advances (furtherDeclaration block recover found) s := by
  apply (declaration_advances hblock).bind
  intro read t
  cases read with
  | some procedure => exact .pure
  | none => exact .pure

end

/-! ### The loops -/

/-- A loop is not stopped by its bound: it is the loop that goes on as long as the head token
    is of a kind in `kinds`, and each of its turns takes a token. -/
def Unbounded {α : Type} (kinds : KindSet) (turn : α → Reader α) : Prop :=
  ∀ a s, Unrolled kinds turn a s (whileIn kinds turn a s)

theorem further_unbounded {α : Type} {sign : Kind} {pass : Reader Unit} {part : Reader α}
    (hsign : sign ≠ .endOfFile)
    (hpass : ∀ t : ReaderState, t.stream.head.kind = sign → Advances pass t)
    (hpart : ∀ t, Steady part t) : Unbounded {sign} (further pass part) := by
  apply whileIn_unrolled
  · simpa using hsign.symm
  · intro found t hin
    exact further_advances (hpass t (KindSet.mem_singleton.mp hin)) hpart

/-- Every loop of the reader takes a token in each of its turns, and so does every round of a
    skip. -/
structure LoopsEnd : Prop where
  declarations : ∀ n recover,
    Unbounded Starts.declaration (furtherDeclaration (blockWithin n) recover)
  constantDefinitions : ∀ recover, Unbounded {.identifier} fun _ => constantDefinition recover
  typeDefinitions : ∀ recover, Unbounded {.identifier} fun _ => typeDefinition recover
  variableDeclarations : ∀ recover, Unbounded {.identifier} fun _ => variableDeclaration recover
  statements : ∀ n recover,
    Unbounded {.semicolon} (further (expect .semicolon) (statementWithin n recover))
  targets : ∀ recover,
    Unbounded {.comma} (further (demand .comma Starts.lvalue) (lvalue recover))
  values : ∀ recover,
    Unbounded {.comma} (further (demand .comma Starts.condition) (condition recover))
  branches : ∀ n recover, Unbounded {.separator}
    (further (expect .separator) (doBranch (statementWithin n) recover))
  factors : ∀ n recover, Unbounded multiplicativeKinds
    (operand multiplicative (factorOver (conditionWithin n) recover))
  terms : ∀ n recover, Unbounded additiveKinds
    (operand additive (termOver (conditionWithin n) recover))
  skips : ∀ find (s : Stream), s.head.kind ∉ find → s.head.kind ≠ .endOfFile →
    (∃ n u, Stream.skipTo find s = .error (.longDigitRun n) u ∧ u.ahead = s.ahead ∧
        u.reports = s.reports) ∨
      Stream.skipTo find s = Stream.skipTo find (s.trace (.skipped s.head)).next ∧
        (s.trace (.skipped s.head)).next.ahead.length < s.ahead.length
  parentheses : ∀ n (s : Stream), s.head.kind ≠ .endOfFile →
    (∃ k u, s.closing n = .error (.longDigitRun k) u ∧ u.ahead = s.ahead ∧
        u.reports = s.reports) ∨
      (s.closing n = .ok () s.consumed ∨ ∃ k, s.closing n = s.consumed.closing k) ∧
        s.consumed.ahead.length < s.ahead.length

theorem loops_end : LoopsEnd where
  declarations := fun n _ => whileIn_unrolled (by decide) fun _ _ _ =>
    furtherDeclaration_advances (blockWithin_steady n)
  constantDefinitions := fun _ => whileIn_unrolled (by decide) fun _ _ hin =>
    definition_advances hin (by decide) (fun _ _ => constant_steady)
      fun _ _ _ _ => declareConstant_steady
  typeDefinitions := fun _ => whileIn_unrolled (by decide) fun _ _ hin =>
    definition_advances hin (by decide) (fun _ _ => typeExpr_steady)
      fun _ _ _ _ => declareType_steady
  variableDeclarations := fun _ => whileIn_unrolled (by decide) fun _ _ hin =>
    definition_advances hin (by decide) (fun _ _ => typeIdentifier_steady)
      fun _ _ _ _ => declareVariable_steady
  statements := fun n _ => further_unbounded (by decide) (fun _ _ => .expect (by decide))
    fun _ => statementWithin_steady n _ _
  targets := fun _ => further_unbounded (by decide) (fun _ hhere => .demand (by decide) hhere)
    fun _ => lvalue_steady
  values := fun _ => further_unbounded (by decide) (fun _ hhere => .demand (by decide) hhere)
    fun _ => condition_steady
  branches := fun n _ => further_unbounded (by decide) (fun _ _ => .expect (by decide))
    fun _ => doBranch_steady (statementWithin_steady n)
  factors := fun n _ => whileIn_unrolled (by decide) fun _ _ hin =>
    operand_advances (by decide) hin fun _ => factorOver_steady (conditionWithin_steady n)
  terms := fun n _ => whileIn_unrolled (by decide) fun _ _ hin =>
    operand_advances (by decide) hin fun _ => termOver_steady (conditionWithin_steady n)
  skips := fun _ _ hout hne => Stream.skipTo_round hout hne
  parentheses := fun n _ hne => Stream.closing_round n hne

end PlZero.Grammar
