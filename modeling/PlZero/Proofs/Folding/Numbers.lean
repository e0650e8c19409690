/-
  PlZero/Proofs/Folding/Numbers.lean
  ==================================
  **The numbers of trees and of sources.**  `numbers` lists the values of the number nodes of a
  tree, in the order of the text.  A number token of a source carries a value from zero up to
  `maxNumber`, also where more was written (`scan_inRange`).
-/
import PlZero.Proofs.Quote.Basic
import PlZero.Proofs.Token.Scanned
import PlZero.Scope.Table

namespace PlZero

/-! ### Numbers of trees -/

/-- A value that a number token may carry. -/
def InRange (v : Int) : Prop := 0 ≤ v ∧ v ≤ maxNumber

instance : DecidablePred InRange := fun _ => inferInstanceAs (Decidable (_ ∧ _))

/-- The values of the numbers in an expression. -/
def Expression.numbers : Expression → List Int
  | .error _ => []
  | .number _ value => [value]
  | .identifier _ _ _ => []
  | .read _ => []
  | .unary _ _ operand => operand.numbers
  | .binary _ _ left right => left.numbers ++ right.numbers

/-- The values of the numbers in a constant. -/
def Constant.numbers : Constant → List Int
  | .number _ _ value => [value]
  | .negated _ _ operand => operand.numbers
  | _ => []

/-- The values of the numbers in a type. -/
def TypeExpr.numbers : TypeExpr → List Int
  | .subrange lower upper => lower.numbers ++ upper.numbers
  | .reference base => base.numbers
  | _ => []

/-- The values of the numbers in what a name was declared as. -/
def Meaning.numbers : Meaning → List Int
  | .constant tree _ => tree.numbers
  | .type definition => definition.numbers
  | .variableOf base => base.numbers
  | .procedure _ => []

mutual

/-- The values of the numbers in a statement. -/
def Statement.numbers : Statement → List Int
  | .error _ => []
  | .assign _ targets values =>
    targets.flatMap Expression.numbers ++ values.flatMap Expression.numbers
  | .repeated _ condition body => condition.numbers ++ body.numbers
  | .choice _ condition thenBranch elseBranch =>
    condition.numbers ++ thenBranch.numbers ++ elseBranch.numbers
  | .write _ value => value.numbers
  | .call _ _ _ => []
  | .skip _ => []
  | .list _ statements => Statement.allNumbers statements
  | .guarded _ branches => Branch.allNumbers branches

def Statement.allNumbers : List Statement → List Int
  | [] => []
  | s :: rest => s.numbers ++ Statement.allNumbers rest

def Branch.numbers : Branch → List Int
  | .mk _ condition body _ => condition.numbers ++ body.numbers

def Branch.allNumbers : List Branch → List Int
  | [] => []
  | b :: rest => b.numbers ++ Branch.allNumbers rest

end

mutual

/-- The values of the numbers in the statements of a block and of its procedures. -/
def Block.numbers : Block → List Int
  | .mk _ _ procedures body => Procedure.allNumbers procedures ++ body.numbers

def Procedure.numbers : Procedure → List Int
  | .mk _ _ _ block => block.numbers

def Procedure.allNumbers : List Procedure → List Int
  | [] => []
  | p :: rest => p.numbers ++ Procedure.allNumbers rest

end

/-- The values of the numbers in the statements of a program. -/
def Program.numbers (p : Program) : List Int := p.block.numbers

/-! ### The numbers that are quoted -/

theorem Expression.numbers_eq (e : Expression) : e.numbers = e.quotes.filterMap Quote.value? := by
  induction e with
  | unary l op operand ih => exact ih
  | binary l op left right hleft hright =>
    simp only [numbers, quotes, List.filterMap_append, hleft, hright]
  | _ => rfl

theorem Constant.numbers_eq (c : Constant) : c.numbers = c.quotes.filterMap Quote.value? := by
  induction c with
  | negated l scope operand ih => exact ih
  | _ => rfl

theorem TypeExpr.numbers_eq (t : TypeExpr) : t.numbers = t.quotes.filterMap Quote.value? := by
  induction t with
  | subrange lower upper =>
    simp only [numbers, quotes, List.filterMap_append, Constant.numbers_eq]
  | reference base ih => exact ih
  | _ => rfl

theorem Meaning.numbers_eq (m : Meaning) : m.numbers = m.quotes.filterMap Quote.value? := by
  cases m with
  | constant tree value => exact tree.numbers_eq
  | type definition => exact definition.numbers_eq
  | variableOf base => exact base.numbers_eq
  | procedure scope => rfl

/-- What is listed of the parts of a tree is listed of their leaves. -/
theorem flatMap_numbers {α : Type} {xs : List α} {numbers : α → List Int} {quotes : α → List Quote}
    (h : ∀ x ∈ xs, numbers x = (quotes x).filterMap Quote.value?) :
    xs.flatMap numbers = (xs.flatMap quotes).filterMap Quote.value? := by
  rw [List.filterMap_flatMap]
  exact List.flatMap_congr h

mutual

theorem Statement.numbers_eq : (s : Statement) → s.numbers = s.quotes.filterMap Quote.value?
  | .error _ | .call _ _ _ | .skip _ => rfl
  | .assign _ targets values => by
    simp only [Statement.numbers, Statement.quotes, List.filterMap_append,
      flatMap_numbers fun e _ => Expression.numbers_eq e]
  | .repeated _ condition body => by
    simp only [Statement.numbers, Statement.quotes, List.filterMap_append, condition.numbers_eq,
      body.numbers_eq]
  | .choice _ condition thenBranch elseBranch => by
    simp only [Statement.numbers, Statement.quotes, List.filterMap_append, condition.numbers_eq,
      thenBranch.numbers_eq, elseBranch.numbers_eq]
  | .write _ value => value.numbers_eq
  | .list _ statements => Statement.allNumbers_quotes statements
  | .guarded _ branches => Branch.allNumbers_quotes branches

theorem Statement.allNumbers_quotes : (ss : List Statement) →
    Statement.allNumbers ss = (Statement.allQuotes ss).filterMap Quote.value?
  | [] => rfl
  | s :: ss => by
    simp only [Statement.allNumbers, Statement.allQuotes, List.filterMap_append, s.numbers_eq,
      Statement.allNumbers_quotes ss]

theorem Branch.numbers_eq : (b : Branch) → b.numbers = b.quotes.filterMap Quote.value?
  | .mk _ condition body _ => by
    simp only [Branch.numbers, Branch.quotes, List.filterMap_append, condition.numbers_eq,
      body.numbers_eq]

theorem Branch.allNumbers_quotes : (bs : List Branch) →
    Branch.allNumbers bs = (Branch.allQuotes bs).filterMap Quote.value?
  | [] => rfl
  | b :: bs => by
    simp only [Branch.allNumbers, Branch.allQuotes, List.filterMap_append, b.numbers_eq,
      Branch.allNumbers_quotes bs]

end

mutual

theorem Block.numbers_eq : (b : Block) → b.numbers = b.quotes.filterMap Quote.value?
  | .mk _ _ procedures body => by
    simp only [Block.numbers, Block.quotes, List.filterMap_append, body.numbers_eq,
      Procedure.allNumbers_quotes procedures]

theorem Procedure.numbers_eq : (p : Procedure) → p.numbers = p.quotes.filterMap Quote.value?
  | .mk _ _ _ block => block.numbers_eq

theorem Procedure.allNumbers_quotes : (ps : List Procedure) →
    Procedure.allNumbers ps = (Procedure.allQuotes ps).filterMap Quote.value?
  | [] => rfl
  | p :: ps => by
    simp only [Procedure.allNumbers, Procedure.allQuotes, List.filterMap_append, p.numbers_eq,
      Procedure.allNumbers_quotes ps]

end

theorem Program.numbers_eq (p : Program) : p.numbers = p.quotes.filterMap Quote.value? :=
  p.block.numbers_eq

/-! ### Numbers in range -/

abbrev Meaning.InRange (m : Meaning) : Prop := ∀ v ∈ m.numbers, PlZero.InRange v

/-- The numbers of a symbol table are in range. -/
def SymbolTable.Bounded (t : SymbolTable) : Prop :=
  ∀ (k : Nat) (e : Entry), t.entries[k]? = some e → e.meaning.InRange

/-! ### Numbers of sources -/

/-- The number tokens among scans carry values in range. -/
def Scan.InRange (scans : List Scan) : Prop :=
  ∀ t fault, Scan.token t fault ∈ scans → t.kind = .number → PlZero.InRange t.payload.value

theorem Lexeme.meaning_inRange {lexeme : Lexeme} {k : Kind} {p : Payload}
    {fault : Option Problem} (h : lexeme.meaning = some (k, p, fault)) : InRange p.value := by
  have hzero : InRange 0 := by decide
  cases lexeme with
  | word cs =>
    simp only [meaning, wordToken] at h
    split at h
    · cases h
      exact hzero
    · cases h
      exact hzero
  | digits ds =>
    simp only [meaning] at h
    split at h
    · cases h
    · split at h
      · cases h
        exact hzero
      · rename_i hsmall
        cases h
        exact ⟨Int.natCast_nonneg _, Int.ofNat_le.mpr (Nat.le_of_not_lt hsmall)⟩
  | operator k cs =>
    cases h
    exact hzero
  | illegal c =>
    cases h
    exact hzero

/-- The numbers of a source are in range. -/
theorem scan_inRange (source : List Char) (file : String) :
    Scan.InRange (scan source file) := by
  apply scan_forall
  · intro l hk
    cases hk
  · intro ch rest k p fault l hmeaning _
    exact Lexeme.meaning_inRange hmeaning

end PlZero
