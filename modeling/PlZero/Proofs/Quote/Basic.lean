/-
  PlZero/Proofs/Quote/Basic.lean
  ==============================
  **The leaves of trees and the tokens that they quote.**  A leaf with a name or a number was
  read off one token and has a place.  `quotes` lists the leaves of a tree, in the order of the
  text.  `Quote.Sited` says where such a leaf may be placed: at its own token, or, where its
  rule was looked for at a token that cannot start it, at this token; the error was reported
  there, and the leaf's own token is the first behind it that can start the rule.  The leaf of a
  type identifier is never placed like that.
-/
import PlZero.Diagnostic.Basic
import PlZero.Grammar.Rule
import PlZero.Scope.Entry
import PlZero.Tree.Program
import Mathlib.Data.List.Infix

namespace PlZero

/-- A leaf of a tree: what it quotes of a token, and its place. -/
inductive Quote
  | identifier (location : Location) (name : String)
  | number (location : Location) (value : Int)
  | constantName (location : Location) (name : String)
  | constantNumber (location : Location) (value : Int)
  | typeName (location : Location) (name : String)
  deriving DecidableEq, Repr

/-! ### Leaves of trees -/

/-- The leaves of an expression. -/
def Expression.quotes : Expression → List Quote
  | .error _ => []
  | .number l value => [.number l value]
  | .identifier l name _ => [.identifier l name]
  | .read _ => []
  | .unary _ _ operand => operand.quotes
  | .binary _ _ left right => left.quotes ++ right.quotes

/-- The leaf of a constant. -/
def Constant.quotes : Constant → List Quote
  | .number l _ value => [.constantNumber l value]
  | .named l _ name => [.constantName l name]
  | .negated _ _ operand => operand.quotes
  | _ => []

/-- The leaves of a type. -/
def TypeExpr.quotes : TypeExpr → List Quote
  | .subrange lower upper => lower.quotes ++ upper.quotes
  | .named name _ l => [.typeName l name]
  | .reference base => base.quotes
  | _ => []

/-- The leaves of what a name was declared as. -/
def Meaning.quotes : Meaning → List Quote
  | .constant tree _ => tree.quotes
  | .type definition => definition.quotes
  | .variableOf base => base.quotes
  | .procedure _ => []

mutual

/-- The leaves of a statement. -/
def Statement.quotes : Statement → List Quote
  | .error _ => []
  | .assign _ targets values =>
    targets.flatMap Expression.quotes ++ values.flatMap Expression.quotes
  | .repeated _ condition body => condition.quotes ++ body.quotes
  | .choice _ condition thenBranch elseBranch =>
    condition.quotes ++ thenBranch.quotes ++ elseBranch.quotes
  | .write _ value => value.quotes
  | .call _ _ _ => []
  | .skip _ => []
  | .list _ statements => Statement.allQuotes statements
  | .guarded _ branches => Branch.allQuotes branches

def Statement.allQuotes : List Statement → List Quote
  | [] => []
  | s :: rest => s.quotes ++ Statement.allQuotes rest

def Branch.quotes : Branch → List Quote
  | .mk _ condition body _ => condition.quotes ++ body.quotes

def Branch.allQuotes : List Branch → List Quote
  | [] => []
  | b :: rest => b.quotes ++ Branch.allQuotes rest

end

theorem Statement.allQuotes_eq (ss : List Statement) :
    Statement.allQuotes ss = ss.flatMap Statement.quotes := by
  induction ss with
  | nil => rfl
  | cons s ss ih => rw [Statement.allQuotes, ih, List.flatMap_cons]

theorem Branch.allQuotes_eq (bs : List Branch) :
    Branch.allQuotes bs = bs.flatMap Branch.quotes := by
  induction bs with
  | nil => rfl
  | cons b bs ih => rw [Branch.allQuotes, ih, List.flatMap_cons]

mutual

/-- The leaves of the statements of a block and of its procedures. -/
def Block.quotes : Block → List Quote
  | .mk _ _ procedures body => Procedure.allQuotes procedures ++ body.quotes

def Procedure.quotes : Procedure → List Quote
  | .mk _ _ _ block => block.quotes

def Procedure.allQuotes : List Procedure → List Quote
  | [] => []
  | p :: rest => p.quotes ++ Procedure.allQuotes rest

end

theorem Procedure.allQuotes_eq (ps : List Procedure) :
    Procedure.allQuotes ps = ps.flatMap Procedure.quotes := by
  induction ps with
  | nil => rfl
  | cons p ps ih => rw [Procedure.allQuotes, ih, List.flatMap_cons]

/-- The leaves of the statements of a program. -/
def Program.quotes (p : Program) : List Quote := p.block.quotes

namespace Quote

/-! ### Tokens that are quoted -/

/-- The place of a leaf. -/
def location : Quote → Location
  | identifier l _ | number l _ | constantName l _ | constantNumber l _ | typeName l _ => l

/-- The rule that reads a leaf. -/
def rule : Quote → Rule
  | identifier _ _ => .lvalue
  | number _ _ => .factor
  | constantName _ _ | constantNumber _ _ => .constant
  | typeName _ _ => .typeIdentifier

/-- A leaf has the name or the value of a token. -/
def Of (t : Token) : Quote → Prop
  | identifier _ x | constantName _ x | typeName _ x =>
    t.kind = .identifier ∧ t.payload.name = x
  | number _ v | constantNumber _ v => t.kind = .number ∧ t.payload.value = v

instance (t : Token) (q : Quote) : Decidable (q.Of t) := by
  cases q <;> exact inferInstanceAs (Decidable (_ ∧ _))

/-- The number that a leaf quotes. -/
def value? : Quote → Option Int
  | number _ v | constantNumber _ v => some v
  | _ => none

/-- A leaf that quotes a number is of a number token. -/
theorem Of.number {t : Token} {q : Quote} {v : Int} (h : q.Of t) (hv : q.value? = some v) :
    t.kind = .number ∧ t.payload.value = v := by
  cases q with
  | number l w => cases hv; exact h
  | constantNumber l w => cases hv; exact h
  | _ => cases hv

/-! ### Places -/

/-- Where a rule that reads the token `t` may have been looked for: at `t`; or before it, at a
    token that cannot start the rule, which was reported, and no token from there up to `t`
    can start it. -/
inductive Sought (r : Rule) (reports : List Diagnostic) (earlier : List Token) (t : Token) :
    Location → Prop
  | here : Sought r reports earlier t t.location
  | before {front passed : List Token} {x : Token} (split : earlier = front ++ x :: passed)
      (reported : ⟨.error, .cannotStart r.title x, x.location⟩ ∈ reports)
      (passedOver : ∀ u ∈ x :: passed, u.kind ∉ r.starts) :
      Sought r reports earlier t x.location

/-- A leaf is read off one of the tokens and placed where its rule was looked for; that of a
    type identifier is placed at its token. -/
def Sited (tokens : List Token) (reports : List Diagnostic) (q : Quote) : Prop :=
  ∃ earlier t later, tokens = earlier ++ t :: later ∧ q.Of t ∧
    Sought q.rule reports earlier t q.location ∧
    (q.rule = .typeIdentifier → q.location = t.location)

variable {r : Rule} {tokens earlier : List Token} {t : Token} {l : Location} {q : Quote}
  {reports further : List Diagnostic}

theorem Sought.mono (h : Sought r reports earlier t l) (hsub : reports ⊆ further) :
    Sought r further earlier t l := by
  cases h with
  | here => exact .here
  | before split reported passedOver => exact .before split (hsub reported) passedOver

theorem Sited.mono (h : q.Sited tokens reports) (hsub : reports ⊆ further) :
    q.Sited tokens further := by
  obtain ⟨earlier, t, later, hsplit, hof, hsought, htype⟩ := h
  exact ⟨earlier, t, later, hsplit, hof, hsought.mono hsub, htype⟩

end Quote

end PlZero
