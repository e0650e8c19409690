/-
  PlZero/Proofs/Printing/Written.lean
  ===================================
  **The printed form of an expression is scanned to the tokens it is written with.**  The
  printer puts parentheses around a binary operation and none around a sign, so a sign can be
  read back only where an expression begins (`Expression.Printable`).

  `Expression.items` lists the tokens of the printed form, each with what is printed behind it.
  A blank, a parenthesis or a sign of one character separates them, so the scanner takes them
  one by one (`Expression.items_apart`).
-/
import PlZero.Proofs.Token.Spelling
import PlZero.Tree.Outline

namespace PlZero

/-! ### Operators -/

namespace Operator

/-- The kind of token that an operator is written with. -/
def kind : Operator → Kind
  | add => .plus | sub => .minus | mul => .times | div => .divide | neg => .minus
  | equals => .equals | notEquals => .notEquals | less => .less | greater => .greater
  | lessEquals => .lessEquals | greaterEquals => .greaterEquals

theorem spelling_kind (op : Operator) : op.kind.spelling = op.text := by cases op <;> rfl

/-- Whether an expression begins at the left operand, which is behind a parenthesis.  A product
    begins with a factor, and a factor does not begin with a sign. -/
def signsLeft (op : Operator) : Bool := decide (op.kind ∉ multiplicativeKinds)

/-- Whether an expression begins at the right operand: only a comparison has two of them. -/
def signsRight (op : Operator) : Bool := decide (op.kind ∈ relationalKinds)

theorem kind_mem_operators (op : Operator) : op.kind ∈ Kind.operators := by cases op <;> decide

end Operator

/-- A token of a kind that carries nothing. -/
def Kind.sign (k : Kind) : Token := ⟨k, .unknown, .absent⟩

theorem Kind.sign_spelling {k : Kind} (hk : k ∈ operators) :
    k.sign.spelling = k.spelling.toList :=
  ((Token.writable_of_sign (.inr hk) .unknown).sign (.inr hk)).2

theorem Operator.sign_spelling (op : Operator) : op.kind.sign.spelling = op.text.toList := by
  rw [Kind.sign_spelling op.kind_mem_operators, op.spelling_kind]

/-! ### Printed forms -/

namespace Expression

/-- An expression whose printed form stands in the grammar: it has no placeholder and no value
    of a read statement, and a sign stands only where an expression begins.  `front` tells
    whether one begins at the expression itself. -/
def Printable : Bool → Expression → Prop
  | _, .error _ => False
  | _, .number _ _ => True
  | _, .identifier _ _ _ => True
  | _, .read _ => False
  | front, .unary _ _ operand => front = true ∧ operand.Printable false
  | _, .binary _ op left right => left.Printable op.signsLeft ∧ right.Printable op.signsRight

instance decidablePrintable : ∀ (front : Bool) (e : Expression), Decidable (e.Printable front)
  | _, .error _ => inferInstanceAs (Decidable False)
  | _, .number _ _ => inferInstanceAs (Decidable True)
  | _, .identifier _ _ _ => inferInstanceAs (Decidable True)
  | _, .read _ => inferInstanceAs (Decidable False)
  | front, .unary _ _ operand =>
    have := decidablePrintable false operand
    inferInstanceAs (Decidable (front = true ∧ operand.Printable false))
  | _, .binary _ op left right =>
    have := decidablePrintable op.signsLeft left
    have := decidablePrintable op.signsRight right
    inferInstanceAs (Decidable (left.Printable op.signsLeft ∧ right.Printable op.signsRight))

/-- How deep the parentheses of the printed form nest. -/
def parentheses : Expression → Nat
  | .unary _ _ operand => operand.parentheses
  | .binary _ _ left right => max left.parentheses right.parentheses + 1
  | _ => 0

/-- What the reader makes of tokens that can be written, in a scope: the names and the numbers
    are those of such tokens, and a sign is no operator between two operands. -/
def Lexed (scope : Nat) : Expression → Prop
  | .error _ => True
  | .number _ value => Token.Writable ⟨.number, .unknown, .number value⟩
  | .identifier _ name k => Token.Writable ⟨.identifier, .unknown, .text name⟩ ∧ k = scope
  | .read _ => True
  | .unary _ op operand => op = .neg ∧ operand.Lexed scope
  | .binary _ op left right => op ≠ .neg ∧ left.Lexed scope ∧ right.Lexed scope

/-- The tokens of the printed form, each with what is printed behind it; behind the last one
    stands `w`. -/
def items : Expression → List Char → List (Token × List Char)
  | .error _, _ => []
  | .number _ value, w => [(⟨.number, .unknown, .number value⟩, w)]
  | .identifier _ name _, w => [(⟨.identifier, .unknown, .text name⟩, w)]
  | .read _, _ => []
  | .unary _ op operand, w => (op.kind.sign, []) :: operand.items w
  | .binary _ op left right, w =>
    (Kind.leftParen.sign, []) :: (left.items [' '] ++
      (op.kind.sign, [' ']) :: (right.items [] ++ [(Kind.rightParen.sign, w)]))

end Expression

theorem spelled_append (xs ys : List (Token × List Char)) :
    spelled (xs ++ ys) = spelled xs ++ spelled ys :=
  List.flatMap_append

/-- The printed form is what its tokens spell. -/
theorem Expression.items_text (e : Expression) {front : Bool} (h : e.Printable front) :
    ∃ text, e.toNode.expressionText = .ok text ∧
      ∀ w, spelled (e.items w) = text.toList ++ w := by
  induction e generalizing front with
  | error l => exact h.elim
  | read l => exact h.elim
  | number l value =>
    refine ⟨toString value, rfl, fun w => ?_⟩
    rw [items, spelled_cons, spelled, List.flatMap_nil, List.append_nil]
    rfl
  | identifier l name scope =>
    refine ⟨name, rfl, fun w => ?_⟩
    rw [items, spelled_cons, spelled, List.flatMap_nil, List.append_nil]
    rfl
  | unary l op operand ih =>
    obtain ⟨text, htext, hspelled⟩ := ih h.2
    refine ⟨op.text ++ text, ?_, fun w => ?_⟩
    · rw [toNode, Node.expressionText, htext]
      rfl
    · rw [items, spelled_cons, hspelled, op.sign_spelling, String.toList_append]
      simp
  | binary l op left right ihl ihr =>
    obtain ⟨leftText, hleft, hspelled⟩ := ihl h.1
    obtain ⟨rightText, hright, hspelled'⟩ := ihr h.2
    refine ⟨"(" ++ leftText ++ " " ++ op.text ++ " " ++ rightText ++ ")", ?_, fun w => ?_⟩
    · rw [toNode, Node.expressionText, hleft, hright]
      rfl
    · have hopen : Kind.leftParen.sign.spelling = ['('] := Kind.sign_spelling (by decide)
      have hclose : Kind.rightParen.sign.spelling = [')'] := Kind.sign_spelling (by decide)
      rw [items, spelled_cons, spelled_append, spelled_cons, spelled_append, hspelled, hspelled',
        spelled_cons, op.sign_spelling, hopen, hclose]
      simp [spelled, String.toList_append]

/-! ### Lexemes that stand apart -/

/-- A text that begins with no character of a word or a number. -/
def Breaks (text : List Char) : Prop := ∀ c ∈ text.head?, isWordChar c = false

theorem takeWhile_breaks {x rest : List Char} {p : Char → Bool} (hx : ∀ d ∈ x, p d = true)
    (hrest : ∀ c ∈ rest.head?, p c = false) :
    (x ++ rest).takeWhile p = x ∧ (x ++ rest).dropWhile p = rest := by
  have hstop : rest.takeWhile p = [] ∧ rest.dropWhile p = rest := by
    cases rest with
    | nil => exact ⟨rfl, rfl⟩
    | cons c rest =>
      have hc := hrest c rfl
      simp [hc]
  rw [List.takeWhile_append_of_pos hx, List.dropWhile_append_of_pos hx, hstop.1, hstop.2]
  exact ⟨List.append_nil x, rfl⟩

theorem isWordChar_of_isDigit {c : Char} (h : isDigit c = true) : isWordChar c = true := by
  simp [isWordChar, h]

namespace Token

variable {t : Token} {rest : List Char}

/-- A name or a number ends where no character of a word follows. -/
theorem Writable.munched_breaks (h : t.Writable) (hk : t.kind = .identifier ∨ t.kind = .number)
    (hrest : Breaks rest) : Munched t.spelling rest := by
  rcases hk with hk | hk
  · obtain ⟨-, ⟨c, cs, hspelling, hc, hcs⟩, -⟩ := h.identifier hk
    obtain ⟨htake, hdrop⟩ := takeWhile_breaks hcs hrest
    have hmunched := Lexeme.longest_word_munched (cs ++ rest) hc
    rwa [htake, hdrop, ← hspelling] at hmunched
  · obtain ⟨n, -, hspelling, -⟩ := h.number hk
    have hdigits : IsDigits t.spelling := hspelling ▸ toDigits_isDigits n
    obtain ⟨hne, hall⟩ := hdigits
    obtain ⟨d, ds, hcons⟩ := List.exists_cons_of_ne_nil hne
    rw [hcons] at hall ⊢
    have hd : isDigit d = true := hall d List.mem_cons_self
    have hletter : isLetter d = false := by
      rw [← Bool.not_eq_true]
      intro hletter
      rw [isDigit_of_isLetter hletter] at hd
      cases hd
    have hstop : ∀ c ∈ rest.head?, isDigit c = false := by
      intro c hc
      rw [← Bool.not_eq_true]
      intro hdigit
      have hword := hrest c hc
      rw [isWordChar_of_isDigit hdigit] at hword
      cases hword
    obtain ⟨htake, hdrop⟩ :=
      takeWhile_breaks (fun e he => hall e (List.mem_cons_of_mem _ he)) hstop
    have hmunched := Lexeme.longest_digits_munched (ds ++ rest) hletter hd
    rwa [htake, hdrop] at hmunched

/-- A quotient is the only token at which a comment could begin. -/
theorem Writable.stuck (h : t.Writable) (hk : t.kind ≠ .divide) : Stuck (t.spelling ++ rest) := by
  have hlexeme := h.isLexeme
  have hdenotes := h.denotes
  cases hspelling : t.spelling with
  | nil => exact absurd (hspelling ▸ hlexeme) not_isLexeme_nil
  | cons c x =>
    rw [hspelling] at hlexeme hdenotes
    constructor
    · intro d hd
      obtain rfl : c = d := by simpa using hd
      exact hlexeme.not_blank c List.mem_cons_self
    · intro tail heq
      obtain ⟨rfl, -⟩ := List.cons.inj heq
      obtain rfl := hlexeme.eq_slash
      have hslash : Denotes ['/'] .divide .absent := .operator (k := .divide) (by decide)
      exact hk (hdenotes.unique hslash).1

end Token

/-- Some signs of one character are not the beginning of any other lexeme. -/
theorem munched_alone {k : Kind} (hk : k ∈ [Kind.leftParen, .rightParen, .minus])
    (rest : List Char) : Munched k.spelling.toList rest := by
  have hpair : ∀ c ∈ ['(', ')', '-'], ∀ d, Kind.ofPair? c d = none := by
    intro c hc d
    simp only [List.mem_cons, List.not_mem_nil, or_false] at hc
    rcases hc with rfl | rfl | rfl <;> rfl
  simp only [List.mem_cons, List.not_mem_nil, or_false] at hk
  rcases hk with rfl | rfl | rfl
  · exact Lexeme.longest_single_munched rfl rfl fun d _ => hpair '(' (by simp) d
  · exact Lexeme.longest_single_munched rfl rfl fun d _ => hpair ')' (by simp) d
  · exact Lexeme.longest_single_munched rfl rfl fun d _ => hpair '-' (by simp) d

/-- A sign that is the beginning of no other lexeme stands apart from whatever is behind it. -/
theorem Apart.alone {k : Kind} {w : List Char} {items : List (Token × List Char)}
    (hk : k ∈ [Kind.leftParen, .rightParen, .minus]) (hw : Trivia w (spelled items))
    (h : Apart items) : Apart ((k.sign, w) :: items) := by
  have hoperator : k ∈ Kind.operators ∧ k ≠ .divide := by
    simp only [List.mem_cons, List.not_mem_nil, or_false] at hk
    rcases hk with rfl | rfl | rfl <;> decide
  have hwritable : k.sign.Writable := Token.writable_of_sign (.inr hoperator.1) _
  refine ⟨hwritable, ?_, hw, ?_, h⟩
  · rw [Kind.sign_spelling hoperator.1]
    exact munched_alone hk _
  · rw [spelled_cons]
    exact hwritable.stuck hoperator.2

/-- A name or a number stands apart from what does not go on with it. -/
theorem Apart.leaf {t : Token} {w : List Char} {items : List (Token × List Char)}
    (ht : t.Writable) (hk : t.kind = .identifier ∨ t.kind = .number)
    (hw : Trivia w (spelled items)) (hbreaks : Breaks (w ++ spelled items)) (h : Apart items) :
    Apart ((t, w) :: items) := by
  refine ⟨ht, ht.munched_breaks hk hbreaks, hw, ?_, h⟩
  rw [spelled_cons]
  refine ht.stuck ?_
  rcases hk with hk | hk <;> simp [hk]

/-- The tokens of a printed form stand apart from each other. -/
theorem Expression.items_apart (e : Expression) {front : Bool} {scope : Nat} {w : List Char}
    {rest : List (Token × List Char)} (hprintable : e.Printable front) (hlexed : e.Lexed scope)
    (hw : Trivia w (spelled rest)) (hbreaks : Breaks (w ++ spelled rest)) (h : Apart rest) :
    Apart (e.items w ++ rest) := by
  induction e generalizing front w rest with
  | error l => exact hprintable.elim
  | read l => exact hprintable.elim
  | number l value => exact .leaf hlexed (.inr rfl) hw hbreaks h
  | identifier l name k => exact .leaf hlexed.1 (.inl rfl) hw hbreaks h
  | unary l op operand ih =>
    obtain ⟨rfl, hoperand⟩ := hlexed
    exact .alone (by simp [Operator.kind]) .none (ih hprintable.2 hoperand hw hbreaks h)
  | binary l op left right ihl ihr =>
    obtain ⟨-, hleft, hright⟩ := hlexed
    let behind := right.items [] ++ (Kind.rightParen.sign, w) :: rest
    have hclose : Apart ((Kind.rightParen.sign, w) :: rest) := .alone (by simp) hw h
    have hbehind : Apart behind := by
      refine ihr hprintable.2 hright .none ?_ hclose
      intro c hc
      rw [List.nil_append, spelled_cons, Kind.sign_spelling (by decide)] at hc
      obtain rfl : ')' = c := Option.some.inj hc
      rfl
    have hsign : Apart ((op.kind.sign, [' ']) :: behind) := by
      have hwritable : op.kind.sign.Writable :=
        Token.writable_of_sign (.inr op.kind_mem_operators) _
      have hends : EndsLexeme ([' '] ++ spelled behind) := by simp [EndsLexeme, blankChars]
      refine ⟨hwritable, hwritable.isLexeme.munched hends, .blank (by decide) .none, ?_, hbehind⟩
      rw [spelled_cons]
      exact hwritable.isLexeme.stuck hends
    have hinside : Apart (left.items [' '] ++ (op.kind.sign, [' ']) :: behind) := by
      refine ihl hprintable.1 hleft (.blank (by decide) .none) ?_ hsign
      intro c hc
      obtain rfl : ' ' = c := Option.some.inj hc
      rfl
    have hopen : Apart ((Kind.leftParen.sign, []) ::
        (left.items [' '] ++ (op.kind.sign, [' ']) :: behind)) := .alone (by simp) .none hinside
    simpa [items, behind] using hopen

/-- The printed form of an expression is scanned to its tokens without a fault. -/
theorem Expression.items_scan (e : Expression) {front : Bool} {scope : Nat}
    (hprintable : e.Printable front) (hlexed : e.Lexed scope) (file : String) :
    ∃ (tokens : List Token) (place : Location), scan (spelled (e.items [])) file =
        (tokens ++ [Token.endOfFile place]).map (Scan.token · none) ∧
      tokens.map Token.symbol = (e.items []).map fun x => x.1.symbol := by
  have hapart : Apart (e.items [] ++ []) :=
    e.items_apart hprintable hlexed .none (by simp [Breaks, spelled]) trivial
  rw [List.append_nil] at hapart
  exact hapart.scan file

end PlZero
