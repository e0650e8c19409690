/-
  PlZero/Proofs/Token/Lexeme.lean
  ===============================
  **Lexemes and what they denote.**  A lexeme is a word, a run of digits, or an operator of
  one or two characters (`IsLexeme`).  The scanner takes the longest one at the beginning of
  a text, and a single character where there is none (`Lexeme.longest_munched`).  The kind
  and the payload of its token follow from the characters alone (`Denotes`,
  `Lexeme.meaning_denotes`).
-/
import Mathlib.Data.Nat.Digits.Defs
import PlZero.Proofs.Token.Scanned

namespace PlZero

/-! ### Operators -/

namespace Kind

/-- The kinds of operators and delimiters. -/
def operators : List Kind := [
  plus, minus, times, divide, equals, notEquals, lessEquals, less, greaterEquals, greater,
  logAnd, logOr, logNot, assign, range, leftParen, rightParen, leftBracket, rightBracket,
  semicolon, colon, comma, separator]

/-- The kind that one or two characters spell. -/
def ofSign? : List Char → Option Kind
  | [c] => ofChar? c
  | [c, d] => ofPair? c d
  | _ => none

theorem ofSign?_spelling : ∀ k ∈ operators, ofSign? k.spelling.toList = some k := by decide

/-- The tables of the scanner spell the operators as messages do. -/
theorem ofSign?_iff {cs : List Char} {k : Kind} :
    ofSign? cs = some k ↔ k ∈ operators ∧ k.spelling.toList = cs := by
  constructor
  · intro h
    unfold ofSign? at h
    split at h
    · unfold ofChar? at h
      split at h
      all_goals cases h
      all_goals decide
    · unfold ofPair? at h
      split at h
      all_goals cases h
      all_goals decide
    · cases h
  · rintro ⟨hk, rfl⟩
    exact ofSign?_spelling k hk

end Kind

/-! ### Classes of lexemes -/

/-- A letter, and letters, digits and underscores behind it. -/
def IsWord (x : List Char) : Prop :=
  ∃ c cs, x = c :: cs ∧ isLetter c = true ∧ ∀ d ∈ cs, isWordChar d = true

def IsDigits (x : List Char) : Prop := x ≠ [] ∧ ∀ d ∈ x, isDigit d = true

def IsOperator (x : List Char) : Prop := ∃ k ∈ Kind.operators, k.spelling.toList = x

/-- A text that is a lexeme of a program. -/
def IsLexeme (x : List Char) : Prop := IsWord x ∨ IsDigits x ∨ IsOperator x

/-- The lexeme `x` is what the scanner has to take when `rest` stands behind it: the longest
    lexeme at the beginning of the text or, where there is none, the first character. -/
def Munched (x rest : List Char) : Prop :=
  (IsLexeme x ∧ ∀ y tail, y ++ tail = x ++ rest → IsLexeme y → y.length ≤ x.length) ∨
    ((∃ c, x = [c]) ∧ ∀ y tail, y ++ tail = x ++ rest → ¬ IsLexeme y)

theorem isOperator_iff {x : List Char} : IsOperator x ↔ ∃ k, Kind.ofSign? x = some k := by
  simp only [Kind.ofSign?_iff]
  rfl

theorem IsOperator.cases {x : List Char} (h : IsOperator x) :
    (∃ c k, x = [c] ∧ Kind.ofChar? c = some k) ∨
      ∃ c d k, x = [c, d] ∧ Kind.ofPair? c d = some k := by
  obtain ⟨k, hk⟩ := isOperator_iff.mp h
  unfold Kind.ofSign? at hk
  split at hk
  · exact .inl ⟨_, k, rfl, hk⟩
  · exact .inr ⟨_, _, k, rfl, hk⟩
  · cases hk

/-- A character that begins an operator begins neither a word nor a number. -/
theorem IsOperator.head {c : Char} {cs : List Char} (h : IsOperator (c :: cs)) :
    isLetter c = false ∧ isDigit c = false := by
  obtain ⟨k, hk, hspelling⟩ := h
  have key : ∀ k ∈ Kind.operators,
      k.spelling.toList.head?.all (fun c => !isLetter c && !isDigit c) = true := by decide
  simpa [hspelling] using key k hk

theorem isDigit_of_isLetter {c : Char} (h : isLetter c = true) : isDigit c = false := by
  simp only [isLetter, isDigit, Bool.or_eq_true, Bool.and_eq_true, decide_eq_true_eq,
    Bool.and_eq_false_iff, decide_eq_false_iff_not, Char.le_def, UInt32.le_iff_toNat_le] at h ⊢
  have hA : ('A' : Char).val.toNat = 65 := rfl
  have ha : ('a' : Char).val.toNat = 97 := rfl
  have h9 : ('9' : Char).val.toNat = 57 := rfl
  omega

theorem not_isLexeme_nil : ¬ IsLexeme [] := by
  rintro (⟨c, cs, h, -⟩ | ⟨h, -⟩ | h)
  · cases h
  · exact h rfl
  · rcases h.cases with ⟨c, k, h, -⟩ | ⟨c, d, k, h, -⟩
    · cases h
    · cases h

/-- A prefix whose characters satisfy `p` is no longer than all those that do. -/
theorem length_le_takeWhile {p : Char → Bool} {y tail rest : List Char} (h : y ++ tail = rest)
    (hy : ∀ d ∈ y, p d = true) : y.length ≤ (rest.takeWhile p).length := by
  rw [← h, List.takeWhile_append_of_pos hy, List.length_append]
  exact Nat.le_add_right _ _

/-! ### The longest lexeme -/

namespace Lexeme

theorem single_chars (c : Char) : (longest.single c).chars = [c] := (longest_single c).1

theorem longest_word_munched {c : Char} (rest : List Char) (hc : isLetter c = true) :
    Munched (c :: rest.takeWhile isWordChar) (rest.dropWhile isWordChar) := by
  left
  constructor
  · left
    exact ⟨c, _, rfl, hc, fun d hd => List.mem_takeWhile_imp hd⟩
  · intro y tail heq hy
    rw [List.cons_append, List.takeWhile_append_dropWhile] at heq
    cases y with
    | nil => simp
    | cons d y =>
      simp only [List.cons_append, List.cons.injEq] at heq
      obtain ⟨rfl, heq⟩ := heq
      rcases hy with ⟨e, es, hyword, -, hes⟩ | ⟨-, hdigits⟩ | hop
      · obtain ⟨rfl, rfl⟩ := List.cons.inj hyword
        have hle := length_le_takeWhile heq hes
        simpa using hle
      · have hd := hdigits d (by simp)
        rw [isDigit_of_isLetter hc] at hd
        cases hd
      · rw [hop.head.1] at hc
        cases hc

theorem longest_digits_munched {c : Char} (rest : List Char) (hletter : isLetter c = false)
    (hc : isDigit c = true) :
    Munched (c :: rest.takeWhile isDigit) (rest.dropWhile isDigit) := by
  left
  constructor
  · right; left
    refine ⟨List.cons_ne_nil _ _, ?_⟩
    intro d hd
    rcases List.mem_cons.mp hd with rfl | hd
    · exact hc
    · exact List.mem_takeWhile_imp hd
  · intro y tail heq hy
    rw [List.cons_append, List.takeWhile_append_dropWhile] at heq
    cases y with
    | nil => simp
    | cons d y =>
      simp only [List.cons_append, List.cons.injEq] at heq
      obtain ⟨rfl, heq⟩ := heq
      rcases hy with ⟨e, es, hyword, he, -⟩ | ⟨-, hdigits⟩ | hop
      · obtain ⟨rfl, rfl⟩ := List.cons.inj hyword
        rw [hletter] at he
        cases he
      · have hle := length_le_takeWhile heq fun e he => hdigits e (List.mem_cons_of_mem _ he)
        simpa using hle
      · rw [hop.head.2] at hc
        cases hc

/-- What begins with neither a letter nor a digit is no lexeme but an operator. -/
theorem operator_of_isLexeme {c : Char} {y : List Char} (hletter : isLetter c = false)
    (hdigit : isDigit c = false) (hy : IsLexeme (c :: y)) : IsOperator (c :: y) := by
  rcases hy with ⟨e, es, hyword, he, -⟩ | ⟨-, hdigits⟩ | hop
  · obtain ⟨rfl, rfl⟩ := List.cons.inj hyword
    rw [hletter] at he
    cases he
  · have hd := hdigits c (by simp)
    rw [hdigit] at hd
    cases hd
  · exact hop

/-- One character, where no operator of two characters begins. -/
theorem longest_single_munched {c : Char} {rest : List Char} (hletter : isLetter c = false)
    (hdigit : isDigit c = false)
    (hpair : ∀ d ∈ rest.head?, Kind.ofPair? c d = none) : Munched [c] rest := by
  have honly : ∀ y tail, y ++ tail = [c] ++ rest → IsLexeme y →
      y = [c] ∧ ∃ k, Kind.ofChar? c = some k := by
    intro y tail heq hy
    cases y with
    | nil => exact absurd hy not_isLexeme_nil
    | cons d y =>
      simp only [List.cons_append, List.nil_append, List.cons.injEq] at heq
      obtain ⟨rfl, heq⟩ := heq
      rcases (operator_of_isLexeme hletter hdigit hy).cases with
        ⟨e, k, hy, hk⟩ | ⟨e, f, k, hy, hk⟩
      · obtain ⟨rfl, rfl⟩ := List.cons.inj hy
        exact ⟨rfl, k, hk⟩
      · obtain ⟨rfl, rfl⟩ := List.cons.inj hy
        have hnone := hpair f (by simp [← heq])
        rw [hnone] at hk
        cases hk
  cases hchar : Kind.ofChar? c with
  | some k =>
    left
    constructor
    · right; right
      exact isOperator_iff.mpr ⟨k, hchar⟩
    · intro y tail heq hy
      obtain ⟨rfl, -⟩ := honly y tail heq hy
      exact Nat.le_refl _
  | none =>
    right
    refine ⟨⟨c, rfl⟩, ?_⟩
    intro y tail heq hy
    obtain ⟨-, k, hk⟩ := honly y tail heq hy
    rw [hchar] at hk
    cases hk

/-- The scanner takes the longest lexeme there is. -/
theorem longest_munched (c : Char) (rest : List Char) :
    Munched (longest c rest).1.chars (longest c rest).2 := by
  unfold longest
  by_cases hletter : isLetter c = true
  · simp only [if_pos hletter, List.span_eq_takeWhile_dropWhile]
    exact longest_word_munched rest hletter
  · rw [if_neg hletter]
    rw [Bool.not_eq_true] at hletter
    by_cases hdigit : isDigit c = true
    · simp only [if_pos hdigit, List.span_eq_takeWhile_dropWhile]
      exact longest_digits_munched rest hletter hdigit
    · rw [if_neg hdigit]
      rw [Bool.not_eq_true] at hdigit
      cases rest with
      | nil =>
        rw [single_chars]
        exact longest_single_munched hletter hdigit (by simp)
      | cons d behind =>
        dsimp only
        cases hpair : Kind.ofPair? c d with
        | none =>
          dsimp only
          rw [single_chars]
          exact longest_single_munched hletter hdigit (by simpa using hpair)
        | some k =>
          left
          constructor
          · right; right
            exact isOperator_iff.mpr ⟨k, hpair⟩
          · intro y tail heq hy
            cases y with
            | nil => simp
            | cons e y =>
              simp only [chars, List.cons_append, List.cons.injEq] at heq
              obtain ⟨rfl, -⟩ := heq
              rcases (operator_of_isLexeme hletter hdigit hy).cases with
                ⟨e, k, hy, -⟩ | ⟨e, f, k, hy, -⟩
              · simp [hy, chars]
              · simp [hy, chars]

end Lexeme

/-! ### What a lexeme denotes -/

/-- The number that decimal digits write, the first of them the most significant. -/
def decimal (ds : List Char) : Nat := Nat.ofDigits 10 (ds.reverse.map fun d => d.toNat - 48)

theorem digitsValue_eq_decimal (ds : List Char) : digitsValue ds = decimal ds := by
  have key : ∀ (ds : List Char) (n : Nat),
      ds.foldl (fun n d => 10 * n + (d.toNat - 48)) n = 10 ^ ds.length * n + decimal ds := by
    intro ds
    induction ds with
    | nil => simp [decimal]
    | cons d ds ih =>
      intro n
      rw [List.foldl_cons, ih]
      simp only [decimal, List.reverse_cons, List.map_append, Nat.ofDigits_append, List.map_cons,
        List.map_nil, Nat.ofDigits_singleton, List.length_map, List.length_reverse,
        List.length_cons, pow_succ]
      ring
  have h := key ds 0
  rw [Nat.mul_zero, Nat.zero_add] at h
  exact h

/-- The kind and the payload of the token that a lexeme denotes.  A number that is too large
    counts as zero, and a character that begins no lexeme is illegal. -/
inductive Denotes : List Char → Kind → Payload → Prop
  | keyword {k : Kind} (hk : k ∈ Kind.keywords) : Denotes k.spelling.toList k .absent
  | identifier {x : List Char} (hx : IsWord x)
      (hfree : ∀ k ∈ Kind.keywords, k.spelling.toList ≠ x) :
      Denotes x .identifier (.text (String.ofList x))
  | number {x : List Char} (hx : IsDigits x) (hsmall : decimal x ≤ 2 ^ 31 - 1) :
      Denotes x .number (.number (decimal x))
  | tooLarge {x : List Char} (hx : IsDigits x) (hlarge : 2 ^ 31 - 1 < decimal x) :
      Denotes x .number (.number 0)
  | operator {k : Kind} (hk : k ∈ Kind.operators) : Denotes k.spelling.toList k .absent
  | illegal {c : Char} (hc : ¬ IsLexeme [c]) :
      Denotes [c] .illegal (.text (String.singleton c))

/-- The fault of a lexeme that denotes a token of a kind: an illegal character, or a number
    that is too large. -/
def faultOf (x : List Char) (k : Kind) : Option Problem :=
  match k, x with
  | .illegal, [c] => some (.illegalCharacter c)
  | .number, x => if 2 ^ 31 - 1 < decimal x then some .integerTooLarge else none
  | _, _ => none

theorem faultOf_eq_none {x : List Char} {k : Kind} (hillegal : k ≠ .illegal)
    (hnumber : k ≠ .number) : faultOf x k = none := by
  unfold faultOf
  split
  · exact absurd rfl hillegal
  · exact absurd rfl hnumber
  · rfl

theorem Denotes.ne_endOfFile {x : List Char} {k : Kind} {p : Payload} (h : Denotes x k p) :
    k ≠ .endOfFile := by
  have hkeywords : Kind.endOfFile ∉ Kind.keywords := by decide
  have hoperators : Kind.endOfFile ∉ Kind.operators := by decide
  cases h with
  | keyword hk => exact fun heq => hkeywords (heq ▸ hk)
  | operator hk => exact fun heq => hoperators (heq ▸ hk)
  | identifier _ _ => decide
  | number _ _ => decide
  | tooLarge _ _ => decide
  | illegal _ => decide

namespace Lexeme

/-- What the class of a lexeme promises of its characters. -/
def Classified : Lexeme → Prop
  | .word cs => IsWord cs
  | .digits ds => IsDigits ds
  | .operator k cs => k ∈ Kind.operators ∧ k.spelling.toList = cs
  | .illegal c => isLetter c = false ∧ isDigit c = false ∧ Kind.ofChar? c = none

theorem single_classified {c : Char} (hletter : isLetter c = false) (hdigit : isDigit c = false) :
    (longest.single c).Classified := by
  unfold longest.single
  cases hchar : Kind.ofChar? c with
  | none => exact ⟨hletter, hdigit, hchar⟩
  | some k =>
    have hsign : Kind.ofSign? [c] = some k := hchar
    exact Kind.ofSign?_iff.mp hsign

theorem longest_classified (c : Char) (rest : List Char) : (longest c rest).1.Classified := by
  unfold longest
  by_cases hletter : isLetter c = true
  · simp only [if_pos hletter, List.span_eq_takeWhile_dropWhile]
    exact ⟨c, _, rfl, hletter, fun d hd => List.mem_takeWhile_imp hd⟩
  · rw [if_neg hletter]
    rw [Bool.not_eq_true] at hletter
    by_cases hdigit : isDigit c = true
    · simp only [if_pos hdigit, List.span_eq_takeWhile_dropWhile]
      refine ⟨List.cons_ne_nil _ _, ?_⟩
      intro d hd
      rcases List.mem_cons.mp hd with rfl | hd
      · exact hdigit
      · exact List.mem_takeWhile_imp hd
    · rw [if_neg hdigit]
      rw [Bool.not_eq_true] at hdigit
      cases rest with
      | nil => exact single_classified hletter hdigit
      | cons d behind =>
        dsimp only
        cases hpair : Kind.ofPair? c d with
        | none => exact single_classified hletter hdigit
        | some k =>
          have hsign : Kind.ofSign? [c, d] = some k := hpair
          exact Kind.ofSign?_iff.mp hsign

theorem wordToken_denotes {cs : List Char} (h : IsWord cs) :
    Denotes cs (wordToken cs).1 (wordToken cs).2 ∧ faultOf cs (wordToken cs).1 = none := by
  unfold wordToken
  dsimp only
  cases hword : Kind.ofKeyword? (String.ofList cs) with
  | some k =>
    have hk : k ∈ Kind.keywords := List.mem_of_find?_eq_some hword
    have hspelling : k.spelling = String.ofList cs := by
      simpa using List.find?_some hword
    have hcs : k.spelling.toList = cs := by rw [hspelling, String.toList_ofList]
    subst hcs
    have key : ∀ k ∈ Kind.keywords, k ≠ .illegal ∧ k ≠ .number := by decide
    exact ⟨.keyword hk, faultOf_eq_none (key k hk).1 (key k hk).2⟩
  | none =>
    refine ⟨.identifier h ?_, rfl⟩
    intro k hk hspelling
    have hne := List.find?_eq_none.mp hword k hk
    rw [← hspelling, String.ofList_toList] at hne
    exact hne (by simp)

/-- A lexeme denotes the token that the scanner makes of it, and has its fault. -/
theorem meaning_denotes {lexeme : Lexeme} (h : lexeme.Classified) {k : Kind} {p : Payload}
    {fault : Option Problem} (hmeaning : lexeme.meaning = some (k, p, fault)) :
    Denotes lexeme.chars k p ∧ fault = faultOf lexeme.chars k := by
  cases lexeme with
  | word cs =>
    obtain ⟨hdenotes, hfault⟩ := wordToken_denotes h
    cases hmeaning
    exact ⟨hdenotes, hfault.symm⟩
  | digits ds =>
    unfold meaning at hmeaning
    dsimp only at hmeaning
    split at hmeaning
    · cases hmeaning
    · rw [digitsValue_eq_decimal] at hmeaning
      have hmax : maxNumber = 2 ^ 31 - 1 := rfl
      rw [hmax] at hmeaning
      split at hmeaning
      · rename_i hlarge
        cases hmeaning
        exact ⟨.tooLarge h hlarge, (if_pos hlarge).symm⟩
      · rename_i hsmall
        cases hmeaning
        exact ⟨.number h (Nat.le_of_not_lt hsmall), (if_neg hsmall).symm⟩
  | operator k cs =>
    obtain ⟨hk, rfl⟩ := h
    cases hmeaning
    have key : ∀ k ∈ Kind.operators, k ≠ .illegal ∧ k ≠ .number := by decide
    exact ⟨.operator hk, (faultOf_eq_none (key k hk).1 (key k hk).2).symm⟩
  | illegal c =>
    obtain ⟨hletter, hdigit, hchar⟩ := h
    cases hmeaning
    refine ⟨.illegal ?_, rfl⟩
    intro hlexeme
    obtain ⟨k, hk⟩ := isOperator_iff.mp (operator_of_isLexeme hletter hdigit hlexeme)
    have hsome : Kind.ofChar? c = some k := hk
    rw [hchar] at hsome
    cases hsome

end Lexeme

end PlZero
