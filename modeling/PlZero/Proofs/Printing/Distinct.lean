/-
  PlZero/Proofs/Printing/Distinct.lean
  ====================================
  **Different expressions are printed differently.**  The printed form of an expression
  determines the expression, up to the places and the scope numbers, which are not printed
  (`expressionText_eq_iff`).  A minus is printed for a sign and for a difference, and the text
  of a placeholder is made of operators and letters; still a printed form can be read in one
  way only, even where more text stands behind it (`Expression.printed_append_inj`).

  What a text begins with tells a sign, an operation and a leaf apart.  A leaf goes up to the
  next blank or closing parenthesis, for it holds neither, and so does an operator.
-/
import PlZero.Proofs.Printing.Written

namespace PlZero

/-! ### Expressions without places -/

/-- The names that the scanner makes identifiers of. -/
def ScannedName (name : String) : Prop :=
  ∃ source file place fault, Scan.token ⟨.identifier, place, .text name⟩ fault ∈ scan source file

theorem ScannedName.word {name : String} (h : ScannedName name) :
    IsWord name.toList ∧ name ≠ "read" := by
  obtain ⟨source, file, place, fault, hscan⟩ := h
  obtain ⟨other, hsame, hword, hfree⟩ := scan_writable source file _ _ hscan (by simp)
  obtain rfl : name = other := Payload.text.inj hsame
  exact ⟨hword, fun heq => hfree .kwRead (by decide) heq.symm⟩

/-- The characters that a leaf or an operator may be printed with. -/
def unbroken (c : Char) : Bool := c != ' ' && c != ')'

namespace Operator

theorem text_unbroken (op : Operator) : ∀ c ∈ op.text.toList, unbroken c = true := by
  have hall : op.text.toList.all unbroken = true := by cases op <;> decide
  exact List.all_eq_true.mp hall

/-- The operator between two operands that is printed as a text. -/
theorem find_text {op : Operator} (h : op ≠ .neg) :
    all.find? (fun other => other.text == op.text) = some op := by
  cases op <;> first | rfl | exact absurd rfl h

end Operator

namespace Expression

variable {e e' : Expression}

/-- An expression without what is not printed: its places and scope numbers. -/
def unplaced : Expression → Expression
  | .error _ => .error .unknown
  | .number _ value => .number .unknown value
  | .identifier _ name _ => .identifier .unknown name 0
  | .read _ => .read .unknown
  | .unary _ op operand => .unary .unknown op operand.unplaced
  | .binary _ op left right => .binary .unknown op left.unplaced right.unplaced

theorem unplaced_toNode (e : Expression) : e.unplaced.toNode = e.toNode := by
  induction e with
  | error l => rfl
  | number l value => rfl
  | identifier l name scope => rfl
  | read l => rfl
  | unary l op operand ih => rw [unplaced, toNode, toNode, ih]
  | binary l op left right ihl ihr => rw [unplaced, toNode, toNode, ihl, ihr]

/-- An expression as programs have them: numbers are not negative, names are those of
    identifiers, a sign is a minus, and there is no such sign between two operands. -/
def Natural : Expression → Prop
  | .error _ => True
  | .number _ value => 0 ≤ value
  | .identifier _ name _ => ScannedName name
  | .read _ => True
  | .unary _ op operand => op = .neg ∧ operand.Natural
  | .binary _ op left right => op ≠ .neg ∧ left.Natural ∧ right.Natural

/-- The characters of the printed form. -/
def printed : Expression → List Char
  | .error _ => ['<', 'e', 'r', 'r', 'o', 'r', '>']
  | .number _ value => (toString value).toList
  | .identifier _ name _ => name.toList
  | .read _ => ['r', 'e', 'a', 'd']
  | .unary _ op operand => op.text.toList ++ operand.printed
  | .binary _ op left right =>
    '(' :: (left.printed ++ ' ' :: (op.text.toList ++ ' ' :: (right.printed ++ [')'])))

theorem expressionText_printed (e : Expression) :
    e.toNode.expressionText = .ok (String.ofList e.printed) := by
  induction e with
  | error l => rfl
  | number l value => rw [toNode, Node.expressionText, printed, String.ofList_toList]
  | identifier l name scope => rw [toNode, Node.expressionText, printed, String.ofList_toList]
  | read l => rfl
  | unary l op operand ih =>
    rw [toNode, Node.expressionText, ih, printed, String.ofList_append, String.ofList_toList]
    rfl
  | binary l op left right ihl ihr =>
    rw [toNode, Node.expressionText, ihl, ihr]
    refine congrArg Except.ok (String.toList_inj.mp ?_)
    have hopen : "(".toList = ['('] := rfl
    have hblank : " ".toList = [' '] := rfl
    have hclose : ")".toList = [')'] := rfl
    simp only [printed, String.toList_append, String.toList_ofList, hopen, hblank, hclose,
      List.append_assoc, List.cons_append, List.nil_append]

/-! ### Leaves -/

/-- What is printed before the first operand; a leaf has none. -/
def opening : Expression → Option Char
  | .unary _ _ _ => some '-'
  | .binary _ _ _ _ => some '('
  | _ => none

/-- What may stand behind a printed form: nothing, a blank, or a closing parenthesis. -/
def Breaking (text : List Char) : Prop := ∀ c ∈ text.head?, unbroken c = false

theorem ne_of_isWordChar {c d : Char} (hc : isWordChar c = true) (hd : isWordChar d = false) :
    c ≠ d := by
  rintro rfl
  rw [hc] at hd
  cases hd

theorem unbroken_of_isWordChar {c : Char} (h : isWordChar c = true) : unbroken c = true := by
  have hblank : c ≠ ' ' := ne_of_isWordChar h (by decide)
  have hparen : c ≠ ')' := ne_of_isWordChar h (by decide)
  simp [unbroken, hblank, hparen]

/-- The leaf that is printed as a text, without its place. -/
def ofLeafText (text : List Char) : Expression :=
  if text = "<error>".toList then .error .unknown
  else if text = "read".toList then .read .unknown
  else if text.all isDigit then .number .unknown (decimal text)
  else .identifier .unknown (String.ofList text) 0

theorem ofLeafText_digits {text : List Char} (h : IsDigits text) :
    ofLeafText text = .number .unknown (decimal text) := by
  have hnot : ∀ c, isDigit c = false → c ∉ text := by
    intro c hc hmem
    rw [h.2 c hmem] at hc
    cases hc
  have herror : text ≠ "<error>".toList := fun heq => hnot '<' (by decide) (heq ▸ by decide)
  have hread : text ≠ "read".toList := fun heq => hnot 'r' (by decide) (heq ▸ by decide)
  rw [ofLeafText, if_neg herror, if_neg hread, if_pos (List.all_eq_true.mpr h.2)]

theorem ofLeafText_word {text : List Char} (h : IsWord text) (hfree : text ≠ "read".toList) :
    ofLeafText text = .identifier .unknown (String.ofList text) 0 := by
  obtain ⟨c, cs, rfl, hc, hcs⟩ := h
  have herror : c :: cs ≠ "<error>".toList := by
    intro heq
    obtain rfl : c = '<' := (List.cons.inj heq).1
    exact absurd hc (by decide)
  have hdigits : ¬ (c :: cs).all isDigit = true := by
    simp [isDigit_of_isLetter hc]
  rw [ofLeafText, if_neg herror, if_neg hfree, if_neg hdigits]

/-- A leaf is printed in one piece, which is not that of another leaf, and which does not begin
    as a sign or an operation does. -/
structure LeafPrinted (e : Expression) : Prop where
  unbroken : ∀ c ∈ e.printed, unbroken c = true
  head : ∃ c cs, e.printed = c :: cs ∧ c ≠ '-' ∧ c ≠ '('
  read : ofLeafText e.printed = e.unplaced

/-- All leaves but the placeholder are printed with characters of words. -/
theorem LeafPrinted.of_word (hne : e.printed ≠ [])
    (hword : ∀ c ∈ e.printed, isWordChar c = true) (hread : ofLeafText e.printed = e.unplaced) :
    e.LeafPrinted := by
  obtain ⟨c, cs, hcons⟩ := List.exists_cons_of_ne_nil hne
  have hc : isWordChar c = true := hword c (hcons ▸ List.mem_cons_self)
  exact ⟨fun d hd => unbroken_of_isWordChar (hword d hd),
    ⟨c, cs, hcons, ne_of_isWordChar hc (by decide), ne_of_isWordChar hc (by decide)⟩, hread⟩

theorem Natural.leaf (h : e.Natural) (hleaf : e.opening = none) : e.LeafPrinted := by
  cases e with
  | error l =>
    have hunbroken : "<error>".toList.all unbroken = true := by decide
    exact ⟨List.all_eq_true.mp hunbroken, ⟨'<', _, rfl, by decide⟩, rfl⟩
  | read l =>
    have hword : "read".toList.all isWordChar = true := by decide
    exact .of_word (by simp [printed]) (List.all_eq_true.mp hword) rfl
  | number l value =>
    obtain ⟨n, rfl⟩ := Int.eq_ofNat_of_zero_le h
    have hprinted : (number l n).printed = Nat.toDigits 10 n := Nat.toList_repr
    have hdigits := toDigits_isDigits n
    refine .of_word ?_ ?_ ?_
    · rw [hprinted]
      exact hdigits.1
    · rw [hprinted]
      exact fun c hc => isWordChar_of_isDigit (hdigits.2 c hc)
    · rw [hprinted, ofLeafText_digits hdigits, decimal_toDigits, unplaced]
  | identifier l name scope =>
    obtain ⟨hword, hfree⟩ := ScannedName.word h
    have hread := ofLeafText_word hword fun heq => hfree (String.toList_inj.mp heq)
    rw [String.ofList_toList] at hread
    obtain ⟨c, cs, hname, hc, hcs⟩ := hword
    refine .of_word ?_ ?_ hread
    · rw [printed, hname]
      exact List.cons_ne_nil c cs
    · rw [printed, hname]
      exact List.forall_mem_cons.mpr ⟨by simp [isWordChar, hc], hcs⟩
  | unary l op operand => cases hleaf
  | binary l op left right => cases hleaf

/-- Unbroken texts at the beginning of the same text are the same. -/
theorem unbroken_append_inj {x y u v : List Char} (hx : ∀ c ∈ x, unbroken c = true)
    (hy : ∀ c ∈ y, unbroken c = true) (hu : Breaking u) (hv : Breaking v)
    (h : x ++ u = y ++ v) : x = y ∧ u = v := by
  obtain ⟨hxu, hu⟩ := takeWhile_breaks hx hu
  obtain ⟨hyv, hv⟩ := takeWhile_breaks hy hv
  rw [h] at hxu hu
  exact ⟨hxu.symm.trans hyv, hu.symm.trans hv⟩

/-! ### Signs and operations -/

/-- The minus or the parenthesis that a text begins with. -/
def openingOf (text : List Char) : Option Char := text.head?.filter fun c => c == '-' || c == '('

theorem Natural.openingOf_printed (h : e.Natural) (u : List Char) :
    openingOf (e.printed ++ u) = e.opening := by
  cases hopening : e.opening with
  | none =>
    obtain ⟨c, cs, hprinted, hminus, hparen⟩ := (h.leaf hopening).head
    simp [openingOf, hprinted, hminus, hparen]
  | some c =>
    cases e with
    | unary l op operand =>
      obtain ⟨rfl, -⟩ := h
      exact hopening
    | binary l op left right => exact hopening
    | error l => cases hopening
    | number l value => cases hopening
    | identifier l name scope => cases hopening
    | read l => cases hopening

theorem Natural.opening_eq (he : e.Natural) (he' : e'.Natural) {u v : List Char}
    (h : e.printed ++ u = e'.printed ++ v) : e.opening = e'.opening := by
  rw [← he.openingOf_printed u, h, he'.openingOf_printed v]

/-- A leaf at the beginning of a text is known by the text. -/
theorem leaf_append_inj (he : e.Natural) (he' : e'.Natural) (hleaf : e.opening = none)
    {u v : List Char} (hu : Breaking u) (hv : Breaking v) (h : e.printed ++ u = e'.printed ++ v) :
    e.unplaced = e'.unplaced ∧ u = v := by
  have hprinted := he.leaf hleaf
  have hprinted' := he'.leaf ((he.opening_eq he' h).symm.trans hleaf)
  obtain ⟨htext, hrest⟩ := unbroken_append_inj hprinted.unbroken hprinted'.unbroken hu hv h
  refine ⟨?_, hrest⟩
  rw [← hprinted.read, htext, hprinted'.read]

theorem breaking_blank (w : List Char) : Breaking (' ' :: w) := by simp [Breaking, unbroken]

theorem breaking_paren (w : List Char) : Breaking (')' :: w) := by simp [Breaking, unbroken]

/-- An operator between two operands is known by its text. -/
theorem operator_append_inj {op op' : Operator} (hop : op ≠ .neg) (hop' : op' ≠ .neg)
    {u v : List Char} (h : op.text.toList ++ ' ' :: u = op'.text.toList ++ ' ' :: v) :
    op = op' ∧ u = v := by
  obtain ⟨htext, hrest⟩ := unbroken_append_inj op.text_unbroken op'.text_unbroken
    (breaking_blank u) (breaking_blank v) h
  have hfound := Operator.find_text hop
  rw [String.toList_inj.mp htext, Operator.find_text hop'] at hfound
  exact ⟨(Option.some.inj hfound).symm, (List.cons.inj hrest).2⟩

/-- A printed form can be read in one way only.  The induction is on the first expression; a
    blank or a parenthesis stands behind each operand, so it can be used of them. -/
theorem printed_append_inj (he : e.Natural) (he' : e'.Natural) {u v : List Char}
    (hu : Breaking u) (hv : Breaking v) (h : e.printed ++ u = e'.printed ++ v) :
    e.unplaced = e'.unplaced ∧ u = v := by
  induction e generalizing e' u v with
  | error l => exact leaf_append_inj he he' rfl hu hv h
  | number l value => exact leaf_append_inj he he' rfl hu hv h
  | identifier l name scope => exact leaf_append_inj he he' rfl hu hv h
  | read l => exact leaf_append_inj he he' rfl hu hv h
  | unary l op operand ih =>
    have hopening := he.opening_eq he' h
    cases e' with
    | unary l' op' operand' =>
      obtain ⟨rfl, hoperand⟩ := he
      obtain ⟨rfl, hoperand'⟩ := he'
      simp only [printed, List.append_assoc, List.append_cancel_left_eq] at h
      obtain ⟨hsame, hrest⟩ := ih hoperand hoperand' hu hv h
      exact ⟨by rw [unplaced, unplaced, hsame], hrest⟩
    | _ => cases hopening
  | binary l op left right ihl ihr =>
    have hopening := he.opening_eq he' h
    cases e' with
    | binary l' op' left' right' =>
      obtain ⟨hop, hleft, hright⟩ := he
      obtain ⟨hop', hleft', hright'⟩ := he'
      simp only [printed, List.cons_append, List.append_assoc, List.nil_append, List.cons.injEq,
        true_and] at h
      -- the left operand ends at the blank, the operator at the next one, and the right operand
      -- at the parenthesis
      obtain ⟨hsame, hsign⟩ := ihl hleft hleft' (breaking_blank _) (breaking_blank _) h
      obtain ⟨rfl, hbehind⟩ := operator_append_inj hop hop' (List.cons.inj hsign).2
      obtain ⟨hsame', hclose⟩ := ihr hright hright' (breaking_paren u) (breaking_paren v) hbehind
      exact ⟨by rw [unplaced, unplaced, hsame, hsame'], (List.cons.inj hclose).2⟩
    | _ => cases hopening

/-- Two expressions are printed alike only if they are the same up to places and scope numbers:
    these are not printed, and everything else can be read off the text. -/
theorem expressionText_eq_iff (he : e.Natural) (he' : e'.Natural) :
    e.toNode.expressionText = e'.toNode.expressionText ↔ e.unplaced = e'.unplaced := by
  constructor
  · intro h
    rw [expressionText_printed, expressionText_printed] at h
    have htext : e.printed ++ [] = e'.printed ++ [] := by
      simpa using String.ofList_injective (Except.ok.inj h)
    have hnil : Breaking [] := by simp [Breaking]
    exact (printed_append_inj he he' hnil hnil htext).1
  · intro h
    rw [← unplaced_toNode, h, unplaced_toNode]

/-- The hypotheses of `expressionText_eq_iff` hold of a difference with a sign behind its minus,
    which stands at two places in two scopes and is printed alike at both. -/
theorem expressionText_eq_iff_difference :
    let e : Expression := .binary ⟨"a.pl0", 1, 3⟩ .sub (.identifier ⟨"a.pl0", 1, 1⟩ "x" 1)
      (.unary ⟨"a.pl0", 1, 6⟩ .neg (.number ⟨"a.pl0", 1, 7⟩ 1))
    let e' : Expression := .binary ⟨"a.pl0", 9, 5⟩ .sub (.identifier ⟨"a.pl0", 9, 3⟩ "x" 2)
      (.unary ⟨"a.pl0", 9, 8⟩ .neg (.number ⟨"a.pl0", 9, 9⟩ 1))
    e.Natural ∧ e'.Natural ∧ e ≠ e' ∧ e.toNode.expressionText = .ok "(x - -1)" ∧
      e'.toNode.expressionText = .ok "(x - -1)" ∧ e.unplaced = e'.unplaced := by
  intro e e'
  have hname : ScannedName "x" :=
    ⟨"x".toList, "a.pl0", ⟨"a.pl0", 1, 1⟩, none, by decide +kernel⟩
  have hone : (0 : Int) ≤ 1 := by decide
  have he : e.Natural := ⟨by decide, hname, rfl, hone⟩
  have he' : e'.Natural := ⟨by decide, hname, rfl, hone⟩
  have htext : e.toNode.expressionText = .ok "(x - -1)" := rfl
  have htext' : e'.toNode.expressionText = .ok "(x - -1)" := rfl
  exact ⟨he, he', by decide, htext, htext',
    (expressionText_eq_iff he he').mp (htext.trans htext'.symm)⟩

end Expression

end PlZero
