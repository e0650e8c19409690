/-
  PlZero/Proofs/Token/Munch.lean
  ==============================
  **Scanning is maximal munch.**  A source is trivia, lexeme, trivia, lexeme, and so on, with
  trivia at its end.  `Cut` says that each of these parts is as long as it can be where it
  begins, that each lexeme has the token that it denotes, and that this token is located where
  the lexeme begins.  The scanner cuts every source that way (`scanFrom_cut`): its tokens are
  those of the pieces and the end of the input, and its diagnostics are the faults of the
  pieces in the order of the source (`tokens_munched`).

  The pieces also show that the tokens stand at places that grow along the source
  (`Cut.places`), which is what orders the diagnostics of a run.
-/
import PlZero.Proofs.Compilation.Stages
import PlZero.Proofs.Token.Lexeme
import PlZero.Proofs.Token.Trivia

namespace PlZero

/-! ### Pieces of a source -/

/-- The place in a file that a text leads to. -/
def placeIn (file : String) (before : List Char) : Location :=
  ⟨file, (placeAfter before).1, (placeAfter before).2⟩

/-- A lexeme with the trivia before it, and its token. -/
structure Piece where
  trivia : List Char
  lexeme : List Char
  token : Token

namespace Piece

def text (x : Piece) : List Char := x.trivia ++ x.lexeme

/-- What is wrong with a piece: it is illegal, or a number that is too large. -/
def fault (x : Piece) : Option Problem := faultOf x.lexeme x.token.kind

def diagnostic? (x : Piece) : Option Diagnostic :=
  x.fault.map fun p => ⟨.error, p, x.token.location⟩

/-- A piece as the scanner hands it over. -/
def scan (x : Piece) : Scan := .token x.token x.fault

end Piece

/-- The text of pieces and of the trivia behind the last of them. -/
def textOf (pieces : List Piece) (last : List Char) : List Char :=
  pieces.flatMap Piece.text ++ last

/-- The text of the pieces, which stands behind the text `before` in its file, is cut into
    them by maximal munch. -/
def Cut (file : String) (before : List Char) : List Piece → List Char → Prop
  | [], last => LongestTrivia last []
  | x :: pieces, last =>
    LongestTrivia x.trivia (x.lexeme ++ textOf pieces last) ∧
    Munched x.lexeme (textOf pieces last) ∧
    Denotes x.lexeme x.token.kind x.token.payload ∧
    x.token.location = placeIn file (before ++ x.trivia) ∧
    Cut file (before ++ x.text) pieces last

@[simp] theorem textOf_nil (last : List Char) : textOf [] last = last := rfl

@[simp] theorem textOf_cons (x : Piece) (pieces : List Piece) (last : List Char) :
    textOf (x :: pieces) last = x.text ++ textOf pieces last := by
  simp [textOf]

/-- The token of a piece of a cut text is the one that its lexeme denotes. -/
theorem Cut.denotes {file : String} {before last : List Char} {pieces : List Piece}
    (h : Cut file before pieces last) :
    ∀ x ∈ pieces, Denotes x.lexeme x.token.kind x.token.payload := by
  induction pieces generalizing before with
  | nil => simp
  | cons x pieces ih =>
    obtain ⟨-, -, hdenotes, -, hrest⟩ := h
    intro y hy
    rcases List.mem_cons.mp hy with rfl | hy
    · exact hdenotes
    · exact ih hrest y hy

theorem Cut.ne_endOfFile {file : String} {before last : List Char} {pieces : List Piece}
    (h : Cut file before pieces last) : ∀ x ∈ pieces, x.token.kind ≠ .endOfFile :=
  fun x hx => (h.denotes x hx).ne_endOfFile

/-! ### The scanner -/

/-- No lexeme goes over the end of a line. -/
theorem IsLexeme.newline_notMem {x : List Char} (h : IsLexeme x) : '\n' ∉ x := by
  intro hmem
  rcases h with ⟨c, cs, rfl, hc, hcs⟩ | ⟨-, hdigits⟩ | ⟨k, hk, rfl⟩
  · rcases List.mem_cons.mp hmem with rfl | hmem
    · exact absurd hc (by decide)
    · exact absurd (hcs _ hmem) (by decide)
  · exact absurd (hdigits _ hmem) (by decide)
  · have key : ∀ k ∈ Kind.operators, '\n' ∉ k.spelling.toList := by decide
    exact key k hk hmem

/-- What is munched behind trivia stays in its line. -/
theorem Munched.newline_notMem {x rest : List Char} (h : Munched x rest)
    (hstuck : Stuck (x ++ rest)) : '\n' ∉ x := by
  rcases h with ⟨hx, -⟩ | ⟨⟨c, rfl⟩, -⟩
  · exact hx.newline_notMem
  · have hc : c ∉ blankChars := hstuck.1 c (by simp)
    simp only [List.mem_singleton]
    rintro rfl
    exact hc (by decide)

theorem Munched.ne_nil {x rest : List Char} (h : Munched x rest) : x ≠ [] := by
  rintro rfl
  rcases h with ⟨hx, -⟩ | ⟨⟨c, hc⟩, -⟩
  · exact not_isLexeme_nil hx
  · cases hc

/-- A cursor behind what was munched stands behind its text. -/
theorem Cursor.At.past {c : Cursor} {before x rest : List Char} (h : c.At before)
    (hx : '\n' ∉ x) : (c.past x rest).At (before ++ x) := by
  unfold Cursor.At Cursor.past at *
  rw [placeAfter_append before hx, ← h]

theorem Cursor.At.location {c : Cursor} {before : List Char} (h : c.At before) (file : String) :
    c.location file = placeIn file before := by
  unfold Cursor.At at h
  unfold Cursor.location placeIn
  rw [← h]

/-- Unless a digit run is too long, the scanner cuts the text at its place into pieces and
    hands over their tokens and the end of the input.  The fuel is enough when there is more
    of it than text, since every piece has a lexeme. -/
theorem scanFrom_cut (file : String) (fuel : Nat) (c : Cursor) (before : List Char)
    (done : List Scan) (hat : c.At before) (hfuel : c.rest.length < fuel)
    (hclear : ∀ n, Scan.overlong n ∉ scanFrom file fuel c done) :
    ∃ pieces last, c.rest = textOf pieces last ∧ Cut file before pieces last ∧
      scanFrom file fuel c done = done.reverse ++ pieces.map Piece.scan ++
        [.token (.endOfFile (placeIn file (before ++ c.rest))) none] := by
  induction fuel generalizing c before done with
  | zero => exact absurd hfuel (Nat.not_lt_zero _)
  | succ fuel ih =>
    obtain ⟨w, hw, hplace, hlongest, hstuck⟩ := Cursor.skipTrivia_longest hat
    unfold scanFrom Cursor.step at hclear ⊢
    generalize c.skipTrivia = place at hw hplace hlongest hstuck hclear ⊢
    dsimp only at hclear ⊢
    cases hrest : place.rest with
    | nil =>
      rw [hrest] at hw hlongest
      rw [List.append_nil] at hw
      refine ⟨[], w, hw, hlongest, ?_⟩
      dsimp only
      rw [hplace.location file, hw]
      simp
    | cons ch rest =>
      rw [hrest] at hw hlongest hstuck
      simp only [hrest] at hclear ⊢
      obtain ⟨happend, -⟩ := Lexeme.longest_append ch rest
      have hmunched := Lexeme.longest_munched ch rest
      have hclassified := Lexeme.longest_classified ch rest
      generalize Lexeme.longest ch rest = found at happend hmunched hclassified hclear ⊢
      obtain ⟨lexeme, behind⟩ := found
      dsimp only at happend hmunched hclassified hclear ⊢
      rw [← happend] at hw hlongest hstuck
      cases hmeaning : lexeme.meaning with
      | none =>
        simp only [hmeaning] at hclear
        exact absurd (by simp) (hclear lexeme.chars.length)
      | some found =>
        obtain ⟨k, p, fault⟩ := found
        simp only [hmeaning] at hclear ⊢
        obtain ⟨hdenotes, hfault⟩ := Lexeme.meaning_denotes hclassified hmeaning
        have hnext : (place.past lexeme.chars behind).At (before ++ w ++ lexeme.chars) :=
          hplace.past (hmunched.newline_notMem hstuck)
        have hshorter : (place.past lexeme.chars behind).rest.length < fuel := by
          have hpositive := List.length_pos_iff.mpr hmunched.ne_nil
          have hlength := congrArg List.length hw
          simp only [List.length_append] at hlength
          simp only [Cursor.past]
          omega
        obtain ⟨pieces, last, htext, hcut, hscan⟩ := ih _ _ _ hnext hshorter hclear
        simp only [Cursor.past] at htext
        rw [htext] at hw hlongest hmunched
        refine ⟨⟨w, lexeme.chars, k, place.location file, p⟩ :: pieces, last, ?_, ?_, ?_⟩
        · rw [hw, textOf_cons, Piece.text, List.append_assoc]
        · refine ⟨hlongest, hmunched, hdenotes, hplace.location file, ?_⟩
          rw [Piece.text, ← List.append_assoc]
          exact hcut
        · rw [hscan, hw]
          simp [Piece.scan, Piece.fault, hfault, Cursor.past, htext]

/-- The scans of a source are those of its pieces, and the end of the input. -/
theorem scan_cut {source : List Char} {file : String}
    (hclear : ∀ n, Scan.overlong n ∉ scan source file) :
    ∃ pieces last, source = textOf pieces last ∧ Cut file [] pieces last ∧
      scan source file = pieces.map Piece.scan ++
        [.token (.endOfFile (placeIn file source)) none] := by
  have hat : (Cursor.start source).At [] := rfl
  exact scanFrom_cut file (source.length + 1) (Cursor.start source) [] [] hat
    (Nat.lt_succ_self _) hclear

/-- A source without a digit run that could not be read is scanned to its end. -/
theorem scan_complete_of_clear {source : List Char} {file : String}
    (hclear : ∀ n, Scan.overlong n ∉ scan source file) : Scan.Complete (scan source file) := by
  obtain ⟨pieces, last, -, hcut, hscan⟩ := scan_cut hclear
  refine ⟨pieces.map Piece.scan, _, hscan, ?_⟩
  intro x hx
  obtain ⟨piece, hpiece, rfl⟩ := List.mem_map.mp hx
  exact ⟨piece.token, piece.fault, rfl, hcut.ne_endOfFile piece hpiece⟩

/-! ### Places of tokens -/

/-- One place stands before another in the source. -/
def Location.Before (l m : Location) : Prop :=
  l.line < m.line ∨ l.line = m.line ∧ l.column < m.column

theorem placeIn_before (file : String) (before : List Char) {cs : List Char} (hcs : cs ≠ []) :
    (placeIn file before).Before (placeIn file (before ++ cs)) := by
  unfold Location.Before placeIn
  rcases placeAfter_lt before hcs with h | ⟨h, hcolumn⟩
  · left
    exact Int.ofNat_lt.mpr h
  · right
    exact ⟨congrArg Nat.cast h, Int.ofNat_lt.mpr hcolumn⟩

theorem Cut.location_eq {file : String} {before last : List Char} {pieces : List Piece}
    (h : Cut file before pieces last) :
    ∀ x ∈ pieces, ∃ w, x.token.location = placeIn file (before ++ w) := by
  induction pieces generalizing before with
  | nil => simp
  | cons x pieces ih =>
    obtain ⟨-, -, -, hlocation, hrest⟩ := h
    intro y hy
    rcases List.mem_cons.mp hy with rfl | hy
    · exact ⟨_, hlocation⟩
    · obtain ⟨w, hw⟩ := ih hrest y hy
      rw [List.append_assoc] at hw
      exact ⟨_, hw⟩

/-- The places of the tokens grow along the source, up to its end. -/
theorem Cut.places {file : String} {before last : List Char} {pieces : List Piece}
    (h : Cut file before pieces last) :
    (pieces.map (fun x => x.token.location) ++
      [placeIn file (before ++ textOf pieces last)]).Pairwise Location.Before := by
  induction pieces generalizing before with
  | nil => simp
  | cons x pieces ih =>
    obtain ⟨-, hmunched, -, hlocation, hrest⟩ := h
    have hlater : ∀ w, (placeIn file (before ++ x.trivia)).Before
        (placeIn file (before ++ x.text ++ w)) := by
      intro w
      have hne : x.lexeme ++ w ≠ [] := by simp [hmunched.ne_nil]
      have hplace := placeIn_before file (before ++ x.trivia) hne
      simpa [Piece.text, List.append_assoc] using hplace
    rw [List.map_cons, List.cons_append, List.pairwise_cons, hlocation]
    constructor
    · intro l hl
      rcases List.mem_append.mp hl with hl | hl
      · obtain ⟨y, hy, rfl⟩ := List.mem_map.mp hl
        obtain ⟨w, hw⟩ := hrest.location_eq y hy
        rw [hw]
        exact hlater w
      · obtain rfl := List.mem_singleton.mp hl
        rw [textOf_cons, ← List.append_assoc]
        exact hlater _
    · rw [textOf_cons, ← List.append_assoc]
      exact ih hrest

/-! ### Only one way to cut a source -/

theorem LongestTrivia.unique {w w' rest rest' : List Char} (h : LongestTrivia w rest)
    (h' : LongestTrivia w' rest') (heq : w ++ rest = w' ++ rest') : w = w' ∧ rest = rest' := by
  have hle : w'.length ≤ w.length := h.longest w' rest' heq.symm h'.trivia
  have hge : w.length ≤ w'.length := h'.longest w rest heq h.trivia
  exact List.append_inj heq (Nat.le_antisymm hge hle)

theorem Munched.unique {x x' rest rest' : List Char} (h : Munched x rest)
    (h' : Munched x' rest') (heq : x ++ rest = x' ++ rest') : x = x' ∧ rest = rest' := by
  rcases h with ⟨hx, hlongest⟩ | ⟨⟨c, rfl⟩, hnone⟩
  · rcases h' with ⟨hx', hlongest'⟩ | ⟨-, hnone'⟩
    · have hle : x'.length ≤ x.length := hlongest x' rest' heq.symm hx'
      have hge : x.length ≤ x'.length := hlongest' x rest heq hx
      exact List.append_inj heq (Nat.le_antisymm hge hle)
    · exact absurd hx (hnone' x rest heq)
  · rcases h' with ⟨hx', -⟩ | ⟨⟨d, rfl⟩, -⟩
    · exact absurd hx' (hnone x' rest' heq.symm)
    · exact List.append_inj heq rfl

/-- A keyword is spelled like a name. -/
theorem isWord_of_mem_keywords {k : Kind} (hk : k ∈ Kind.keywords) : IsWord k.spelling.toList := by
  have key : ∀ k ∈ Kind.keywords, k.spelling.toList ≠ [] ∧
      k.spelling.toList.head?.all isLetter = true ∧
      k.spelling.toList.tail.all isWordChar = true := by decide
  obtain ⟨hne, hhead, htail⟩ := key k hk
  cases hspelling : k.spelling.toList with
  | nil => exact absurd hspelling hne
  | cons c cs =>
    rw [hspelling] at hhead htail
    exact ⟨c, cs, rfl, hhead, List.all_eq_true.mp htail⟩

theorem IsWord.not_isDigits {x : List Char} (h : IsWord x) : ¬ IsDigits x := by
  obtain ⟨c, cs, rfl, hc, -⟩ := h
  rintro ⟨-, hdigits⟩
  have hd := hdigits c (by simp)
  rw [isDigit_of_isLetter hc] at hd
  cases hd

theorem IsWord.not_isOperator {x : List Char} (h : IsWord x) : ¬ IsOperator x := by
  obtain ⟨c, cs, rfl, hc, -⟩ := h
  intro hop
  rw [hop.head.1] at hc
  cases hc

theorem IsDigits.not_isOperator {x : List Char} (h : IsDigits x) : ¬ IsOperator x := by
  intro hop
  cases x with
  | nil => exact h.1 rfl
  | cons c cs =>
    have hc := h.2 c (by simp)
    rw [hop.head.2] at hc
    cases hc

/-- What a text denotes, by its class. -/
theorem Denotes.cases_class {x : List Char} {k : Kind} {p : Payload} (h : Denotes x k p) :
    (IsWord x ∧ (k ∈ Kind.keywords ∧ k.spelling.toList = x ∧ p = .absent ∨
        k = .identifier ∧ (∀ k ∈ Kind.keywords, k.spelling.toList ≠ x) ∧
          p = .text (String.ofList x))) ∨
      (IsDigits x ∧ k = .number ∧
        p = .number (if 2 ^ 31 - 1 < decimal x then (0 : Int) else decimal x)) ∨
      (IsOperator x ∧ Kind.ofSign? x = some k ∧ p = .absent) ∨
      (¬ IsLexeme x ∧ k = .illegal ∧ p = .text (String.join (x.map String.singleton))) := by
  cases h with
  | keyword hk => exact .inl ⟨isWord_of_mem_keywords hk, .inl ⟨hk, rfl, rfl⟩⟩
  | identifier hx hfree => exact .inl ⟨hx, .inr ⟨rfl, hfree, rfl⟩⟩
  | number hx hsmall =>
    have hnot : ¬ 2 ^ 31 - 1 < decimal x := Nat.not_lt_of_le hsmall
    exact .inr (.inl ⟨hx, rfl, by rw [if_neg hnot]⟩)
  | tooLarge hx hlarge => exact .inr (.inl ⟨hx, rfl, by rw [if_pos hlarge]⟩)
  | operator hk =>
    exact .inr (.inr (.inl ⟨⟨k, hk, rfl⟩, Kind.ofSign?_spelling k hk, rfl⟩))
  | illegal hc => exact .inr (.inr (.inr ⟨hc, rfl, by simp [String.join]⟩))

theorem Denotes.unique {x : List Char} {k k' : Kind} {p p' : Payload} (h : Denotes x k p)
    (h' : Denotes x k' p') : k = k' ∧ p = p' := by
  have hspelling : ∀ k ∈ Kind.keywords, ∀ k' ∈ Kind.keywords,
      k.spelling.toList = k'.spelling.toList → k = k' := by decide
  rcases h.cases_class with ⟨hx, hword⟩ | ⟨hx, rfl, rfl⟩ | ⟨hx, hk, rfl⟩ | ⟨hx, rfl, rfl⟩ <;>
    rcases h'.cases_class with ⟨hx', hword'⟩ | ⟨hx', rfl, rfl⟩ | ⟨hx', hk', rfl⟩ | ⟨hx', rfl, rfl⟩
  · rcases hword with ⟨hk, rfl, rfl⟩ | ⟨rfl, hfree, rfl⟩
    · rcases hword' with ⟨hk', heq, rfl⟩ | ⟨-, hfree', -⟩
      · exact ⟨hspelling k hk k' hk' heq.symm, rfl⟩
      · exact absurd rfl (hfree' k hk)
    · rcases hword' with ⟨hk', heq, -⟩ | ⟨rfl, -, rfl⟩
      · exact absurd heq (hfree k' hk')
      · exact ⟨rfl, rfl⟩
  · exact absurd hx' hx.not_isDigits
  · exact absurd hx' hx.not_isOperator
  · exact absurd (.inl hx) hx'
  · exact absurd hx hx'.not_isDigits
  · exact ⟨rfl, rfl⟩
  · exact absurd hx' hx.not_isOperator
  · exact absurd (.inr (.inl hx)) hx'
  · exact absurd hx hx'.not_isOperator
  · exact absurd hx hx'.not_isOperator
  · rw [hk] at hk'
    exact ⟨Option.some.inj hk', rfl⟩
  · exact absurd (.inr (.inr hx)) hx'
  · exact absurd (.inl hx') hx
  · exact absurd (.inr (.inl hx')) hx
  · exact absurd (.inr (.inr hx')) hx
  · exact ⟨rfl, rfl⟩

/-- A text is cut in one way only. -/
theorem Cut.unique {file : String} {before last last' : List Char} {pieces pieces' : List Piece}
    (h : Cut file before pieces last) (h' : Cut file before pieces' last')
    (heq : textOf pieces last = textOf pieces' last') : pieces = pieces' ∧ last = last' := by
  induction pieces generalizing before pieces' with
  | nil =>
    cases pieces' with
    | nil => exact ⟨rfl, heq⟩
    | cons y pieces' =>
      -- the trivia at the end of the first text leaves no room for a lexeme
      obtain ⟨htrivia, hmunched, -⟩ := h'
      rw [textOf_nil, textOf_cons, Piece.text, List.append_assoc] at heq
      rw [← List.append_nil last] at heq
      obtain ⟨-, hnil⟩ := LongestTrivia.unique h htrivia heq
      exact absurd hnil.symm (by simp [hmunched.ne_nil])
  | cons x pieces ih =>
    obtain ⟨htrivia, hmunched, hdenotes, hlocation, hrest⟩ := h
    cases pieces' with
    | nil =>
      rw [textOf_nil, textOf_cons, Piece.text, List.append_assoc] at heq
      rw [← List.append_nil last'] at heq
      obtain ⟨-, hnil⟩ := LongestTrivia.unique htrivia h' heq
      exact absurd hnil (by simp [hmunched.ne_nil])
    | cons y pieces' =>
      obtain ⟨htrivia', hmunched', hdenotes', hlocation', hrest'⟩ := h'
      rw [textOf_cons, textOf_cons, Piece.text, Piece.text, List.append_assoc,
        List.append_assoc] at heq
      obtain ⟨hw, htext⟩ := htrivia.unique htrivia' heq
      obtain ⟨hx, hbehind⟩ := hmunched.unique hmunched' htext
      rw [← hx] at hdenotes'
      obtain ⟨hk, hp⟩ := hdenotes.unique hdenotes'
      have htoken : x.token = y.token := by
        rw [← hw, ← hlocation] at hlocation'
        cases hxt : x.token
        cases hyt : y.token
        rw [hxt, hyt] at hk hp hlocation'
        dsimp only at hk hp hlocation'
        rw [hk, hp, hlocation']
      have hpiece : x = y := by
        cases x
        cases y
        dsimp only at hw hx htoken
        rw [hw, hx, htoken]
      subst hpiece
      obtain ⟨rfl, rfl⟩ := ih hrest hrest' hbehind
      exact ⟨rfl, rfl⟩

/-! ### Tokens and diagnostics -/

/-- The scans of pieces have the tokens and the diagnostics of the pieces. -/
theorem scans_pieces (pieces : List Piece) :
    (pieces.map Piece.scan).filterMap Scan.token? = pieces.map Piece.token ∧
      (pieces.map Piece.scan).filterMap Scan.diagnostic? =
        pieces.filterMap Piece.diagnostic? := by
  constructor
  · rw [List.filterMap_map, ← List.filterMap_eq_map]
    rfl
  · rw [List.filterMap_map]
    rfl

/-- The faults of a lexeme: it is illegal, or a number that is too large. -/
theorem Denotes.fault_iff {x : List Char} {k : Kind} {p : Payload} (h : Denotes x k p)
    (problem : Problem) :
    faultOf x k = some problem ↔
      (∃ c, k = .illegal ∧ x = [c] ∧ problem = .illegalCharacter c) ∨
        (k = .number ∧ 2 ^ 31 - 1 < decimal x ∧ problem = .integerTooLarge) := by
  cases h with
  | keyword hk =>
    have key : ∀ k ∈ Kind.keywords, k ≠ .illegal ∧ k ≠ .number := by decide
    simp [faultOf_eq_none (key k hk).1 (key k hk).2, key k hk]
  | operator hk =>
    have key : ∀ k ∈ Kind.operators, k ≠ .illegal ∧ k ≠ .number := by decide
    simp [faultOf_eq_none (key k hk).1 (key k hk).2, key k hk]
  | identifier hx hfree => simp [faultOf]
  | number hx _ => simp [faultOf, eq_comm]
  | tooLarge hx _ => simp [faultOf, eq_comm]
  | illegal hc => simp [faultOf, eq_comm]

/-- A source without a digit run that is too long is cut into pieces, and scanning it yields
    their tokens, the token at the end of the input, and their diagnostics. -/
theorem tokensOf_scan_pieces (source file : String) (h : NoLongDigitRun source.toList) :
    ∃ pieces last, textOf pieces last = source.toList ∧ Cut file [] pieces last ∧
      (Compilation.tokensOf (scan source.toList file) []).1 =
        pieces.map Piece.token ++ [.endOfFile (placeIn file source.toList)] ∧
      Journal.diagnostics (Compilation.tokensOf (scan source.toList file) []).2 =
        pieces.filterMap Piece.diagnostic? := by
  have hclear := (scan_complete file h).not_overlong
  obtain ⟨pieces, last, htext, hcut, hscan⟩ := scan_cut hclear
  obtain ⟨htokens, hdiagnostics⟩ := tokensOf_eq (scan source.toList file) []
  obtain ⟨hpieces, hfaults⟩ := scans_pieces pieces
  rw [hscan, List.filterMap_append] at htokens hdiagnostics
  rw [hpieces] at htokens
  rw [hfaults] at hdiagnostics
  rw [← hscan] at htokens hdiagnostics
  exact ⟨pieces, last, htext.symm, hcut, htokens,
    hdiagnostics.trans (by simp [Journal.diagnostics, Scan.diagnostic?])⟩

/-- Scanning is maximal munch.  A source without a digit run that is too long is cut into
    pieces, in one way only.  Its tokens are those of the pieces and, at the end of the text,
    the only one that ends the input; its diagnostics are one for each illegal piece and one
    for each number that is too large, in the order of the source. -/
theorem tokens_munched (source file : String) (h : NoLongDigitRun source.toList) :
    let lexed := Compilation.tokensOf (scan source.toList file) []
    ∃ pieces last, textOf pieces last = source.toList ∧ Cut file [] pieces last ∧
      (∀ pieces' last', textOf pieces' last' = source.toList → Cut file [] pieces' last' →
        pieces' = pieces ∧ last' = last) ∧
      lexed.1 = pieces.map Piece.token ++ [.endOfFile (placeIn file source.toList)] ∧
      (∀ x ∈ pieces, x.token.kind ≠ .endOfFile) ∧
      Journal.diagnostics lexed.2 = pieces.filterMap Piece.diagnostic? ∧
      ∀ x ∈ pieces, ∀ problem, x.fault = some problem ↔
        (∃ c, x.token.kind = .illegal ∧ x.lexeme = [c] ∧ problem = .illegalCharacter c) ∨
          (x.token.kind = .number ∧ 2 ^ 31 - 1 < decimal x.lexeme ∧
            problem = .integerTooLarge) := by
  intro lexed
  obtain ⟨pieces, last, htext, hcut, htokens, hdiagnostics⟩ := tokensOf_scan_pieces source file h
  refine ⟨pieces, last, htext, hcut, ?_, htokens, hcut.ne_endOfFile, hdiagnostics, ?_⟩
  · intro pieces' last' htext' hcut'
    exact hcut'.unique hcut (htext'.trans htext.symm)
  · intro x hx problem
    exact (hcut.denotes x hx).fault_iff problem

/-- The hypothesis of `tokens_munched` holds of a text with a sign that begins no lexeme, whose
    tokens are read off its pieces. -/
theorem tokens_munched_sign :
    NoLongDigitRun "x :=// ?\n 7?".toList ∧
      ∃ pieces last, textOf pieces last = "x :=// ?\n 7?".toList ∧ Cut "a.pl0" [] pieces last ∧
        pieces.map (fun x => (x.token.kind, x.token.location)) =
          [(.identifier, ⟨"a.pl0", 1, 1⟩), (.assign, ⟨"a.pl0", 1, 3⟩),
            (.number, ⟨"a.pl0", 2, 2⟩), (.illegal, ⟨"a.pl0", 2, 3⟩)] := by
  have h : NoLongDigitRun "x :=// ?\n 7?".toList :=
    fun ds hds _ => hds.length_le.trans (by decide)
  obtain ⟨pieces, last, htext, hcut, -, htokens, -⟩ := tokens_munched "x :=// ?\n 7?" "a.pl0" h
  refine ⟨h, pieces, last, htext, hcut, ?_⟩
  have hrun : (Compilation.tokensOf (scan "x :=// ?\n 7?".toList "a.pl0") []).1.dropLast.map
      (fun t => (t.kind, t.location)) = [(.identifier, ⟨"a.pl0", 1, 1⟩),
        (.assign, ⟨"a.pl0", 1, 3⟩), (.number, ⟨"a.pl0", 2, 2⟩), (.illegal, ⟨"a.pl0", 2, 3⟩)] := by
    decide +kernel
  rw [htokens, List.dropLast_concat, List.map_map] at hrun
  exact hrun

end PlZero
