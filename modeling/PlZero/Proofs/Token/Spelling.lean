/-
  PlZero/Proofs/Token/Spelling.lean
  =================================
  **Scanning undoes spelling.**  A token other than the end of the input and an illegal
  character has a spelling (`Token.spelling`): the name of an identifier, the decimal digits
  of a number, or the signs or the reserved word of its kind.  A text that is made of such
  spellings, with anything between them that begins with a blank, is scanned to these tokens
  and no diagnostic (`scan_spelled`).

  The argument goes over `Cut`, which knows nothing of the scanner: a spelling is a lexeme
  that a blank or the end of the text ends, so the spellings and what stands between them are
  the pieces of the text.  Conversely to `scan_cut`, pieces of a text are what it is scanned
  to (`Cut.scan_eq`), since there is only one way to cut it.
-/
import PlZero.Proofs.Token.Munch

namespace PlZero

/-! ### Scanning a text that is cut -/

theorem IsDigits.denotes {x : List Char} (h : IsDigits x) : ∃ p, Denotes x .number p := by
  by_cases hsmall : decimal x ≤ 2 ^ 31 - 1
  · exact ⟨_, .number h hsmall⟩
  · exact ⟨_, .tooLarge h (Nat.lt_of_not_le hsmall)⟩

/-- The scanner makes of a lexeme the token that it denotes, unless it is a run of too many
    digits. -/
theorem Lexeme.meaning_of_denotes {lexeme : Lexeme} (h : lexeme.Classified) {k : Kind}
    {p : Payload} (hdenotes : Denotes lexeme.chars k p)
    (hshort : k = .number → lexeme.chars.length ≤ Text.maxDigits) :
    lexeme.meaning = some (k, p, faultOf lexeme.chars k) := by
  cases hmeaning : lexeme.meaning with
  | none =>
    cases lexeme with
    | digits ds =>
      obtain ⟨q, hq⟩ := IsDigits.denotes h
      have hle : ¬ Text.maxDigits < ds.length :=
        Nat.not_lt_of_le (hshort (hdenotes.unique hq).1)
      simp only [meaning, if_neg hle] at hmeaning
      split at hmeaning
      · cases hmeaning
      · cases hmeaning
    | word cs => cases hmeaning
    | operator k cs => cases hmeaning
    | illegal c => cases hmeaning
  | some found =>
    obtain ⟨k', p', fault⟩ := found
    obtain ⟨hdenotes', hfault⟩ := meaning_denotes h hmeaning
    obtain ⟨rfl, rfl⟩ := hdenotes.unique hdenotes'
    rw [hfault]

/-- A piece whose digits, if it is a number, are not too many to be read. -/
def Piece.Readable (x : Piece) : Prop :=
  x.token.kind = .number → x.lexeme.length ≤ Text.maxDigits

/-- The scanner makes of the lexeme of a piece its token, with its fault. -/
theorem Piece.Readable.meaning_eq {x : Piece} (h : x.Readable)
    (hdenotes : Denotes x.lexeme x.token.kind x.token.payload) {lexeme : Lexeme}
    (hclassified : lexeme.Classified) (hchars : lexeme.chars = x.lexeme) :
    lexeme.meaning = some (x.token.kind, x.token.payload, x.fault) := by
  rw [Piece.Readable, ← hchars] at h
  rw [← hchars] at hdenotes
  rw [Lexeme.meaning_of_denotes hclassified hdenotes h, hchars]
  rfl

/-- Fuel for a text lasts for what is left of it behind its first piece. -/
theorem textOf_lt {x : Piece} {pieces : List Piece} {last : List Char} {fuel : Nat}
    (hne : x.lexeme ≠ []) (hfuel : (textOf (x :: pieces) last).length < fuel + 1) :
    (textOf pieces last).length < fuel := by
  have hpositive := List.length_pos_iff.mpr hne
  rw [textOf_cons, Piece.text] at hfuel
  simp only [List.length_append] at hfuel
  omega

/-- Where no piece is left, the scanner comes to the end of the text. -/
theorem Cut.step_last {file : String} {before last : List Char} (h : Cut file before [] last)
    {c : Cursor} (hat : c.At before) (htext : c.rest = last) :
    ∃ place, c.step = .ended place ∧ place.location file = placeIn file (before ++ last) := by
  obtain ⟨w, hw, hplace, hlongest, -⟩ := Cursor.skipTrivia_longest hat
  have htrivia : LongestTrivia last [] := h
  rw [htext, ← List.append_nil last] at hw
  obtain ⟨rfl, hrest⟩ := htrivia.unique hlongest hw
  refine ⟨c.skipTrivia, ?_, hplace.location file⟩
  unfold Cursor.step
  simp only [← hrest]

/-- The scanner takes the first piece, since there is one longest trivia and one lexeme to
    take. -/
theorem Cut.step_eq {file : String} {before last : List Char} {x : Piece} {pieces : List Piece}
    (h : Cut file before (x :: pieces) last) {c : Cursor} (hat : c.At before)
    (htext : c.rest = textOf (x :: pieces) last) :
    ∃ place lexeme behind, c.step = .found place lexeme behind ∧
      place.location file = x.token.location ∧ lexeme.chars = x.lexeme ∧ lexeme.Classified ∧
      behind.At (before ++ x.text) ∧ behind.rest = textOf pieces last := by
  obtain ⟨htrivia, hmunched, -, hlocation, -⟩ := h
  obtain ⟨w, hw, hplace, hlongest, hstuck⟩ := Cursor.skipTrivia_longest hat
  rw [htext, textOf_cons, Piece.text, List.append_assoc] at hw
  obtain ⟨rfl, hrest⟩ := htrivia.unique hlongest hw
  obtain ⟨ch, rest, hcons⟩ := List.exists_cons_of_ne_nil hmunched.ne_nil
  rw [hcons, List.cons_append] at hrest
  obtain ⟨happend, -⟩ := Lexeme.longest_append ch (rest ++ textOf pieces last)
  have hlexeme := Lexeme.longest_munched ch (rest ++ textOf pieces last)
  have hclassified := Lexeme.longest_classified ch (rest ++ textOf pieces last)
  rw [← List.cons_append, ← hcons] at happend
  obtain ⟨hchars, hbehind⟩ := hlexeme.unique hmunched happend
  have hline : '\n' ∉ x.lexeme := by
    rw [← hrest, ← List.cons_append, ← hcons] at hstuck
    exact hmunched.newline_notMem hstuck
  refine ⟨_, _, c.skipTrivia.past x.lexeme (textOf pieces last), ?_,
    (hplace.location file).trans hlocation.symm, hchars, hclassified, ?_, rfl⟩
  · unfold Cursor.step
    simp only [← hrest, hchars, hbehind]
  · rw [Piece.text, ← List.append_assoc]
    exact hplace.past hline

/-- A text that is cut into pieces is scanned to these pieces. -/
theorem Cut.scanFrom_eq {file : String} {before last : List Char} {pieces : List Piece}
    (h : Cut file before pieces last) (hread : ∀ x ∈ pieces, x.Readable) {fuel : Nat}
    {c : Cursor} (done : List Scan) (hat : c.At before) (htext : c.rest = textOf pieces last)
    (hfuel : c.rest.length < fuel) :
    scanFrom file fuel c done = done.reverse ++ pieces.map Piece.scan ++
      [.token (.endOfFile (placeIn file (before ++ textOf pieces last))) none] := by
  induction pieces generalizing before fuel c done with
  | nil =>
    cases fuel with
    | zero => exact absurd hfuel (Nat.not_lt_zero _)
    | succ fuel =>
      obtain ⟨place, hstep, hplace⟩ := h.step_last hat htext
      unfold scanFrom
      simp [hstep, hplace]
  | cons x pieces ih =>
    cases fuel with
    | zero => exact absurd hfuel (Nat.not_lt_zero _)
    | succ fuel =>
      obtain ⟨place, lexeme, behind, hstep, hplace, hchars, hclassified, hnext, hbehind⟩ :=
        h.step_eq hat htext
      obtain ⟨-, hmunched, hdenotes, -, hcut⟩ := h
      have hmeaning := (hread x (by simp)).meaning_eq hdenotes hclassified hchars
      have hshorter : behind.rest.length < fuel := by
        rw [hbehind]
        exact textOf_lt hmunched.ne_nil (htext ▸ hfuel)
      have hlater := ih hcut (fun y hy => hread y (by simp [hy])) (x.scan :: done) hnext hbehind
        hshorter
      unfold scanFrom
      simp only [hstep, hmeaning, hplace]
      refine Eq.trans ?_ (hlater.trans ?_)
      · rfl
      · simp

/-- A source that is cut into pieces is scanned to them. -/
theorem Cut.scan_eq {file : String} {last : List Char} {pieces : List Piece}
    (h : Cut file [] pieces last) (hread : ∀ x ∈ pieces, x.Readable) :
    scan (textOf pieces last) file = pieces.map Piece.scan ++
      [.token (.endOfFile (placeIn file (textOf pieces last))) none] := by
  have hat : (Cursor.start (textOf pieces last)).At [] := rfl
  exact h.scanFrom_eq hread [] hat rfl (Nat.lt_succ_self _)

/-! ### Scanning without a fault -/

theorem scanFrom_done (file : String) (fuel : Nat) (c : Cursor) (done : List Scan) :
    scanFrom file fuel c done = done.reverse ++ scanFrom file fuel c [] := by
  induction fuel generalizing c done with
  | zero => simp [scanFrom]
  | succ fuel ih =>
    unfold scanFrom
    cases c.step with
    | ended place => simp
    | found place lexeme behind =>
      cases hmeaning : lexeme.meaning with
      | none => simp [hmeaning]
      | some found =>
        obtain ⟨k, p, fault⟩ := found
        simp only [hmeaning]
        rw [ih behind (_ :: done), ih behind [_]]
        simp

/-- Where no lexeme has a fault, scanning does not stop before the end. -/
theorem scanStrictFrom_of_faultless {file : String} {fuel : Nat} {c : Cursor} {ts : List Token}
    (done : List Token) (h : scanFrom file fuel c [] = ts.map (Scan.token · none)) :
    scanStrictFrom file fuel c done = (done.reverse ++ ts, none) := by
  induction fuel generalizing c done ts with
  | zero =>
    unfold scanFrom at h
    unfold scanStrictFrom
    cases ts with
    | nil => cases h
    | cons t ts => simp_all
  | succ fuel ih =>
    unfold scanFrom at h
    unfold scanStrictFrom
    cases hstep : c.step with
    | ended place =>
      rw [hstep] at h
      cases ts with
      | nil => cases h
      | cons t ts => simp_all
    | found place lexeme behind =>
      simp only [hstep] at h
      cases hmeaning : lexeme.meaning with
      | none =>
        simp only [hmeaning] at h
        cases ts with
        | nil => cases h
        | cons t ts => simp at h
      | some found =>
        obtain ⟨k, p, fault⟩ := found
        simp only [hmeaning] at h
        rw [scanFrom_done] at h
        cases ts with
        | nil => simp at h
        | cons t ts =>
          simp only [List.reverse_cons, List.reverse_nil, List.nil_append, List.cons_append,
            List.map_cons, List.cons.injEq, Scan.token.injEq] at h
          obtain ⟨⟨rfl, rfl⟩, hrest⟩ := h
          simp [hmeaning, ih _ hrest]

/-! ### What separates tokens -/

/-- A mix of blanks and of comments that end with their lines. -/
inductive Gap : List Char → Prop
  | none : Gap []
  | blank {c : Char} {w : List Char} (hc : c ∈ blankChars) (hw : Gap w) : Gap (c :: w)
  | comment {body w : List Char} (hbody : '\n' ∉ body) (hw : Gap w) :
      Gap ('/' :: '/' :: (body ++ '\n' :: w))

/-- What stands between two tokens: a mix of blanks and comments that begins with a blank. -/
def Separates (w : List Char) : Prop := Gap w ∧ ∃ c v, w = c :: v ∧ c ∈ blankChars

/-- What stands behind the last token: nothing, or a blank and a mix of blanks and comments,
    the last of which may end with the text. -/
def Closes (w : List Char) : Prop := w = [] ∨ ∃ c v, w = c :: v ∧ c ∈ blankChars ∧ Trivia v []

/-- A text that goes on with a blank, or not at all. -/
def EndsLexeme (text : List Char) : Prop := ∀ c ∈ text.head?, c ∈ blankChars

theorem Gap.trivia {w : List Char} (h : Gap w) (rest : List Char) : Trivia w rest := by
  induction h with
  | none => exact .none
  | blank hc _ ih => exact .blank hc ih
  | comment hbody _ ih => exact .comment hbody (by simp [LineEnds]) (.blank (by decide) ih)

theorem Separates.endsLexeme {w : List Char} (h : Separates w) (rest : List Char) :
    EndsLexeme (w ++ rest) := by
  obtain ⟨-, c, v, rfl, hc⟩ := h
  simpa [EndsLexeme] using hc

theorem Closes.endsLexeme {w : List Char} (h : Closes w) : EndsLexeme w := by
  rcases h with rfl | ⟨c, v, rfl, hc, -⟩
  · simp [EndsLexeme]
  · simpa [EndsLexeme] using hc

theorem Closes.trivia {w : List Char} (h : Closes w) : Trivia w [] := by
  rcases h with rfl | ⟨c, v, rfl, hc, hv⟩
  · exact .none
  · exact .blank hc hv

/-! ### Lexemes before a blank -/

theorem IsLexeme.not_blank {x : List Char} (h : IsLexeme x) : ∀ c ∈ x, c ∉ blankChars := by
  have hword : ∀ c ∈ blankChars, isLetter c = false ∧ isWordChar c = false ∧
      isDigit c = false := by simp [blankChars, isLetter, isWordChar, isDigit]
  intro c hc hblank
  obtain ⟨hletter, hchar, hdigit⟩ := hword c hblank
  rcases h with ⟨d, ds, rfl, hd, hds⟩ | ⟨-, hdigits⟩ | ⟨k, hk, rfl⟩
  · rcases List.mem_cons.mp hc with rfl | hc
    · rw [hletter] at hd
      cases hd
    · have hcs := hds c hc
      rw [hchar] at hcs
      cases hcs
  · have hcs := hdigits c hc
    rw [hdigit] at hcs
    cases hcs
  · have key : ∀ k ∈ Kind.operators, k.spelling.toList.all (· ∉ blankChars) := by decide
    exact of_decide_eq_true (List.all_eq_true.mp (key k hk) c hc) hblank

/-- A blank, or the end of the text, ends a lexeme: no longer one begins the text. -/
theorem IsLexeme.munched {x rest : List Char} (h : IsLexeme x) (hrest : EndsLexeme rest) :
    Munched x rest := by
  left
  constructor
  · exact h
  · intro y tail heq hy
    rcases List.append_eq_append_iff.mp heq with ⟨a, rfl, -⟩ | ⟨a, rfl, hsplit⟩
    · simp
    · cases a with
      | nil => simp
      | cons c a =>
        -- the first character behind `x` would be a blank inside of `y`
        have hc : c ∈ blankChars := hrest c (by simp [hsplit])
        exact absurd hc (hy.not_blank c (by simp))

/-- The only lexeme that begins with a slash is the slash. -/
theorem IsLexeme.eq_slash {x : List Char} (h : IsLexeme ('/' :: x)) : x = [] := by
  have hop : IsOperator ('/' :: x) :=
    Lexeme.operator_of_isLexeme (by decide) (by decide) h
  have key : ∀ k ∈ Kind.operators, k.spelling.toList.head? = some '/' →
      k.spelling.toList.tail = [] := by decide
  obtain ⟨k, hk, hspelling⟩ := hop
  have htail := key k hk
  rw [hspelling] at htail
  exact htail rfl

/-- A lexeme that a blank ends is not passed over. -/
theorem IsLexeme.stuck {x rest : List Char} (h : IsLexeme x) (hrest : EndsLexeme rest) :
    Stuck (x ++ rest) := by
  cases x with
  | nil => exact absurd h not_isLexeme_nil
  | cons c x =>
    constructor
    · intro d hd
      obtain rfl : c = d := by simpa using hd
      exact h.not_blank c (by simp)
    · intro tail heq
      obtain ⟨rfl, heq⟩ := List.cons.inj heq
      obtain rfl := h.eq_slash
      have hslash : rest = '/' :: tail := (List.cons.inj heq).2
      exact slash_not_blank (hrest '/' (by simp [hslash]))

/-! ### Decimal digits -/

theorem isDigit_of_core {c : Char} (h : c.isDigit = true) : isDigit c = true := by
  simpa [Char.isDigit, isDigit, Char.le_def, and_comm] using h

theorem toDigits_isDigits (n : Nat) : IsDigits (Nat.toDigits 10 n) := by
  constructor
  · exact Nat.toDigits_ne_nil
  · intro d hd
    exact isDigit_of_core (Nat.isDigit_of_mem_toDigits (by decide) (by decide) hd)

theorem decimal_toDigits (n : Nat) : decimal (Nat.toDigits 10 n) = n := by
  rw [← digitsValue_eq_decimal]
  exact Nat.ofDigitChars_ten_toDigits

/-! ### Spellings -/

namespace Token

/-- How a token is written in a program. -/
def spelling (t : Token) : List Char :=
  match t.kind with
  | .identifier => t.payload.shown.toList
  | .number => t.payload.shown.toList
  | k => k.spelling.toList

/-- A token that can be written: it has the payload that belongs to its kind, an identifier is
    a word that is not reserved, and a number is not too large.  The end of the input is not
    written, and an illegal character is no token of a program. -/
def Writable (t : Token) : Prop :=
  match t.kind with
  | .endOfFile => False
  | .illegal => False
  | .identifier => ∃ name, t.payload = .text name ∧ IsWord name.toList ∧
      ∀ k ∈ Kind.keywords, k.spelling ≠ name
  | .number => ∃ n : Nat, t.payload = .number n ∧ n ≤ 2 ^ 31 - 1
  | _ => t.payload = .absent

/-- A token without its place. -/
def symbol (t : Token) : Kind × Payload := (t.kind, t.payload)

end Token

theorem Kind.cases_written (k : Kind) :
    k ∈ [endOfFile, illegal] ∨ k = identifier ∨ k = number ∨ k ∈ keywords ∨ k ∈ operators := by
  cases k <;> decide

namespace Token

variable {t : Token}

theorem Writable.ne (h : t.Writable) : t.kind ∉ [Kind.endOfFile, .illegal] := by
  intro hk
  unfold Writable at h
  rcases List.mem_pair.mp hk with hk | hk
  · rw [hk] at h
    exact h
  · rw [hk] at h
    exact h

/-- Signs and reserved words are spelled as their kinds are. -/
theorem Writable.sign (h : t.Writable) (hk : t.kind ∈ Kind.keywords ∨ t.kind ∈ Kind.operators) :
    t.payload = .absent ∧ t.spelling = t.kind.spelling.toList := by
  obtain ⟨k, location, payload⟩ := t
  replace hk : k ∈ Kind.keywords ∨ k ∈ Kind.operators := hk
  cases k <;> first | exact ⟨h, rfl⟩ | exact absurd hk (by decide)

theorem Writable.identifier (h : t.Writable) (hk : t.kind = .identifier) :
    t.payload = .text (String.ofList t.spelling) ∧ IsWord t.spelling ∧
      ∀ k ∈ Kind.keywords, k.spelling.toList ≠ t.spelling := by
  obtain ⟨k, location, payload⟩ := t
  obtain rfl : k = .identifier := hk
  obtain ⟨name, rfl, hword, hfree⟩ := h
  have hspelling : spelling ⟨.identifier, location, .text name⟩ = name.toList := rfl
  rw [hspelling, String.ofList_toList]
  exact ⟨rfl, hword, fun k hk heq => hfree k hk (String.toList_inj.mp heq)⟩

theorem Writable.number (h : t.Writable) (hk : t.kind = .number) :
    ∃ n : Nat, t.payload = .number n ∧ t.spelling = Nat.toDigits 10 n ∧ n ≤ 2 ^ 31 - 1 := by
  obtain ⟨k, location, payload⟩ := t
  obtain rfl : k = .number := hk
  obtain ⟨n, rfl, hn⟩ := h
  have hspelling : spelling ⟨.number, location, .number n⟩ = (Nat.repr n).toList := rfl
  rw [hspelling, Nat.toList_repr]
  exact ⟨n, rfl, rfl, hn⟩

/-- A token that can be written is denoted by its spelling. -/
theorem Writable.denotes (h : t.Writable) : Denotes t.spelling t.kind t.payload := by
  rcases t.kind.cases_written with hk | hk | hk | hk | hk
  · exact absurd hk h.ne
  · obtain ⟨hpayload, hword, hfree⟩ := h.identifier hk
    rw [hk, hpayload]
    exact .identifier hword hfree
  · obtain ⟨n, hpayload, hspelling, hn⟩ := h.number hk
    have hdenotes := Denotes.number (toDigits_isDigits n) (by rwa [decimal_toDigits])
    rw [hk, hpayload, hspelling]
    rwa [decimal_toDigits] at hdenotes
  · obtain ⟨hpayload, hspelling⟩ := h.sign (.inl hk)
    rw [hpayload, hspelling]
    exact .keyword hk
  · obtain ⟨hpayload, hspelling⟩ := h.sign (.inr hk)
    rw [hpayload, hspelling]
    exact .operator hk

theorem Writable.isLexeme (h : t.Writable) : IsLexeme t.spelling := by
  rcases h.denotes.cases_class with ⟨hword, -⟩ | ⟨hdigits, -⟩ | ⟨hop, -⟩ | ⟨-, hk, -⟩
  · exact .inl hword
  · exact .inr (.inl hdigits)
  · exact .inr (.inr hop)
  · exact absurd (by simp [hk]) h.ne

theorem Writable.faultOf_eq_none (h : t.Writable) : faultOf t.spelling t.kind = none := by
  by_cases hk : t.kind = .number
  · obtain ⟨n, -, hspelling, hn⟩ := h.number hk
    rw [hk, hspelling]
    have hnot : ¬ 2 ^ 31 - 1 < decimal (Nat.toDigits 10 n) := by
      rw [decimal_toDigits]
      exact Nat.not_lt_of_le hn
    exact if_neg hnot
  · have hillegal : t.kind ≠ .illegal := fun hillegal => h.ne (by simp [hillegal])
    exact PlZero.faultOf_eq_none hillegal hk

/-- The largest number has ten digits. -/
theorem Writable.length_le (h : t.Writable) (hk : t.kind = .number) :
    t.spelling.length ≤ Text.maxDigits := by
  obtain ⟨n, -, hspelling, hn⟩ := h.number hk
  have hten : (Nat.toDigits 10 n).length ≤ 10 := by
    rw [Nat.length_toDigits_le_iff (by decide) (by decide)]
    omega
  rw [hspelling]
  exact hten.trans (by decide)

end Token

/-- Signs and reserved words can be written. -/
theorem Token.writable_of_sign {k : Kind} (hk : k ∈ Kind.keywords ∨ k ∈ Kind.operators)
    (l : Location) : Token.Writable ⟨k, l, .absent⟩ := by
  cases k <;> first | rfl | exact absurd hk (by decide)

/-- What a lexeme denotes can be written, also a number that is too large, which counts as
    zero. -/
theorem Denotes.writable {x : List Char} {k : Kind} {p : Payload} (h : Denotes x k p)
    (hk : k ≠ .illegal) (l : Location) : Token.Writable ⟨k, l, p⟩ := by
  cases h with
  | keyword hk => exact Token.writable_of_sign (.inl hk) l
  | operator hk => exact Token.writable_of_sign (.inr hk) l
  | identifier hx hfree =>
    refine ⟨String.ofList x, rfl, by rwa [String.toList_ofList], ?_⟩
    intro k hk hspelling
    exact hfree k hk (by rw [hspelling, String.toList_ofList])
  | number hx hsmall => exact ⟨decimal x, rfl, hsmall⟩
  | tooLarge hx hlarge => exact ⟨0, rfl, Nat.zero_le _⟩
  | illegal hc => exact absurd rfl hk

/-- The tokens of a source can be written, but for illegal characters and the end. -/
theorem scan_writable (source : List Char) (file : String) : ∀ t fault,
    Scan.token t fault ∈ scan source file → t.kind ∉ [Kind.endOfFile, .illegal] →
      t.Writable := by
  apply scan_forall
  · intro l hk
    exact absurd List.mem_cons_self hk
  · intro ch rest k p fault l hmeaning hk
    have hclassified := Lexeme.longest_classified ch rest
    obtain ⟨hdenotes, -⟩ := Lexeme.meaning_denotes hclassified hmeaning
    exact hdenotes.writable (fun hillegal => hk (by simp [hillegal])) l

/-! ### Texts made of spellings -/

/-- The text of tokens, each with what stands behind it. -/
def spelled (items : List (Token × List Char)) : List Char :=
  items.flatMap fun x => x.1.spelling ++ x.2

@[simp] theorem spelled_cons (t : Token) (w : List Char) (items : List (Token × List Char)) :
    spelled ((t, w) :: items) = t.spelling ++ (w ++ spelled items) := by
  simp [spelled]

/-- Tokens that can be written, with texts behind them.  Each spelling is what the scanner has
    to take where it stands, and the text behind it is passed over. -/
def Apart : List (Token × List Char) → Prop
  | [] => True
  | (t, w) :: items =>
    t.Writable ∧ Munched t.spelling (w ++ spelled items) ∧ Trivia w (spelled items) ∧
      Stuck (spelled ((t, w) :: items)) ∧ Apart items

theorem Apart.stuck {items : List (Token × List Char)} (h : Apart items) :
    Stuck (spelled items) := by
  cases items with
  | nil => simp [spelled, Stuck]
  | cons x items => exact h.2.2.2.1

/-- Spellings and what stands between them are the pieces of their text. -/
theorem Apart.cut {lead : List Char} {items : List (Token × List Char)} (h : Apart items)
    (file : String) (before : List Char) (hlead : Trivia lead (spelled items)) :
    ∃ pieces last, textOf pieces last = lead ++ spelled items ∧ Cut file before pieces last ∧
      (∀ x ∈ pieces, x.Readable ∧ x.fault = none) ∧
      pieces.map (fun x => x.token.symbol) = items.map fun x => x.1.symbol := by
  have hlongest : LongestTrivia lead (spelled items) := hlead.longest_of_stuck h.stuck
  induction items generalizing before lead with
  | nil => exact ⟨[], lead, by simp [spelled], hlongest, by simp, rfl⟩
  | cons x items ih =>
    obtain ⟨t, w⟩ := x
    obtain ⟨hwritable, hmunched, hw, -, hitems⟩ := h
    let piece : Piece := ⟨lead, t.spelling, { t with location := placeIn file (before ++ lead) }⟩
    obtain ⟨pieces, last, htext, hcut, hpieces, hsymbols⟩ :=
      ih hitems (before ++ piece.text) hw (hw.longest_of_stuck hitems.stuck)
    refine ⟨piece :: pieces, last, ?_, ?_, ?_, ?_⟩
    · rw [textOf_cons, htext, spelled_cons]
      simp [piece, Piece.text]
    · rw [spelled_cons, ← htext] at hlongest
      rw [← htext] at hmunched
      exact ⟨hlongest, hmunched, hwritable.denotes, rfl, hcut⟩
    · intro y hy
      rcases List.mem_cons.mp hy with rfl | hy
      · exact ⟨hwritable.length_le, hwritable.faultOf_eq_none⟩
      · exact hpieces y hy
    · rw [List.map_cons, List.map_cons, hsymbols]
      rfl

/-- A text whose lexemes stand apart is scanned to its tokens, up to their places. -/
theorem Apart.scan {items : List (Token × List Char)} (h : Apart items) (file : String) :
    ∃ (tokens : List Token) (place : Location),
      scan (spelled items) file = (tokens ++ [Token.endOfFile place]).map (Scan.token · none) ∧
        tokens.map Token.symbol = items.map fun x => x.1.symbol := by
  have hlead : Trivia [] (spelled items) := .none
  obtain ⟨pieces, last, htext, hcut, hpieces, hsymbols⟩ := h.cut file [] hlead
  have hscan := hcut.scan_eq fun x hx => (hpieces x hx).1
  have hclear : pieces.map Piece.scan = pieces.map fun x => Scan.token x.token none := by
    apply List.map_congr_left
    intro x hx
    rw [Piece.scan, (hpieces x hx).2]
  rw [htext, List.nil_append, hclear] at hscan
  refine ⟨pieces.map Piece.token, placeIn file (spelled items), ?_, ?_⟩
  · rw [hscan]
    simp
  · rw [← hsymbols, List.map_map]
    rfl

/-- Tokens that can be written, with separators between them and an end behind the last. -/
def Spaced : List (Token × List Char) → Prop
  | [] => True
  | (t, w) :: items =>
    t.Writable ∧ (if items = [] then Closes w else Separates w) ∧ Spaced items

theorem spaced_of_forall {items : List (Token × List Char)}
    (hwritable : ∀ x ∈ items, x.1.Writable) (hbetween : ∀ x ∈ items.dropLast, Separates x.2)
    (hlast : ∀ x ∈ items.getLast?, Closes x.2) : Spaced items := by
  induction items with
  | nil => trivial
  | cons x items ih =>
    constructor
    · exact hwritable x (by simp)
    · cases items with
      | nil => simpa [Spaced] using hlast
      | cons y items =>
        constructor
        · simpa using hbetween x (by simp)
        · apply ih
          · exact fun z hz => hwritable z (List.mem_cons_of_mem _ hz)
          · intro z hz
            exact hbetween z (by rw [List.dropLast_cons_cons]; exact List.mem_cons_of_mem _ hz)
          · simpa using hlast

/-- What stands behind a token of such a text ends its lexeme and is passed over. -/
theorem Spaced.behind {t : Token} {w : List Char} {items : List (Token × List Char)}
    (h : Spaced ((t, w) :: items)) :
    EndsLexeme (w ++ spelled items) ∧ Trivia w (spelled items) := by
  obtain ⟨-, hw, -⟩ := h
  by_cases hnil : items = []
  · rw [if_pos hnil] at hw
    rw [hnil]
    simpa [spelled] using And.intro hw.endsLexeme hw.trivia
  · rw [if_neg hnil] at hw
    exact ⟨hw.endsLexeme _, hw.1.trivia _⟩

/-- A blank or the end of the text behind each spelling keeps them apart. -/
theorem Spaced.apart {items : List (Token × List Char)} (h : Spaced items) : Apart items := by
  induction items with
  | nil => trivial
  | cons x items ih =>
    obtain ⟨t, w⟩ := x
    obtain ⟨hends, hw⟩ := h.behind
    obtain ⟨hwritable, -, hitems⟩ := h
    refine ⟨hwritable, hwritable.isLexeme.munched hends, hw, ?_, ih hitems⟩
    rw [spelled_cons]
    exact hwritable.isLexeme.stuck hends

theorem Spaced.cut {lead : List Char} {items : List (Token × List Char)} (h : Spaced items)
    (file : String) (before : List Char) (hlead : Trivia lead (spelled items)) :
    ∃ pieces last, textOf pieces last = lead ++ spelled items ∧ Cut file before pieces last ∧
      (∀ x ∈ pieces, x.Readable ∧ x.fault = none) ∧
      pieces.map (fun x => x.token.symbol) = items.map fun x => x.1.symbol :=
  h.apart.cut file before hlead

/-- Scanning undoes spelling.  Tokens that can be written, with a mix of blanks and comments
    before the first, with mixes that begin with a blank between them, and with nothing or a
    blank and a mix behind the last, are scanned to their kinds and payloads in their order
    and to the end of the input.  No token has a fault, so a scanner that stops at the first
    fault hands over the same. -/
theorem scan_spelled (file : String) {lead : List Char} {items : List (Token × List Char)}
    (hlead : Gap lead) (hwritable : ∀ x ∈ items, x.1.Writable)
    (hbetween : ∀ x ∈ items.dropLast, Separates x.2) (hlast : ∀ x ∈ items.getLast?, Closes x.2) :
    ∃ tokens : List Token, scan (lead ++ spelled items) file = tokens.map (Scan.token · none) ∧
      scanStrict (lead ++ spelled items) file = (tokens, none) ∧
      tokens.map Token.symbol = items.map (fun x => x.1.symbol) ++ [(.endOfFile, .absent)] := by
  have hspaced := spaced_of_forall hwritable hbetween hlast
  obtain ⟨pieces, last, htext, hcut, hpieces, hsymbols⟩ :=
    hspaced.cut file [] (hlead.trivia _)
  have hscan := hcut.scan_eq fun x hx => (hpieces x hx).1
  rw [htext] at hscan
  have hclear : pieces.map Piece.scan = pieces.map fun x => Scan.token x.token none := by
    apply List.map_congr_left
    intro x hx
    rw [Piece.scan, (hpieces x hx).2]
  let tokens := pieces.map Piece.token ++ [.endOfFile (placeIn file (lead ++ spelled items))]
  have htokens : scan (lead ++ spelled items) file = tokens.map (Scan.token · none) := by
    rw [hscan, hclear]
    simp [tokens]
  refine ⟨tokens, htokens, ?_, ?_⟩
  · have hstrict := scanStrictFrom_of_faultless [] htokens
    simpa [scanStrict] using hstrict
  · simp only [tokens, List.map_append, List.map_map, ← hsymbols]
    rfl

/-- The hypotheses of `scan_spelled` hold of a quotient with comments between its tokens. -/
theorem scan_spelled_quotient :
    let lead := "//7\n".toList
    let name : Token := ⟨.identifier, .unknown, .text "x_1"⟩
    let sign : Token := ⟨.divide, .unknown, .absent⟩
    let number : Token := ⟨.number, .unknown, .number 2147483647⟩
    let items := [(name, " ////\n".toList), (sign, ['\t']), (number, "\r//7".toList)]
    Gap lead ∧ (∀ x ∈ items, x.1.Writable) ∧ (∀ x ∈ items.dropLast, Separates x.2) ∧
      (∀ x ∈ items.getLast?, Closes x.2) ∧
      ∃ tokens : List Token, scan (lead ++ spelled items) "a.pl0" = tokens.map (Scan.token · none) ∧
        tokens.map Token.symbol = [(.identifier, .text "x_1"), (.divide, .absent),
          (.number, .number 2147483647), (.endOfFile, .absent)] := by
  intro lead name sign number items
  have hlead : Gap lead :=
    show Gap ('/' :: '/' :: (['7'] ++ ['\n'])) from .comment (by decide) .none
  have hword : IsWord "x_1".toList := ⟨'x', ['_', '1'], rfl, rfl, by simp [isWordChar, isDigit]⟩
  have hname : name.Writable := ⟨"x_1", rfl, hword, by decide⟩
  have hnumber : number.Writable := ⟨2147483647, rfl, by decide⟩
  have hwritable : ∀ x ∈ items, x.1.Writable := by
    simp only [items, List.forall_mem_cons, List.not_mem_nil, false_implies, implies_true,
      and_true]
    exact ⟨hname, rfl, hnumber⟩
  have hbetween : ∀ x ∈ items.dropLast, Separates x.2 := by
    simp only [items, List.dropLast_cons_cons, List.dropLast_singleton, List.forall_mem_cons,
      List.not_mem_nil, false_implies, implies_true, and_true]
    constructor
    · have hcomment : Gap ('/' :: '/' :: (['/', '/'] ++ ['\n'])) := .comment (by decide) .none
      exact ⟨.blank (by decide) hcomment, ' ', _, rfl, by decide⟩
    · exact ⟨.blank (by decide) .none, '\t', [], rfl, by decide⟩
  have hlast : ∀ x ∈ items.getLast?, Closes x.2 := by
    intro x hx
    obtain rfl := Option.some.inj hx
    have hcomment : Trivia ('/' :: '/' :: (['7'] ++ [])) [] :=
      .comment (by decide) (by simp [LineEnds]) .none
    exact .inr ⟨'\r', _, rfl, by decide, hcomment⟩
  obtain ⟨tokens, hscan, -, hsymbols⟩ :=
    scan_spelled "a.pl0" hlead hwritable hbetween hlast
  exact ⟨hlead, hwritable, hbetween, hlast, tokens, hscan, hsymbols⟩

end PlZero
