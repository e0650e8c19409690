/-
  PlZero/Proofs/Token/FirstFault.lean
  ===================================
  **Stopping at the first fault.**  A source is scanned in two ways: to its end, with its faults
  noted, or up to its first fault, which is a failure then.  Both take the same pieces
  (`Cut.scanStrictFrom_stopped`), so the tokens before the failure are those before the first
  piece with a fault, and scanning does not fail if there is no such piece.

  A failure quotes the line of its token.  The scanner keeps the text from the start of the
  line it is in (`Cursor.Lined`), from which that line is read off, however far behind its start
  the fault is found; it is the one that counting line feeds leads to (`Cut.step_lined`).
-/
import PlZero.Proofs.Diagnostic.ContextLines

namespace PlZero

open Text

/-! ### The line of a place -/

/-- The lines of a text are what stands between its line feeds. -/
theorem Text.splitOn_feed (cs : List Char) {n : Nat} (hn : n ≤ cs.count '\n') :
    (cs.splitOn '\n')[n]? = some (upToFeed (behindFeeds n cs)) := by
  induction cs generalizing n with
  | nil =>
    obtain rfl : n = 0 := by simpa using hn
    rfl
  | cons c cs ih =>
    rw [List.splitOn_cons_eq_if_modifyHead]
    by_cases hc : c = '\n'
    · subst hc
      cases n with
      | zero => rfl
      | succ n =>
        have hn : n ≤ cs.count '\n' := by simpa using hn
        simpa using ih hn
    · have hcount : (c :: cs).count '\n' = cs.count '\n' := List.count_cons_of_ne hc
      have hfirst := ih (Nat.zero_le _)
      rw [if_neg (by simpa using hc), List.getElem?_modifyHead]
      cases n with
      | zero =>
        rw [if_pos rfl, hfirst]
        simp [upToFeed, hc]
      | succ n =>
        rw [if_neg (Nat.succ_ne_zero n), ih (hcount ▸ hn), behindFeeds, if_neg hc]

/-- The line in which a text goes on that stands behind another. -/
theorem Text.splitOn_append (before cs : List Char) :
    ((before ++ cs).splitOn '\n')[before.count '\n']? =
      some (upToFeed (behindFeeds (before.count '\n') (before ++ cs))) := by
  apply splitOn_feed
  rw [List.count_append]
  exact Nat.le_add_right _ _

/-- A cursor that has the text from the start of its line. -/
def Cursor.Lined (c : Cursor) (before : List Char) : Prop :=
  c.lineStart = behindFeeds (before.count '\n') (before ++ c.rest)

theorem behindFeeds_newline (before rest : List Char) :
    behindFeeds ((before ++ ['\n']).count '\n') (before ++ ['\n'] ++ rest) = rest := by
  rw [behindFeeds_count, List.reverse_concat, upToFeed_feed]
  rfl

/-- Without a line feed the line stays the same. -/
theorem behindFeeds_same_line {w : List Char} (hw : '\n' ∉ w) (before rest : List Char) :
    behindFeeds ((before ++ w).count '\n') (before ++ w ++ rest) =
      behindFeeds (before.count '\n') (before ++ (w ++ rest)) := by
  rw [List.count_append, List.count_eq_zero.mpr hw, Nat.add_zero, List.append_assoc]

/-- The scanner passes over trivia and keeps the start of the line that it comes to. -/
theorem skipTrivia_lined (inComment : Bool) (line column : Nat) (lineStart cs before : List Char)
    (hlined : lineStart = behindFeeds (before.count '\n') (before ++ cs)) :
    ∃ w, cs = w ++ (skipTrivia inComment line column lineStart cs).rest ∧
      (skipTrivia inComment line column lineStart cs).Lined (before ++ w) := by
  fun_induction skipTrivia inComment line column lineStart cs generalizing before with
  | case1 inComment line column lineStart => exact ⟨[], rfl, by simpa [Cursor.Lined] using hlined⟩
  | case2 inComment line column lineStart rest ih =>
    -- the new line starts with what is left of the source
    have hnext := behindFeeds_newline before rest
    obtain ⟨w, hw, hbehind⟩ := ih (before ++ ['\n']) hnext.symm
    exact ⟨'\n' :: w, by rw [List.cons_append, ← hw], by simpa using hbehind⟩
  | case3 inComment line column lineStart c rest hne hpass ih =>
    have hc : '\n' ∉ [c] := fun hmem => hne (List.mem_singleton.mp hmem).symm
    have hnext := behindFeeds_same_line hc before rest
    obtain ⟨w, hw, hbehind⟩ := ih (before ++ [c]) (hlined.trans hnext.symm)
    exact ⟨c :: w, by rw [List.cons_append, ← hw], by simpa using hbehind⟩
  | case4 inComment line column lineStart rest hne hpass ih =>
    have hslashes : '\n' ∉ ['/', '/'] := by decide
    have hnext := behindFeeds_same_line hslashes before rest
    obtain ⟨w, hw, hbehind⟩ := ih (before ++ ['/', '/']) (hlined.trans hnext.symm)
    exact ⟨'/' :: '/' :: w, by rw [List.cons_append, List.cons_append, ← hw],
      by simpa using hbehind⟩
  | case5 inComment line column lineStart rest hrest hne hpass =>
    exact ⟨[], rfl, by simpa [Cursor.Lined] using hlined⟩
  | case6 inComment line column lineStart c rest hne hpass hslash =>
    exact ⟨[], rfl, by simpa [Cursor.Lined] using hlined⟩

theorem Cursor.Lined.skipTrivia {c : Cursor} {before w : List Char} (h : c.Lined before)
    (hw : c.rest = w ++ c.skipTrivia.rest) : c.skipTrivia.Lined (before ++ w) := by
  obtain ⟨w', hw', hlined⟩ :=
    skipTrivia_lined false c.line c.column c.lineStart c.rest before h
  obtain rfl : w = w' := List.append_cancel_right (hw.symm.trans hw')
  exact hlined

theorem Cursor.Lined.past {c : Cursor} {before x rest : List Char} (h : c.Lined before)
    (hx : '\n' ∉ x) (hrest : c.rest = x ++ rest) : (c.past x rest).Lined (before ++ x) := by
  unfold Cursor.Lined at h
  rw [hrest] at h
  exact h.trans (behindFeeds_same_line hx before rest).symm

/-! ### Pieces in their lines -/

/-- The line of a source in which a piece stands: the one that the line of its token counts,
    whose character at the column of the token is the first of the lexeme. -/
def Piece.InLine (source : List Char) (x : Piece) (text : List Char) : Prop :=
  (source.splitOn '\n')[(x.token.location.line - 1).toNat]? = some text ∧
    ∃ c, text[(x.token.location.column - 1).toNat]? = some c ∧ x.lexeme.head? = some c

/-- A piece stands in the line that the scanner has when it comes to its lexeme. -/
theorem Piece.inLine {file : String} {before : List Char} (rest : List Char) {x : Piece}
    (hlocation : x.token.location = placeIn file before) (hne : x.lexeme ≠ [])
    (hfeed : '\n' ∉ x.lexeme) :
    x.InLine (before ++ (x.lexeme ++ rest))
      (upToFeed (behindFeeds (before.count '\n') (before ++ (x.lexeme ++ rest)))) := by
  obtain ⟨c, cs, hcons⟩ := List.exists_cons_of_ne_nil hne
  have hline : (x.token.location.line - 1).toNat = before.count '\n' := by
    rw [hlocation]
    simp only [placeIn, placeAfter]
    omega
  have hcolumn : (x.token.location.column - 1).toNat = (upToFeed before.reverse).reverse.length := by
    rw [hlocation, List.length_reverse]
    simp only [placeIn, placeAfter, upToFeed]
    omega
  have hstart : '\n' ∉ (upToFeed before.reverse).reverse := by
    rw [List.mem_reverse]
    exact feed_notMem_upToFeed _
  unfold Piece.InLine
  rw [hline, hcolumn]
  refine ⟨splitOn_append _ _, c, ?_, by rw [hcons]; rfl⟩
  rw [behindFeeds_count, upToFeed_append hstart, upToFeed_append hfeed, hcons]
  simp

/-! ### Scanning up to a fault -/

theorem scanStrictFrom_done (file : String) (fuel : Nat) (c : Cursor) (done : List Token) :
    scanStrictFrom file fuel c done =
      (done.reverse ++ (scanStrictFrom file fuel c []).1, (scanStrictFrom file fuel c []).2) := by
  induction fuel generalizing c done with
  | zero => simp [scanStrictFrom]
  | succ fuel ih =>
    unfold scanStrictFrom
    cases c.step with
    | ended place => simp
    | found place lexeme behind =>
      cases hmeaning : lexeme.meaning with
      | none => simp [hmeaning]
      | some found =>
        obtain ⟨k, p, fault⟩ := found
        cases fault with
        | none =>
          simp only [hmeaning]
          rw [ih behind (_ :: done), ih behind [_]]
          simp
        | some fault => simp [hmeaning]

/-- How scanning ends that stops at the first fault: with all tokens of the pieces if none of
    them has a fault, and else with those before the first piece that has one. -/
inductive Stopped (source : List Char) (ending : Token) :
    List Piece → List Token × Option Failure → Prop
  | never {pieces : List Piece} (hclear : ∀ x ∈ pieces, x.fault = none) :
      Stopped source ending pieces (pieces.map Piece.token ++ [ending], none)
  | fault (clear : List Piece) {behind : List Piece} {x : Piece} {problem : Problem} {line : List Char}
      (hclear : ∀ y ∈ clear, y.fault = none) (hfault : x.fault = some problem)
      (hline : x.InLine source line) :
      Stopped source ending (clear ++ x :: behind) (clear.map Piece.token,
        some (faultFailure problem x.token.location (String.ofList line)))

theorem Stopped.cons {source : List Char} {ending : Token} {pieces : List Piece}
    {r : List Token × Option Failure} {x : Piece} (h : Stopped source ending pieces r)
    (hx : x.fault = none) : Stopped source ending (x :: pieces) (x.token :: r.1, r.2) := by
  cases h with
  | never hclear => exact .never (List.forall_mem_cons.mpr ⟨hx, hclear⟩)
  | fault clear hclear hfault hline =>
    exact .fault (x :: clear) (List.forall_mem_cons.mpr ⟨hx, hclear⟩) hfault hline

theorem Cursor.step_found {c place behind : Cursor} {lexeme : Lexeme}
    (h : c.step = .found place lexeme behind) : place = c.skipTrivia ∧
      behind = c.skipTrivia.past lexeme.chars behind.rest ∧
      c.skipTrivia.rest = lexeme.chars ++ behind.rest := by
  unfold Cursor.step at h
  dsimp only at h
  split at h
  · cases h
  · next ch rest hrest =>
    obtain ⟨rfl, rfl, rfl⟩ := Step.found.inj h
    exact ⟨rfl, rfl, hrest.trans (Lexeme.longest_append ch rest).1.symm⟩

/-- The scanner takes the first piece and knows the line in which it stands. -/
theorem Cut.step_lined {file : String} {before last : List Char} {x : Piece}
    {pieces : List Piece} (h : Cut file before (x :: pieces) last) {c : Cursor}
    (hlined : c.Lined before) (htext : c.rest = textOf (x :: pieces) last)
    {place behind : Cursor} {lexeme : Lexeme} (hstep : c.step = .found place lexeme behind)
    (hchars : lexeme.chars = x.lexeme) (hbehind : behind.rest = textOf pieces last) :
    behind.Lined (before ++ x.text) ∧ x.InLine (before ++ c.rest) place.lineText := by
  obtain ⟨hlongest, hmunched, -, hlocation, -⟩ := h
  have hfeed : '\n' ∉ x.lexeme := fun hmem => hmunched.not_blank hlongest _ hmem (by decide)
  obtain ⟨rfl, hpast, hrest⟩ := Cursor.step_found hstep
  rw [hchars, hbehind] at hpast hrest
  have hw : c.rest = x.trivia ++ c.skipTrivia.rest := by
    rw [htext, hrest, textOf_cons, Piece.text, List.append_assoc]
  have hplace := hlined.skipTrivia hw
  constructor
  · rw [hpast, Piece.text, ← List.append_assoc]
    exact hplace.past hfeed hrest
  · have hline := Piece.inLine (textOf pieces last) hlocation hmunched.ne_nil hfeed
    unfold Cursor.Lined at hplace
    rw [← hrest, ← hplace, List.append_assoc, ← hw] at hline
    exact hline

/-- A text that is cut into pieces is scanned up to the first piece with a fault. -/
theorem Cut.scanStrictFrom_stopped {file : String} {before last : List Char}
    {pieces : List Piece} (h : Cut file before pieces last) (hread : ∀ x ∈ pieces, x.Readable)
    {fuel : Nat} {c : Cursor} (hat : c.At before) (hlined : c.Lined before)
    (htext : c.rest = textOf pieces last) (hfuel : c.rest.length < fuel) :
    Stopped (before ++ c.rest) (.endOfFile (placeIn file (before ++ c.rest))) pieces
      (scanStrictFrom file fuel c []) := by
  induction pieces generalizing before fuel c with
  | nil =>
    cases fuel with
    | zero => exact absurd hfuel (Nat.not_lt_zero _)
    | succ fuel =>
      obtain ⟨place, hstep, hplace⟩ := h.step_last hat htext
      have hlast : c.rest = last := htext
      unfold scanStrictFrom
      simp only [hstep, hplace, hlast]
      exact .never (by simp)
  | cons x pieces ih =>
    cases fuel with
    | zero => exact absurd hfuel (Nat.not_lt_zero _)
    | succ fuel =>
      obtain ⟨place, lexeme, behind, hstep, hplace, hchars, hclassified, hnext, hbehind⟩ :=
        h.step_eq hat htext
      obtain ⟨hlined', hline⟩ := h.step_lined hlined htext hstep hchars hbehind
      obtain ⟨-, hmunched, hdenotes, -, hcut⟩ := h
      have hread' : ∀ y ∈ pieces, y.Readable := fun y hy => hread y (List.mem_cons_of_mem x hy)
      have hmeaning := (hread x (List.mem_cons_self ..)).meaning_eq hdenotes hclassified hchars
      have hshorter : behind.rest.length < fuel := by
        rw [hbehind]
        exact textOf_lt hmunched.ne_nil (htext ▸ hfuel)
      have hsource : before ++ c.rest = before ++ x.text ++ behind.rest := by
        rw [htext, hbehind, textOf_cons, List.append_assoc]
      unfold scanStrictFrom
      simp only [hstep, hmeaning, hplace]
      cases hfault : x.fault with
      | none =>
        have hlater := ih hcut hread' hnext hlined' hbehind hshorter
        dsimp only
        rw [scanStrictFrom_done, hsource]
        exact hlater.cons hfault
      | some problem =>
        -- nothing behind the fault is looked at
        exact .fault [] (by simp) hfault hline

theorem Denotes.isDigits {x : List Char} {p : Payload} (h : Denotes x .number p) :
    IsDigits x := by
  cases h with
  | keyword hk => exact absurd hk (by decide)
  | number hx _ => exact hx
  | tooLarge hx _ => exact hx
  | operator hk => exact absurd hk (by decide)

/-- The character of an illegal token is what its lexeme holds. -/
theorem Denotes.illegal_payload {c : Char} {p : Payload} (h : Denotes [c] .illegal p) :
    p = .text (String.singleton c) := by
  generalize hx : [c] = x at h
  cases h with
  | keyword hk => exact absurd hk (by decide)
  | operator hk => exact absurd hk (by decide)
  | illegal hc =>
    obtain rfl := List.singleton_inj.mp hx
    rfl

theorem diagnostics_clear {pieces : List Piece} (h : ∀ x ∈ pieces, x.fault = none) :
    pieces.filterMap Piece.diagnostic? = [] := by
  rw [List.filterMap_eq_nil_iff]
  intro x hx
  rw [Piece.diagnostic?, h x hx, Option.map_none]

/-- Where no digit run is too long, numbers can be read. -/
theorem Cut.readable {file : String} {last : List Char} {pieces : List Piece}
    (h : Cut file [] pieces last) (hshort : NoLongDigitRun (textOf pieces last)) :
    ∀ x ∈ pieces, x.Readable := by
  intro x hx hnumber
  obtain ⟨place, rest, htext, -, hdenotes, -, -⟩ := h.token_in_line x hx
  rw [hnumber] at hdenotes
  apply hshort x.lexeme ?_ hdenotes.isDigits.2
  rw [← List.nil_append (textOf pieces last), htext]
  exact ⟨place, rest, by rw [List.append_assoc]⟩

/-- A source that is cut into pieces is scanned up to the first piece with a fault. -/
theorem Cut.scanStrict_stopped {file : String} {last : List Char} {pieces : List Piece}
    (h : Cut file [] pieces last) (hread : ∀ x ∈ pieces, x.Readable) :
    Stopped (textOf pieces last) (.endOfFile (placeIn file (textOf pieces last))) pieces
      (scanStrict (textOf pieces last) file) := by
  have hat : (Cursor.start (textOf pieces last)).At [] := rfl
  have hlined : (Cursor.start (textOf pieces last)).Lined [] := (behindFeeds_zero _).symm
  exact h.scanStrictFrom_stopped hread hat hlined rfl (Nat.lt_succ_self _)

/-! ### Both ways to scan -/

/-- A source without a digit run that is too long fails to be scanned without a collector
    exactly if scanning it with one reports something.  If it does not fail, the tokens are the
    same.  If it does, then at the first piece `x` with a fault, whose diagnostic is the first
    one that is reported: the tokens are those before `x`, and the failure has the place of its
    token, the line of the source that this place counts, with the first character of the lexeme
    at its column, and says that the character is illegal or that the number is too large. -/
theorem strict_scan_agrees (source file : String) (h : NoLongDigitRun source.toList) :
    let lexed := Compilation.tokensOf (scan source.toList file) []
    let strict := scanStrict source.toList file
    (strict.2 ≠ none ↔ Journal.diagnostics lexed.2 ≠ []) ∧
    (strict.2 = none → strict.1 = lexed.1) ∧
    ∀ failure, strict.2 = some failure → ∃ clear x behind last text,
      textOf (clear ++ x :: behind) last = source.toList ∧
      Cut file [] (clear ++ x :: behind) last ∧
      (∀ y ∈ clear, y.fault = none) ∧
      lexed.1 = clear.map Piece.token ++ x.token :: behind.map Piece.token ++
        [.endOfFile (placeIn file source.toList)] ∧
      (∃ d, x.diagnostic? = some d ∧
        Journal.diagnostics lexed.2 = d :: behind.filterMap Piece.diagnostic?) ∧
      strict.1 = clear.map Piece.token ∧
      (source.toList.splitOn '\n')[(x.token.location.line - 1).toNat]? = some text ∧
      (∃ c, text[(x.token.location.column - 1).toNat]? = some c ∧ x.lexeme.head? = some c) ∧
      ((∃ c, x.token.kind = .illegal ∧ x.lexeme = [c] ∧
          x.token.payload = .text (String.singleton c) ∧
          failure = .invalidCharacter c (some x.token.location) (some (String.ofList text))) ∨
        (x.token.kind = .number ∧ 2 ^ 31 - 1 < decimal x.lexeme ∧
          failure = .compilation "integer too large" (some x.token.location) none
            (some (String.ofList text)))) := by
  intro lexed strict
  obtain ⟨pieces, last, htext, hcut, htokens, hdiagnostics⟩ := tokensOf_scan_pieces source file h
  have hread : ∀ x ∈ pieces, x.Readable := hcut.readable (htext ▸ h)
  have hstopped := hcut.scanStrict_stopped hread
  rw [htext] at hstopped
  change Stopped _ _ pieces strict at hstopped
  generalize strict = result at hstopped ⊢
  cases hstopped with
  | never hclear =>
    refine ⟨?_, fun _ => htokens.symm, fun failure hfailure => by cases hfailure⟩
    rw [hdiagnostics, diagnostics_clear hclear]
    simp
  | @fault clear behind x problem line hclear hfault hline =>
    have hdiagnostic : x.diagnostic? = some ⟨.error, problem, x.token.location⟩ := by
      rw [Piece.diagnostic?, hfault, Option.map_some]
    have hfirst : Journal.diagnostics lexed.2 =
        ⟨.error, problem, x.token.location⟩ :: behind.filterMap Piece.diagnostic? := by
      rw [hdiagnostics, List.filterMap_append, diagnostics_clear hclear, List.nil_append,
        List.filterMap_cons_some hdiagnostic]
    have hdenotes := hcut.denotes x (by simp)
    refine ⟨?_, ?_, ?_⟩
    · rw [hfirst]
      simp
    · intro hnone
      cases hnone
    · intro failure hfailure
      obtain rfl := Option.some.inj hfailure
      refine ⟨clear, x, behind, last, line, htext, hcut, hclear, ?_, ⟨_, hdiagnostic, hfirst⟩, rfl,
        hline.1, hline.2, ?_⟩
      · rw [htokens, List.map_append, List.map_cons]
      · rcases (hdenotes.fault_iff problem).mp hfault with
          ⟨c, hkind, hlexeme, rfl⟩ | ⟨hkind, hlarge, rfl⟩
        · rw [hkind, hlexeme] at hdenotes
          exact .inl ⟨c, hkind, hlexeme, hdenotes.illegal_payload, rfl⟩
        · exact .inr ⟨hkind, hlarge, rfl⟩

/-- The hypothesis of `strict_scan_agrees` holds of a text whose first fault, a number that is
    too large, stands behind a comment with a sign that is no fault, in a last line that no line
    feed ends. -/
theorem strict_scan_agrees_last_line :
    let source := "a // ?\n\tb := 2147483648 ?"
    let lexed := Compilation.tokensOf (scan source.toList "a.pl0") []
    let strict := scanStrict source.toList "a.pl0"
    NoLongDigitRun source.toList ∧
      strict.2 = some (.compilation "integer too large" (some ⟨"a.pl0", 2, 7⟩) none
        (some "\tb := 2147483648 ?")) ∧
      Journal.diagnostics lexed.2 ≠ [] ∧
      ∃ (x : Piece) (behind : List Token), lexed.1 = strict.1 ++ x.token :: behind ∧
        strict.1.length = 3 ∧ x.token.location = ⟨"a.pl0", 2, 7⟩ ∧ x.lexeme.head? = some '2' := by
  intro source lexed strict
  have h : NoLongDigitRun source.toList := fun ds hds _ => hds.length_le.trans (by decide)
  have hfailure : strict.2 = some (.compilation "integer too large" (some ⟨"a.pl0", 2, 7⟩) none
      (some "\tb := 2147483648 ?")) := by decide +kernel
  obtain ⟨hiff, -, hfault⟩ := strict_scan_agrees source "a.pl0" h
  obtain ⟨clear, x, behind, last, line, -, -, -, hlexed, -, hstrict, hline, ⟨c, hc, hhead⟩,
    hkind⟩ := hfault _ hfailure
  have hplace : x.token.location = ⟨"a.pl0", 2, 7⟩ := by
    rcases hkind with ⟨c, -, -, -, hillegal⟩ | ⟨-, -, hnumber⟩
    · cases hillegal
    · injection hnumber with _ hlocation
      exact (Option.some.inj hlocation).symm
  rw [hplace] at hline hc
  have hsecond : (source.toList.splitOn '\n')[((2 : Int) - 1).toNat]? =
      some "\tb := 2147483648 ?".toList := by decide +kernel
  obtain rfl := Option.some.inj (hsecond.symm.trans hline)
  have hchar : c = '2' := (Option.some.inj hc).symm
  refine ⟨h, hfailure, hiff.mp ?_, x,
    behind.map Piece.token ++ [.endOfFile (placeIn "a.pl0" source.toList)], ?_,
    by decide +kernel, hplace, hchar ▸ hhead⟩
  · rw [hfailure]
    exact Option.some_ne_none _
  · rw [hlexed, hstrict, List.append_assoc, List.cons_append]

end PlZero
