/-
  PlZero/Proofs/Printing/Outcome.lean
  ===================================
  **A printed expression is read back.**  The printed form of an expression of a program that
  is read without a diagnostic is scanned without a fault and read as a condition without a
  diagnostic, and what is read is the expression that was printed, up to places.  This takes
  that every sign stands where an expression begins, since the printer puts no parentheses
  around a sign.
-/
import PlZero.Proofs.Acceptance.Outcome
import PlZero.Proofs.Printing.Collected

namespace PlZero.Grammar

open PlZero.Derivation (AllWritable outermost)

variable {maxDepth : Nat}

/-- Reads scans as a condition, up to the end of the input, with a table: the condition and
    what happened. -/
def readCondition (scans : List Scan) (symbols : SymbolTable) :
    Except (Abort × Journal) (Expression × Journal) :=
  match Stream.start scans [] with
  | .error e => .error e
  | .ok stream =>
    match condition {.endOfFile} ⟨stream, symbols, 0⟩ with
    | .ok e s => .ok (e, s.stream.journal)
    | .error a s => .error (a, s.stream.journal)

/-- The tokens of a derived condition are read as its tree, without a diagnostic. -/
theorem readCondition_derived (c : Derivation.Condition) (hn : c.nesting ≤ maxNesting)
    {t : Token} (ht : t.kind = .endOfFile) (T : SymbolTable) :
    ∃ j, readCondition ((c.tokens ++ [t]).map fun t => .token t none) T =
      .ok (c.tree T.current, j) ∧ j.diagnostics = [] := by
  have hne : c.tokens ++ [t] ≠ [] := by simp
  obtain ⟨s, hstart, hreports, hs⟩ := start_before hne
  have hyields : Reader.Yields (fun _ _ => False) 0 T (condition {.endOfFile}) c.tokens []
      (c.tree T.current) [] T := condition_yields c hn (by decide) (by decide)
  have hahead : s.ahead = c.tokens ++ [] := by
    rw [hs.ahead, Scan.beforeEnd_append (Derivation.Avoids.unused c.ordinary).ne_end ht,
      List.append_nil]
  have hends := hyields ⟨s, T, 0⟩ ⟨hs.clear, hs.faultless, rfl, rfl, hahead⟩
  unfold readCondition
  rw [hstart]
  rcases hends.cases with ⟨e, u, hm, rfl, -, hsince⟩ | ⟨e, u, -, hfalse⟩
  · have hquiet : u.stream.reports = [] := hsince.reports.trans hreports
    dsimp only
    rw [hm]
    refine ⟨u.stream.journal, rfl, ?_⟩
    rw [Journal.diagnostics_eq]
    show u.stream.reports.reverse = []
    rw [hquiet, List.reverse_nil]
  · exact hfalse.elim

/-- The tokens of a program that is read without a diagnostic can be written. -/
theorem derived_written {source file : String} {c : Derivation.Block}
    (h : Scan.beforeEnd (Compilation.tokensOf (scan source.toList file) []).1 = c.tokens) :
    AllWritable c.tokens := by
  intro t ht
  have hne : t.kind ∉ [Kind.endOfFile, .illegal] := by
    intro hk
    refine c.ordinary t ht ?_
    rcases List.mem_pair.mp hk with hk | hk <;> rw [hk] <;> decide
  rw [← h, (tokensOf_eq _ _).1] at ht
  have hmem : t ∈ (scan source.toList file).filterMap Scan.token? :=
    (List.takeWhile_sublist _).mem ht
  obtain ⟨x, hx, htoken⟩ := List.mem_filterMap.mp hmem
  cases x with
  | overlong n => cases htoken
  | token u fault =>
    obtain rfl := Option.some.inj htoken
    exact scan_writable _ _ _ _ hx hne

/-- Let a source be read without a diagnostic, and let an expression of the program have signs
    only where an expression begins, and no more parentheses within each other than a condition
    may have.  Then its printed form is scanned without a fault, and in any table with the same
    scope open it is read as a condition without a diagnostic, to the expression that was
    printed, up to places. -/
theorem expression_reprinted (source file file' : String) {p : Parsed} {scope : Nat}
    {e : Expression}
    (hread : parse maxDepth ((Compilation.tokensOf (scan source.toList file) []).1.map
      fun t => .token t none) [] = .ok p)
    (hquiet : p.journal.diagnostics = []) (he : (scope, e) ∈ p.program.expressions)
    (hprintable : e.Printable true) (hdeep : e.parentheses ≤ maxNesting) :
    ∃ (text : String) (tokens : List Token), e.toNode.expressionText = .ok text ∧
      scan text.toList file' = tokens.map (Scan.token · none) ∧
      ∀ T : SymbolTable, T.current = scope → ∃ e' j,
        readCondition (tokens.map (Scan.token · none)) T = .ok (e', j) ∧ j.diagnostics = [] ∧
          e.Alike Anywhere e' := by
  -- what was read is the tree of a derivation whose tokens can be written
  obtain ⟨c, hbefore, hn⟩ := derived_of_quiet hread hquiet
  have hprogram : p.program = c.program := by
    rcases parse_of_derived maxDepth hn hbefore with ⟨q, hq, hprogram, -, -⟩ | ⟨⟨j, hj⟩, -⟩
    · obtain rfl := Except.ok.inj (hread.symm.trans hq)
      exact hprogram
    · cases hread.symm.trans hj
  have hlexed : e.Lexed scope := by
    rw [hprogram] at he
    exact c.expressions_lexed outermost (derived_written hbefore) _ he
  obtain ⟨text, htext, hspelled⟩ := e.items_text hprintable
  obtain ⟨tokens, place, hscan, hsymbols⟩ := e.items_scan hprintable hlexed file'
  rw [hspelled, List.append_nil] at hscan
  obtain ⟨d, rfl, halike, hnesting⟩ := Derivation.printed_condition e hprintable hlexed hsymbols
  refine ⟨text, d.tokens ++ [Token.endOfFile place], htext, hscan, fun T hT => ?_⟩
  obtain ⟨j, hj, hnone⟩ :=
    readCondition_derived d (hnesting.trans_le hdeep) (t := Token.endOfFile place) rfl T
  exact ⟨d.tree T.current, j, hj, hnone, hT ▸ halike⟩

/-- The hypotheses of `expression_reprinted` hold of a comparison with two signs, which are
    printed where they stood in the source. -/
theorem expression_reprinted_signs :
    let source := "begin while -x + 2 < -(y * 3) do skip end"
    let tokens := (Compilation.tokensOf (scan source.toList "a.pl0") []).1
    let place : Nat → Location := fun n => ⟨"a.pl0", 1, n⟩
    let e : Expression := .binary (place 20) .less
      (.binary (place 16) .add (.unary (place 13) .neg (.identifier (place 14) "x" 1))
        (.number (place 18) 2))
      (.unary (place 22) .neg
        (.binary (place 26) .mul (.identifier (place 24) "y" 1) (.number (place 28) 3)))
    (∃ p, parse 1000 (tokens.map fun t => .token t none) [] = .ok p ∧ p.journal.diagnostics = [] ∧
        (1, e) ∈ p.program.expressions) ∧
      e.Printable true ∧ e.parentheses ≤ maxNesting ∧
      ∃ (text : String) (us : List Token), e.toNode.expressionText = .ok text ∧
        text = "((-x + 2) < -(y * 3))" ∧
        scan text.toList "b.pl0" = us.map (Scan.token · none) ∧
        ∃ e' j, readCondition (us.map (Scan.token · none)) outermost = .ok (e', j) ∧
          j.diagnostics = [] ∧ e.Alike Anywhere e' := by
  intro source tokens place e
  have hrun : (parse 1000 (tokens.map fun t => .token t none) []).toOption.map
      (fun p => (p.journal.diagnostics, p.program.expressions)) = some ([], [(1, e)]) := by
    decide +kernel
  have hprintable : e.Printable true := by decide
  have hdeep : e.parentheses ≤ maxNesting := by decide
  have htext : e.toNode.expressionText = .ok "((-x + 2) < -(y * 3))" := rfl
  cases hp : parse 1000 (tokens.map fun t => .token t none) [] with
  | error a =>
    rw [hp] at hrun
    cases hrun
  | ok p =>
    rw [hp] at hrun
    obtain ⟨hquiet, hexpressions⟩ := Prod.mk.inj (Option.some.inj hrun)
    have he : (1, e) ∈ p.program.expressions := by simp [hexpressions]
    obtain ⟨text, us, hok, hscan, hreads⟩ :=
      expression_reprinted source "a.pl0" "b.pl0" hp hquiet he hprintable hdeep
    have hsame : text = "((-x + 2) < -(y * 3))" := Except.ok.inj (hok.symm.trans htext)
    exact ⟨⟨p, rfl, hquiet, he⟩, hprintable, hdeep, text, us, hok, hsame, hscan,
      hreads outermost rfl⟩

/-- A sign that stood between parentheses is printed without them.  Behind an operator it
    cannot be read back, and before a product it comes to negate the product. -/
theorem printed_sign_misread :
    let source := "begin write a * (-b); write (-a) * b end"
    let tokens := (Compilation.tokensOf (scan source.toList "a.pl0") []).1
    ((parse 1000 (tokens.map fun t => .token t none) []).toOption.map fun p =>
        (p.journal.diagnostics, p.program.expressions.map fun x =>
          x.2.toNode.expressionText.toOption)) =
        some ([], [some "(a * -b)", some "(-a * b)"]) ∧
      ((readCondition (scan "(a * -b)".toList "b.pl0") outermost).toOption.map fun x =>
        x.2.diagnostics) =
        some [⟨.error, .cannotStart "Factor" ⟨.minus, ⟨"b.pl0", 1, 6⟩, .absent⟩, ⟨"b.pl0", 1, 6⟩⟩] ∧
      ((readCondition (scan "(-a * b)".toList "b.pl0") outermost).toOption.map fun x =>
        (x.1, x.2.diagnostics)) =
        some (.unary ⟨"b.pl0", 1, 2⟩ .neg (.binary ⟨"b.pl0", 1, 5⟩ .mul
          (.identifier ⟨"b.pl0", 1, 3⟩ "a" 1) (.identifier ⟨"b.pl0", 1, 7⟩ "b" 1)), []) := by
  decide +kernel

end PlZero.Grammar
