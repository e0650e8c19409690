/-
  PlZero/Proofs/Completeness/Outcome.lean
  =======================================
  **Every derived program is read as it was derived.**  The tree that is returned is the
  tree of the derivation, and the diagnostics are its complaints: the names that a block
  declares twice and the assignments with unequal sides, in the order of the text.  Only a
  program whose procedures and statements nest deeper than the readers go is not read.
-/
import PlZero.Proofs.Completeness.Blocks
import PlZero.Proofs.Derivation.Kinds

namespace PlZero

open PlZero.Derivation (outermost unusedKinds)

/-! ### Streams of tokens without faults -/

/-- The tokens of a list before the first that ends the input. -/
def Scan.beforeEnd (tokens : List Token) : List Token :=
  tokens.takeWhile fun t => t.kind != .endOfFile

theorem Scan.upcoming_tokens (tokens : List Token) :
    Scan.upcoming (tokens.map fun t => .token t none) = Scan.beforeEnd tokens := by
  induction tokens with
  | nil => rfl
  | cons t ts ih =>
    rw [List.map_cons, Scan.upcoming, Scan.beforeEnd, List.takeWhile_cons, ih]
    by_cases hk : t.kind = .endOfFile
    · rw [if_pos hk, if_neg (by simp [hk])]
    · rw [if_neg hk, if_pos (by simp [hk])]
      rfl

/-- Before anything is read, the stream stands before all tokens up to the end. -/
theorem start_before {tokens : List Token} (h : tokens ≠ []) :
    ∃ s, Stream.start (tokens.map fun t => .token t none) [] = .ok s ∧ s.reports = [] ∧
      ReaderState.Before 0 .initial (Scan.beforeEnd tokens) ⟨s, .initial, 0⟩ := by
  cases tokens with
  | nil => exact absurd rfl h
  | cons t ts =>
    refine ⟨⟨t, ts.map fun t => .token t none, [], []⟩, rfl, rfl, ?_⟩
    have hahead := Scan.upcoming_tokens (t :: ts)
    refine ⟨fun n hn => ?_, fun u fault hu => ?_, rfl, rfl, hahead⟩
    · simp at hn
    · obtain ⟨v, -, hv⟩ := List.mem_map.mp hu
      cases hv
      rfl

/-- Tokens that do not end the input are not cut short. -/
theorem Scan.beforeEnd_append {ts : List Token} (h : ∀ u ∈ ts, u.kind ≠ .endOfFile) {t : Token}
    (ht : t.kind = .endOfFile) : Scan.beforeEnd (ts ++ [t]) = ts := by
  have hordinary : ∀ u ∈ ts, (u.kind != .endOfFile) = true := by simpa using h
  rw [Scan.beforeEnd, List.takeWhile_append_of_pos hordinary, List.takeWhile_cons,
    if_neg (by simp [ht]), List.append_nil]

/-- What a derivation yields is not cut short by an end of the input. -/
theorem Derivation.Block.beforeEnd_tokens (c : Derivation.Block) {t : Token}
    (h : t.kind = .endOfFile) : Scan.beforeEnd (c.tokens ++ [t]) = c.tokens :=
  Scan.beforeEnd_append c.ordinary.ne_end h

namespace Grammar

variable {maxDepth : Nat}

/-! ### Reading derived programs -/

/-- Where it is known what is read off the tokens of a program, so is the outcome. -/
theorem parse_of_yields {tokens : List Token} {tree : Program} {ds : List Diagnostic}
    {V : SymbolTable} {P : Prop} (hne : tokens ≠ [])
    (h : Reader.Yields (fun e _ => e = .tooDeep ∧ P) 0 .initial (wholeProgram maxDepth)
      (Scan.beforeEnd tokens) [] tree ds V) :
    (∃ p, parse maxDepth (tokens.map fun t => .token t none) [] = .ok p ∧ p.program = tree ∧
        p.journal.diagnostics = ds ∧ p.symbols = V) ∨
      ((∃ j, parse maxDepth (tokens.map fun t => .token t none) [] = .error (.tooDeep, j)) ∧
        P) := by
  obtain ⟨s, hstart, hreports, hs⟩ := start_before hne
  rw [← List.append_nil (Scan.beforeEnd tokens)] at hs
  unfold parse
  rw [hstart]
  rcases (h _ hs).cases with ⟨q, t, hm, rfl, ht, hsince⟩ | ⟨e, t, hm, rfl, hP⟩
  · have hdiagnostics : t.stream.journal.diagnostics = ds := by
      have hsum : t.stream.reports = ds.reverse ++ s.reports := hsince.reports
      rw [hreports, List.append_nil] at hsum
      rw [Journal.diagnostics_eq]
      show t.stream.reports.reverse = _
      rw [hsum, List.reverse_reverse]
    dsimp only
    rw [hm]
    exact .inl ⟨_, rfl, rfl, hdiagnostics, ht.symbols⟩
  · dsimp only
    rw [hm]
    exact .inr ⟨⟨_, rfl⟩, hP⟩

/-- Blocks that nest less deep than the readers go are read; only others may end a run. -/
theorem depth_or_admits (c : Derivation.Block) : c.depth ≤ maxDepth ∨
    Reader.AdmitsTooDeep (fun e _ => e = .tooDeep ∧ maxDepth < c.depth) :=
  (Nat.lt_or_ge maxDepth c.depth).symm.imp_right fun h _ => ⟨rfl, h⟩

/-- A program whose operands are read as they are rendered is read as its tree, and what is
    reported is what its rendering says; or it nests too deeply. -/
theorem parse_rendered (c : Derivation.Block) {V : Derivation.Trees} {R : Derivation.Rendering}
    {t : Token}
    (hread : ∀ p ∈ c.parts, PartRead (fun e _ => e = .tooDeep ∧ maxDepth < c.depth) V R p)
    (hordinary : ∀ u ∈ R.tokens c.parts, u.kind ≠ .endOfFile) (ht : t.kind = .endOfFile) :
    let result := parse maxDepth ((R.tokens c.parts ++ [t]).map fun t => .token t none) []
    (∃ p, result = .ok p ∧ p.program = c.programIn V ∧
        (c.tableIn V outermost).leave = some p.symbols ∧
        p.journal.diagnostics = R.reports c.parts) ∨
      ((∃ j, result = .error (.tooDeep, j)) ∧ maxDepth < c.depth) := by
  intro result
  obtain ⟨V, hleave, hyields⟩ := wholeProgram_renders c hread (depth_or_admits c)
  rw [← Scan.beforeEnd_append hordinary ht] at hyields
  rcases parse_of_yields (by simp) hyields with ⟨p, hp, hprogram, hdiagnostics, rfl⟩ | h
  · exact .inl ⟨p, hp, hprogram, hleave, hdiagnostics⟩
  · exact .inr h

theorem wholeProgram_yields {E : Abort → Stream → Prop} (c : Derivation.Block)
    (hn : c.nesting ≤ maxNesting) (hdepth : c.depth ≤ maxDepth ∨ Reader.AdmitsTooDeep E) :
    ∃ V, (c.table outermost).leave = some V ∧
      Reader.Yields E 0 .initial (wholeProgram maxDepth) c.tokens [] c.program c.complaints V := by
  have h := wholeProgram_renders c (parts_derived hn) hdepth
  rwa [c.tableIn_asDerived, c.programIn_asDerived, c.addUp.tokens, c.addUp.reports] at h

theorem parse_of_derived (maxDepth : Nat) {c : Derivation.Block} {tokens : List Token}
    (hn : c.nesting ≤ maxNesting) (hbefore : Scan.beforeEnd tokens = c.tokens) :
    (∃ p, parse maxDepth (tokens.map fun t => .token t none) [] = .ok p ∧ p.program = c.program ∧
        p.journal.diagnostics = c.complaints ∧ (c.table outermost).leave = some p.symbols) ∨
      ((∃ j, parse maxDepth (tokens.map fun t => .token t none) [] = .error (.tooDeep, j)) ∧
        maxDepth < c.depth) := by
  have hne : tokens ≠ [] := by
    rintro rfl
    have hhead := c.begins.1
    rw [← hbefore] at hhead
    exact absurd hhead (by simp [Scan.beforeEnd])
  obtain ⟨V, hleave, hyields⟩ := wholeProgram_yields c hn (depth_or_admits c)
  rw [← hbefore] at hyields
  rcases parse_of_yields hne hyields with ⟨p, hp, hprogram, hdiagnostics, rfl⟩ | h
  · exact .inl ⟨p, hp, hprogram, hdiagnostics, hleave⟩
  · exact .inr h

/-- A program that is derived by the grammar, with parentheses and signs nested no deeper
    than they may be, is read as its tree, and nothing is reported but its complaints; or its
    procedures and statements nest too deeply. -/
theorem parse_derived (maxDepth : Nat) (c : Derivation.Block) {t : Token}
    (hn : c.nesting ≤ maxNesting) (ht : t.kind = .endOfFile) :
    let result := parse maxDepth ((c.tokens ++ [t]).map fun t => .token t none) []
    (∃ p, result = .ok p ∧ p.program = c.program ∧ p.journal.diagnostics = c.complaints) ∨
      ((∃ j, result = .error (.tooDeep, j)) ∧ maxDepth < c.depth) := by
  intro result
  rcases parse_of_derived maxDepth hn (c.beforeEnd_tokens ht) with
    ⟨p, hp, hprogram, hdiagnostics, -⟩ | h
  · exact .inl ⟨p, hp, hprogram, hdiagnostics⟩
  · exact .inr h

/-- The hypotheses of `parse_derived` hold of a program that declares a constant twice and
    assigns one value to two targets: `const x = 1; x = -2; begin x, x := (x) end`. -/
theorem parse_derived_twice :
    let place : Nat → Location := fun n => ⟨"a.pl0", 1, n⟩
    let sign : (k : Kind) → Nat → Derivation.TokenOf k := fun k n => ⟨⟨k, place n, .absent⟩, rfl⟩
    let x : Nat → Derivation.TokenOf .identifier :=
      fun n => ⟨⟨.identifier, place n, .text "x"⟩, rfl⟩
    let number : Nat → Int → Derivation.Constant :=
      fun n v => .number ⟨⟨.number, place n, .number v⟩, rfl⟩
    let value : Derivation.Factor := .parens (sign .leftParen 16)
      (.plain (.mk none (.mk (.name (x 17)) []) [])) (sign .rightParen 18)
    let c : Derivation.Block := .mk
      [.constantList ⟨sign .kwConst 1,
        ⟨x 2, sign .equals 3, number 4 1, sign .semicolon 5⟩,
        [⟨x 6, sign .equals 7, .negated (sign .minus 8) (number 9 2), sign .semicolon 10⟩]⟩]
      (.mk (sign .kwBegin 11)
        (.mk (.assign ⟨x 12, [(sign .comma 13, x 14)], sign .assign 15,
          .plain (.mk none (.mk value []) []), []⟩) [])
        (sign .kwEnd 19))
    c.nesting ≤ maxNesting ∧
      ∃ p, parse 1000 ((c.tokens ++ [Token.endOfFile (place 20)]).map fun t => .token t none) [] =
          .ok p ∧
        p.program = c.program ∧ p.journal.diagnostics =
          [⟨.error, .alreadyDeclared .constantName "x", place 6⟩,
            ⟨.error, .unequalAssignment, place 15⟩] := by
  intro place sign x number value c
  have hn : c.nesting ≤ maxNesting := by decide
  have hread := parse_derived 1000 c (t := Token.endOfFile (place 20)) hn rfl
  rcases hread with ⟨p, hp, hprogram, hd⟩ | ⟨-, hdepth⟩
  · exact ⟨hn, p, hp, hprogram, hd⟩
  · exact absurd hdepth (by decide)

end Grammar

end PlZero
