/-
  PlZero/Proofs/Limits/Parentheses.lean
  =====================================
  **Parentheses that nest too deeply cost one error a group.**  Of a program of the grammar
  whose parentheses nest without end, the parser returns the tree with a placeholder for each
  group, at its first parenthesis, and reports that parenthesis; what stands in a group does
  not matter as long as its parentheses are balanced (`parse_overdeep`).

  `parse_limited` says the same of a program whose constants may have too many signs as well,
  as long as a number stands behind them.
-/
import PlZero.Proofs.Completeness.Outcome

namespace PlZero.Grammar

open PlZero.Derivation (Filling Part Rendering Trees outermost tooDeepAt)

variable {maxDepth : Nat}

theorem constants_read {E : Abort → Stream → Prop} {fill : Filling} {c : Derivation.Block}
    (hconstants : ∀ k ∈ c.constants, k.nesting ≤ maxNesting ∨ k.base.kind = .number) :
    ∀ p ∈ c.parts, PartRead E .limited (.limited fill) p := by
  intro p hp
  refine part_limited fun k hk => hconstants k (List.mem_filterMap.mpr ⟨p, hp, ?_⟩)
  rw [hk]
  rfl

/-- A program whose parentheses and signs nest without end is read as its tree with
    placeholders, and besides its complaints each token is reported at which it nests too
    deeply; or its procedures and statements nest too deeply. -/
theorem parse_limited (c : Derivation.Block) (fill : Filling) {t : Token}
    (hconstants : ∀ k ∈ c.constants, k.nesting ≤ maxNesting ∨ k.base.kind = .number)
    (ht : t.kind = .endOfFile) :
    let result := parse maxDepth ((c.typed fill ++ [t]).map fun t => .token t none) []
    (∃ p, result = .ok p ∧ p.program = c.programIn .limited ∧
        (c.tableIn .limited outermost).leave = some p.symbols ∧
        p.journal.diagnostics.filter (·.problem.isComplaint) = c.complaints ∧
        p.journal.diagnostics.filter (!·.problem.isComplaint) = c.overdeep.map tooDeepAt) ∨
      ((∃ j, result = .error (.tooDeep, j)) ∧ maxDepth < c.depth) := by
  intro result
  have hordinary := Derivation.Block.typed_ne_end fill c.ordinary.ne_end
  rcases parse_rendered c (constants_read hconstants) hordinary ht with
    ⟨p, hp, hprogram, hleave, hdiagnostics⟩ | h
  · obtain ⟨hcomplaints, hdeep⟩ := c.reports_parted fill
    refine .inl ⟨p, hp, hprogram, hleave, ?_, ?_⟩
    · rw [hdiagnostics, hcomplaints]
    · rw [hdiagnostics, hdeep]
  · exact .inr h

/-- A program whose constants are within the limit, and whose parentheses nest without end,
    is read as its tree with a placeholder for each group.  Besides its complaints just the
    parentheses are reported at which the groups begin, in the order of the text, whatever
    balanced tokens stand in the groups. -/
theorem parse_overdeep (maxDepth : Nat) (c : Derivation.Block) {t : Token}
    (hconstants : ∀ k ∈ c.constants, k.nesting ≤ maxNesting) (ht : t.kind = .endOfFile) :
    c.typed .same = c.tokens ∧ ∀ fill : Filling,
      let result := parse maxDepth ((c.typed fill ++ [t]).map fun t => .token t none) []
      (∃ p, result = .ok p ∧ p.program = c.programIn .limited ∧
          p.journal.diagnostics.filter (·.problem.isComplaint) = c.complaints ∧
          p.journal.diagnostics.filter (!·.problem.isComplaint) =
            c.overdeep.map fun o => ⟨.error, .expressionTooDeep, o.location⟩) ∨
        ((∃ j, result = .error (.tooDeep, j)) ∧ maxDepth < c.depth) := by
  refine ⟨c.typed_same, fun fill => ?_⟩
  rcases parse_limited c fill (fun k hk => .inl (hconstants k hk)) ht with
    ⟨p, hp, hprogram, -, hcomplaints, hdeep⟩ | h
  · exact .inl ⟨p, hp, hprogram, hcomplaints, hdeep⟩
  · exact .inr h

/-- The hypotheses of `parse_overdeep` hold of `begin x := ((…(y)…)) end` with 102 pairs of
    parentheses, where the two innermost hold `; ( ]  )` in place of what is derived. -/
theorem parse_overdeep_filled :
    let place : Nat → Location := fun n => ⟨"a.pl0", 1, n⟩
    let token : Kind → Nat → Token := fun k n => ⟨k, place n, .absent⟩
    let sign : (k : Kind) → Nat → Derivation.TokenOf k := fun k n => ⟨token k n, rfl⟩
    let plain : Derivation.Factor → Derivation.Condition :=
      fun c => .plain (.mk none (.mk c []) [])
    let nested : Nat → Derivation.Condition := Nat.rec
      (plain (.name ⟨⟨.identifier, place 300, .text "y"⟩, rfl⟩))
      fun n inside =>
        plain (.parens (sign .leftParen (200 - n)) inside (sign .rightParen (400 + n)))
    let c : Derivation.Block := .mk []
      (.mk (sign .kwBegin 1)
        (.mk (.assign ⟨⟨⟨.identifier, place 2, .text "x"⟩, rfl⟩, [], sign .assign 3,
          nested 102, []⟩) [])
        (sign .kwEnd 900))
    let us : List Token := [token .semicolon 301, token .leftParen 302, token .rightBracket 303,
      token .rightParen 304]
    (∀ k ∈ c.constants, k.nesting ≤ maxNesting) ∧
      ∃ (fill : Filling) (p : Parsed), (∀ c, fill.inside c = us) ∧
        parse 1000 ((c.typed fill ++ [Token.endOfFile (place 901)]).map fun t => .token t none) [] =
          .ok p ∧
        p.program = c.programIn .limited ∧
        Trees.limited.condition 1 (nested 102) = .error (place 199) ∧
        p.journal.diagnostics.filter (!·.problem.isComplaint) =
          [⟨.error, .expressionTooDeep, place 199⟩] := by
  intro place token sign plain nested c us
  have hus : Paired us := .cons (by decide) (.parens rfl (.single (by decide)) rfl)
  have hconstants : ∀ k ∈ c.constants, k.nesting ≤ maxNesting := by decide
  have htree : Trees.limited.condition 1 (nested 102) = .error (place 199) := by decide +kernel
  have hplace : c.overdeep.map tooDeepAt = [⟨.error, .expressionTooDeep, place 199⟩] := by
    decide +kernel
  have hread := (parse_overdeep 1000 c (t := Token.endOfFile (place 901)) hconstants rfl).2
    ⟨fun _ => us, fun _ => hus⟩
  refine ⟨hconstants, ⟨fun _ => us, fun _ => hus⟩, ?_⟩
  rcases hread with ⟨p, hp, hprogram, -, hdeep⟩ | ⟨-, hdepth⟩
  · exact ⟨p, fun _ => rfl, hp, hprogram, htree, hdeep.trans hplace⟩
  · exact absurd hdepth (by decide)

end PlZero.Grammar
