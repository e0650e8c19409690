/-
  PlZero/Proofs/Limits/Signs.lean
  ===============================
  **Constants with too many signs cost one error each**, if a number stands behind the signs:
  the rest of the program is read as if they had fewer signs, and just the constants that stand
  for one of them have no value (`parse_oversigned`).

  A name behind the signs is not skipped, as the definitions around the constant wait for names.
  It is then read as the name of a definition, and this is reported as well
  (`parse_oversigned_name`).
-/
import PlZero.Proofs.Derivation.Respelled
import PlZero.Proofs.Folding.Lost
import PlZero.Proofs.Folding.Outcome
import PlZero.Proofs.Limits.Parentheses

namespace PlZero.Grammar

open PlZero.Derivation (Clipped Rendered Rendering Trees outermost tooDeepAt)

/-! ### Constants that are read in another way -/

section

variable {c : Derivation.Block} {t : Token} {maxDepth : Nat}
  (hconditions : ∀ x ∈ c.conditions, x.nesting ≤ maxNesting) (ht : t.kind = .endOfFile)
include hconditions ht

/-- Where conditions are within the limit, a program is read as it is derived but for its
    constants. -/
theorem parse_redrawn {tree : Nat → Derivation.Constant → Constant}
    (inScope : ∀ scope k, (tree scope k).InScope scope) (R : Rendered Derivation.Constant)
    (hconstants : ∀ {E : Abort → Stream → Prop}, ∀ k ∈ c.constants,
      OperandRead E constant Settles tree R k)
    (hordinary : ∀ u ∈ (Rendering.redrawn R).tokens c.parts, u.kind ≠ .endOfFile) :
    let result :=
      parse maxDepth (((Rendering.redrawn R).tokens c.parts ++ [t]).map fun t => .token t none) []
    (∃ p, result = .ok p ∧ p.program = c.program ∧
        (c.tableIn (.redrawn tree inScope) outermost).leave = some p.symbols ∧
        p.journal.diagnostics = (Rendering.redrawn R).reports c.parts) ∨
      ((∃ j, result = .error (.tooDeep, j)) ∧ maxDepth < c.depth) := by
  rw [← c.programIn_eq tree inScope]
  refine parse_rendered c (fun p hp => ?_) hordinary ht
  have hcondition : ∀ x, p.condition? = some x → x.nesting ≤ maxNesting :=
    fun x hx => hconditions x (List.mem_filterMap.mpr ⟨p, hp, hx⟩)
  cases p with
  | token t => trivial
  | condition x => exact part_derived (p := .condition x) (hcondition x rfl)
  | expression x => exact part_derived (p := .expression x) (hcondition (.plain x) rfl)
  | constant k => exact hconstants k (List.mem_filterMap.mpr ⟨_, hp, rfl⟩)
  | told ds => trivial

/-- A program in which just signs nest too deeply. -/
theorem parse_clipped
    (hconstants : ∀ k ∈ c.constants, k.nesting ≤ maxNesting ∨ k.base.kind = .number) :
    let result := parse maxDepth ((c.tokens ++ [t]).map fun t => .token t none) []
    (∃ p, result = .ok p ∧ p.program = c.program ∧
        (c.tableIn .clipped outermost).leave = some p.symbols ∧
        p.journal.diagnostics.filter (·.problem.isComplaint) = c.complaints ∧
        p.journal.diagnostics.filter (!·.problem.isComplaint) =
          (c.constants.filterMap fun k => k.signs[maxNesting]?).map tooDeepAt) ∨
      ((∃ j, result = .error (.tooDeep, j)) ∧ maxDepth < c.depth) := by
  have hordinary := c.ordinary.ne_end
  obtain ⟨hcomplaints, hdeep⟩ := c.reports_parted .same
  rw [← Derivation.Block.reports_clipped hconditions] at hcomplaints hdeep
  rw [Derivation.Block.overdeep_signs hconditions] at hdeep
  rw [← c.tokens_clipped] at hordinary ⊢
  intro result
  rcases parse_redrawn hconditions ht Trees.limited.inScope Rendering.clipped.constant
      (fun k hk _ _ _ h => constant_renders k (hconstants k hk) h) hordinary with
    ⟨p, hp, hprogram, hleave, hdiagnostics⟩ | h
  · refine .inl ⟨p, hp, hprogram, hleave, ?_, ?_⟩
    · rw [hdiagnostics]
      exact hcomplaints
    · rw [hdiagnostics]
      exact hdeep
  · exact .inr h

/-- A program whose constants are spelled differently, with signs within the limit. -/
theorem parse_spelled {f : Derivation.Constant → Derivation.Constant}
    (hf : ∀ k, (f k).nesting ≤ maxNesting) :
    let result := parse maxDepth ((c.spelled f ++ [t]).map fun t => .token t none) []
    (∃ q, result = .ok q ∧ q.program = c.program ∧
        (c.tableIn (.spelled f) outermost).leave = some q.symbols ∧
        q.journal.diagnostics = c.complaints) ∨
      ((∃ j, result = .error (.tooDeep, j)) ∧ maxDepth < c.depth) := by
  rw [← c.reports_spelled f]
  exact parse_redrawn hconditions ht _ _ (fun k _ _ _ _ h => constant_yields (f k) (hf k) h)
    (c.spelled_ne_end f)

end

/-! ### Too many signs -/

/-- A program whose conditions are within the limit, and whose constants may have any number of
    signs as long as a number stands behind more than `maxNesting`.  It is read as the tree that
    is derived.  Besides its complaints, of each constant with more signs just the first is
    reported that is one too many.  Let `f` spell these constants differently, with signs within
    the limit: this program is read as the same tree and as the table that is derived, and the
    table of the other one is the same but for the trees of these constants, with placeholders in
    them, and for values.  A constant that stands for a placeholder has none, and every other one
    has the value that it has in the spelling of `f`. -/
theorem parse_oversigned (maxDepth : Nat) (c : Derivation.Block)
    (f : Derivation.Constant → Derivation.Constant) {t : Token}
    (hconditions : ∀ x ∈ c.conditions, x.nesting ≤ maxNesting)
    (hconstants : ∀ k ∈ c.constants, k.nesting ≤ maxNesting ∨ k.base.kind = .number)
    (hf : ∀ k, (f k).nesting ≤ maxNesting) (hsame : ∀ k, k.nesting ≤ maxNesting → f k = k)
    (ht : t.kind = .endOfFile) :
    let result := parse maxDepth ((c.tokens ++ [t]).map fun t => .token t none) []
    let other := parse maxDepth ((c.spelled f ++ [t]).map fun t => .token t none) []
    (∃ p q, result = .ok p ∧ other = .ok q ∧
        p.journal.diagnostics.filter (·.problem.isComplaint) = c.complaints ∧
        p.journal.diagnostics.filter (!·.problem.isComplaint) =
          (c.constants.filterMap fun k => k.signs[maxNesting]?).map
            (fun sign => ⟨.error, .expressionTooDeep, sign.location⟩) ∧
        q.journal.diagnostics = c.complaints ∧ p.program = c.program ∧ q.program = c.program ∧
        (c.tableIn (.spelled f) outermost).leave = some q.symbols ∧
        p.symbols.Matched (Entry.Redrawn (Clipped f)) q.symbols ∧
        ∀ (n : Nat) (e e' : Entry), p.symbols.entries[n]? = some e →
          q.symbols.entries[n]? = some e' → (p.symbols.Lost n → e.value? = none) ∧
            (¬p.symbols.Lost n → e.value? = e'.value?)) ∨
      maxDepth < c.depth ∧ ((∃ j, result = .error (.tooDeep, j)) ∨
        ∃ j, other = .error (.tooDeep, j)) := by
  intro result other
  rcases parse_clipped hconditions ht hconstants with
    ⟨p, hp, hprogram, hleave, hcomplaints, hdeep⟩ | ⟨h, hdepth⟩
  · rcases parse_spelled hconditions ht hf with
      ⟨q, hq, hprogram', hleave', hdiagnostics⟩ | ⟨h, hdepth⟩
    · have hmatched := c.leave_redrawn (Trees.clipped_redrawn hsame)
      rw [hleave, hleave', Option.rel_some_some] at hmatched
      refine .inl ⟨p, q, hp, hq, hcomplaints, hdeep, hdiagnostics, hprogram, hprogram', hleave',
        hmatched, ?_⟩
      intro n e e' he he'
      constructor
      · exact fun hlost => hlost.value (parse_folded hp) he
      · exact hmatched.value (fun _ _ _ h => h.placeholder) (parse_folded hp) (parse_folded hq)
          he he'
    · exact .inr ⟨hdepth, .inr h⟩
  · exact .inr ⟨hdepth, .inl h⟩

/-- The hypotheses of `parse_oversigned` hold of `const a = --…-5; b = -a; c = 7; begin skip end`
    with 101 signs, and of the same with `const a = 5`. -/
theorem parse_oversigned_number :
    let place : Nat → Location := fun n => ⟨"a.pl0", 1, n⟩
    let sign : (k : Kind) → Nat → Derivation.TokenOf k := fun k n => ⟨⟨k, place n, .absent⟩, rfl⟩
    let name : String → Nat → Derivation.TokenOf .identifier :=
      fun x n => ⟨⟨.identifier, place n, .text x⟩, rfl⟩
    let number : Nat → Int → Derivation.Constant :=
      fun n v => .number ⟨⟨.number, place n, .number v⟩, rfl⟩
    let signed : Nat → Derivation.Constant :=
      Nat.rec (number 200 5) fun n k => .negated (sign .minus (199 - n)) k
    let c : Derivation.Block := .mk
      [.constantList ⟨sign .kwConst 1,
        ⟨name "a" 2, sign .equals 3, signed 101, sign .semicolon 201⟩,
        [⟨name "b" 202, sign .equals 203, .negated (sign .minus 204) (.name (name "a" 205)),
            sign .semicolon 206⟩,
          ⟨name "c" 207, sign .equals 208, number 209 7, sign .semicolon 210⟩]⟩]
      (.mk (sign .kwBegin 211) (.mk (.skip (sign .kwSkip 212)) []) (sign .kwEnd 213))
    let f : Derivation.Constant → Derivation.Constant :=
      fun k => if k.nesting ≤ maxNesting then k else number 200 5
    let read := fun tokens : List Token =>
      parse 1000 ((tokens ++ [Token.endOfFile (place 214)]).map fun t => .token t none) []
    let values := fun p : Parsed => (p.symbols.entries.toList.drop 5).map Entry.value?
    (∀ x ∈ c.conditions, x.nesting ≤ maxNesting) ∧
      (∀ k ∈ c.constants, k.nesting ≤ maxNesting ∨ k.base.kind = .number) ∧
      (∀ k, (f k).nesting ≤ maxNesting) ∧ (∀ k, k.nesting ≤ maxNesting → f k = k) ∧
      ∃ p q, read c.tokens = .ok p ∧ read (c.spelled f) = .ok q ∧
        p.journal.diagnostics.filter (!·.problem.isComplaint) =
          [⟨.error, .expressionTooDeep, place 199⟩] ∧
        q.journal.diagnostics = [] ∧ p.program = c.program ∧ q.program = c.program ∧
        values p = [none, none, some 7] ∧ values q = [some 5, some (-5), some 7] := by
  intro place sign name number signed c f read values
  have hconditions : ∀ x ∈ c.conditions, x.nesting ≤ maxNesting := by decide
  have hconstants : ∀ k ∈ c.constants, k.nesting ≤ maxNesting ∨ k.base.kind = .number := by
    decide +kernel
  have hf : ∀ k, (f k).nesting ≤ maxNesting := by
    intro k
    by_cases hk : k.nesting ≤ maxNesting
    · exact (congrArg _ (if_pos hk)).trans_le hk
    · exact (congrArg _ (if_neg hk)).trans_le (Nat.zero_le _)
  have hsame : ∀ k, k.nesting ≤ maxNesting → f k = k := fun k hk => if_pos hk
  have hsigns : (c.constants.filterMap fun k => k.signs[maxNesting]?).map
      (fun sign => (⟨.error, .expressionTooDeep, sign.location⟩ : Diagnostic)) =
        [⟨.error, .expressionTooDeep, place 199⟩] := by decide +kernel
  have hvalues : (read c.tokens).toOption.map values = some [none, none, some 7] := by
    decide +kernel
  have hvalues' : (read (c.spelled f)).toOption.map values =
      some [some 5, some (-5), some 7] := by decide +kernel
  refine ⟨hconditions, hconstants, hf, hsame, ?_⟩
  rcases parse_oversigned 1000 c f (t := Token.endOfFile (place 214)) hconditions hconstants hf
    hsame rfl with ⟨p, q, hp, hq, -, hdeep, hcomplaints, hprogram, hprogram', -⟩ | ⟨hdepth, -⟩
  · have hp' : read c.tokens = .ok p := hp
    have hq' : read (c.spelled f) = .ok q := hq
    rw [hp'] at hvalues
    rw [hq'] at hvalues'
    exact ⟨p, q, hp, hq, hdeep.trans hsigns, hcomplaints, hprogram, hprogram',
      Option.some.inj hvalues, Option.some.inj hvalues'⟩
  · exact absurd hdepth (by decide)

/-- With a name behind the signs, more is reported than the sign that is one too many: in
    `const a = 5; b = --…-a; begin skip end` with 101 signs the second `a` is read as the name of
    a definition, and the body of the program is lost. -/
theorem parse_oversigned_name :
    let place : Nat → Location := fun n => ⟨"a.pl0", 1, n⟩
    let sign : (k : Kind) → Nat → Derivation.TokenOf k := fun k n => ⟨⟨k, place n, .absent⟩, rfl⟩
    let name : String → Nat → Derivation.TokenOf .identifier :=
      fun x n => ⟨⟨.identifier, place n, .text x⟩, rfl⟩
    let signed : Nat → Derivation.Constant :=
      Nat.rec (.name (name "a" 200)) fun n k => .negated (sign .minus (199 - n)) k
    let c : Derivation.Block := .mk
      [.constantList ⟨sign .kwConst 1,
        ⟨name "a" 2, sign .equals 3, .number ⟨⟨.number, place 4, .number 5⟩, rfl⟩,
          sign .semicolon 5⟩,
        [⟨name "b" 6, sign .equals 7, signed 101, sign .semicolon 201⟩]⟩]
      (.mk (sign .kwBegin 202) (.mk (.skip (sign .kwSkip 203)) []) (sign .kwEnd 204))
    let result :=
      parse 1000 ((c.tokens ++ [Token.endOfFile (place 205)]).map fun t => .token t none) []
    (∀ x ∈ c.conditions, x.nesting ≤ maxNesting) ∧ c.depth ≤ 1000 ∧ c.complaints = [] ∧
      (c.constants.filterMap fun k => k.signs[maxNesting]?).map Token.location = [place 199] ∧
      (result.toOption.map fun p => p.journal.diagnostics.map Diagnostic.location) =
        some [place 199, place 200, place 201, place 205, place 200, place 205, place 205] ∧
      (c.programIn .limited).location = place 203 ∧
      (result.toOption.map fun p => p.program.location) = some (place 205) := by
  intro place sign name signed c result
  refine ⟨by decide, by decide, ?_⟩
  decide +kernel

end PlZero.Grammar
