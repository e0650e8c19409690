/-
  PlZero/Proofs/Quote/Outcome.lean
  ================================
  **Where the leaves of a program are placed.**  On any input whose reading comes to an end
  every leaf of the tree and of the declared entries has the name or the value of a token of the
  input.  A reader looks up the place of a leaf before its rule is entered, and entering a rule
  may skip tokens; so a leaf is placed at its own token, unless its rule was looked for at a
  token that cannot start it.  Then the leaf is left at that token, and the error has been
  reported there.  Only the reader of a type identifier looks its place up afterwards.
-/
import PlZero.Proofs.Compilation.Stages
import PlZero.Proofs.Quote.Readers

namespace PlZero.Grammar

open SymbolTable

variable {maxDepth : Nat} {scans : List Scan} {j : Journal} {p : Parsed}

theorem start_ahead {stream : Stream} (h : Stream.start scans j = .ok stream) :
    stream.ahead = Scan.upcoming scans := by
  cases scans with
  | nil => cases h
  | cons x scans =>
    cases x with
    | overlong n => cases h
    | token t fault =>
      cases h
      rfl

/-- The leaves of a program that was read are sited, and so are those of its table. -/
theorem parse_sited (h : parse maxDepth scans j = .ok p) :
    (∀ q ∈ p.program.quotes, q.Sited (Scan.upcoming scans) p.journal.diagnostics) ∧
      p.symbols.Sited (Scan.upcoming scans) p.journal.diagnostics := by
  obtain ⟨stream, s, hstart, hm, hsymbols, hjournal⟩ := parse_ok h
  have hknows : ReaderState.Knows (Scan.upcoming scans) [] ⟨stream, .initial, 0⟩ :=
    ⟨start_ahead hstart ▸ List.suffix_refl _, fun _ _ he => .inl he, List.forall_mem_nil _⟩
  obtain ⟨-, hfinal⟩ := Reader.Ends.ok (wholeProgram_gathers _ hknows) hm
  have hsub : s.stream.reports ⊆ p.journal.diagnostics := by
    rw [Journal.diagnostics_eq, hjournal]
    exact fun d hd => List.mem_reverse.mpr hd
  rw [hsymbols]
  exact ⟨fun q hq => (hfinal.known q hq).mono hsub, hfinal.symbols.mono hsub⟩

/-- On any input whose reading comes to an end, every leaf of the tree, and of every entry that
    is not predefined, quotes a token of the input.  It is placed at this token, or at a token
    before it with which its rule cannot start; that was reported there, and its own token is the
    first behind that can start the rule.  Where no such error is reported at the place of a
    leaf, and for the name of a type in any case, the place is that of the leaf's own token. -/
theorem leaves_sited (h : parse maxDepth scans j = .ok p) (q : Quote)
    (hq : q ∈ p.program.quotes ∨ ∃ (k : Nat) (e : Entry), p.symbols.entries[k]? = some e ∧
      initial.entries[k]? ≠ some e ∧ q ∈ e.meaning.quotes) :
    q.Sited (Scan.upcoming scans) p.journal.diagnostics ∧
      ((∀ x : Token, x.location = q.location → q.rule ≠ .typeIdentifier →
          ⟨.error, .cannotStart q.rule.title x, x.location⟩ ∉ p.journal.diagnostics) →
        ∃ t ∈ Scan.upcoming scans, q.Of t ∧ t.location = q.location) := by
  obtain ⟨hprogram, hsymbols⟩ := parse_sited h
  have hsited : q.Sited (Scan.upcoming scans) p.journal.diagnostics := by
    rcases hq with hq | ⟨k, e, he, hnew, hq⟩
    · exact hprogram q hq
    · exact (hsymbols k e he).resolve_left hnew q hq
  refine ⟨hsited, ?_⟩
  intro hquiet
  obtain ⟨earlier, t, later, hsplit, hof, hsought, htype⟩ := hsited
  have ht : t ∈ Scan.upcoming scans := by
    rw [hsplit]
    simp
  refine ⟨t, ht, hof, ?_⟩
  by_cases hrule : q.rule = .typeIdentifier
  · exact (htype hrule).symm
  · generalize hl : q.location = l at hsought
    cases hsought with
    | here => rfl
    | @before front passed x split reported passedOver =>
      exact absurd reported (hquiet x hl.symm hrule)

/-- The hypotheses of `leaves_sited` hold of a constant behind an equals sign too many, and of
    the second factor of a product that breaks off. -/
theorem leaves_sited_astray :
    let source := "const a = = 5; begin write 1 * := 2 end"
    let scans := scan source.toList "a.pl0"
    let constant := Quote.constantNumber ⟨"a.pl0", 1, 11⟩ 5
    let factor := Quote.number ⟨"a.pl0", 1, 32⟩ 2
    ∃ p, parse 1000 scans [] = .ok p ∧
      (factor ∈ p.program.quotes ∧
        factor.Sited (Scan.upcoming scans) p.journal.diagnostics) ∧
      ∃ (k : Nat) (e : Entry), p.symbols.entries[k]? = some e ∧
        initial.entries[k]? ≠ some e ∧ constant ∈ e.meaning.quotes ∧
        constant.Sited (Scan.upcoming scans) p.journal.diagnostics := by
  intro source scans constant factor
  have hrun : (parse 1000 scans []).toOption.map
      (fun p => (p.program.quotes, p.symbols.entries[5]?.map Entry.meaning)) =
        some ([.number ⟨"a.pl0", 1, 28⟩ 1, factor],
          some (.constant (.number ⟨"a.pl0", 1, 11⟩ 1 5) (some 5))) := by decide +kernel
  cases hp : parse 1000 scans [] with
  | error a =>
    rw [hp] at hrun
    cases hrun
  | ok p =>
    rw [hp] at hrun
    obtain ⟨hquotes, hentry⟩ := Prod.mk.inj (Option.some.inj hrun)
    obtain ⟨e, he, hmeaning⟩ := Option.map_eq_some_iff.mp hentry
    have hfactor : factor ∈ p.program.quotes := by simp [hquotes]
    have hconstant : constant ∈ e.meaning.quotes := by
      rw [hmeaning]
      exact List.mem_cons_self
    have hnew : initial.entries[5]? ≠ some e := nofun
    exact ⟨p, rfl, ⟨hfactor, (leaves_sited hp factor (.inl hfactor)).1⟩, 5, e, he, hnew, hconstant,
      (leaves_sited hp constant (.inr ⟨5, e, he, hnew, hconstant⟩)).1⟩

/-- A leaf may be placed at a token that was skipped: the number of a constant behind an equals
    sign too many stands at this sign, though the tokens have places of their own. -/
theorem constant_at_skipped_token :
    let scans := scan "const a = = 5; begin skip end".toList "a.pl0"
    let constant := Quote.constantNumber ⟨"a.pl0", 1, 11⟩ 5
    ((Scan.upcoming scans).map Token.location).Nodup ∧
      ((parse 1000 scans []).toOption.map fun p => p.symbols.entries[5]?.map fun e =>
        e.meaning.quotes) = some (some [constant]) ∧
      ¬ ∃ t ∈ Scan.upcoming scans, constant.Of t ∧ t.location = constant.location := by
  decide +kernel

end PlZero.Grammar
