/-
  PlZero/Proofs/Folding/Outcome.lean
  ==================================
  **The constants of a program that was read.**  On any source whose reading comes to an end the
  numbers of the tree and of the symbol table are those of number tokens, every constant was
  folded among the entries before it, and what was stored of it then is what the final table
  holds.
-/
import PlZero.Proofs.Compilation.Options
import PlZero.Proofs.Folding.Recorded
import PlZero.Proofs.Quote.Outcome

namespace PlZero

open Compilation Grammar Reader SymbolTable

variable {maxDepth : Nat}

/-! ### Bases without a value -/

/-- A base has no value if it is a placeholder, or a name that means nothing, something else
    than a constant, or a constant without a value. -/
theorem SymbolTable.baseValue_eq_none {t : SymbolTable} {scope : Nat} {tree : Constant}
    (h : tree.InScope scope) :
    t.baseValue scope tree.base = none ↔ (∃ l, tree.base = .error l scope) ∨
      ∃ l name, tree.base = .named l scope name ∧ (t.lookupIn scope name = none ∨
        ∃ e, t.lookupIn scope name = some e ∧
          ((∀ c v, e.meaning ≠ .constant c v) ∨ ∃ c, e.meaning = .constant c none)) := by
  rcases h.base_cases with ⟨l, v, hbase⟩ | ⟨l, name, hbase⟩ | ⟨l, hbase⟩
  · rw [hbase]
    simp [baseValue]
  · rw [hbase]
    simp only [baseValue]
    cases hlookup : t.lookupIn scope name with
    | none => simp [hlookup]
    | some e =>
      simp only [Option.bind_some, Entry.value?]
      cases hmeaning : e.meaning with
      | constant c v => simp [hlookup, hmeaning]
      | _ => simp [hlookup, hmeaning]
  · rw [hbase]
    simp [baseValue]

/-! ### Programs -/

/-- The tokens ahead of a stream are those of its scans. -/
theorem Scan.mem_of_upcoming {scans : List Scan} {t : Token} (h : t ∈ Scan.upcoming scans) :
    ∃ fault, Scan.token t fault ∈ scans := by
  induction scans with
  | nil => cases h
  | cons x scans ih =>
    cases x with
    | overlong n => cases h
    | token u fault =>
      simp only [Scan.upcoming] at h
      split at h
      · cases h
      · rcases List.mem_cons.mp h with rfl | h
        · exact ⟨fault, List.mem_cons_self⟩
        · obtain ⟨fault', hmem⟩ := ih h
          exact ⟨fault', List.mem_cons_of_mem _ hmem⟩

/-- A number that is quoted from the tokens is in range. -/
theorem Quote.Sited.inRange {scans : List Scan} {reports : List Diagnostic} {q : Quote} {v : Int}
    (h : q.Sited (Scan.upcoming scans) reports) (hscans : Scan.InRange scans)
    (hv : q.value? = some v) : InRange v := by
  obtain ⟨earlier, t, later, hsplit, hof, -⟩ := h
  obtain ⟨hkind, rfl⟩ := hof.number hv
  have ht : t ∈ Scan.upcoming scans := by
    rw [hsplit]
    simp
  obtain ⟨fault, hmem⟩ := Scan.mem_of_upcoming ht
  exact hscans t fault hmem hkind

theorem SymbolTable.Bounded.initial : initial.Bounded := by
  intro k e he
  have hall : ∀ e ∈ SymbolTable.initial.entries.toList, e.meaning.InRange := by decide +kernel
  rw [← Array.getElem?_toList] at he
  exact hall e (List.mem_of_getElem? he)

theorem parse_gathers {scans : List Scan} {j : Journal} {p : Parsed} (hscans : Scan.InRange scans)
    (h : parse maxDepth scans j = .ok p) :
    (∀ v ∈ p.program.numbers, InRange v) ∧ p.symbols.Bounded := by
  obtain ⟨hprogram, hsymbols⟩ := parse_sited h
  constructor
  · intro v hv
    rw [Program.numbers_eq] at hv
    obtain ⟨q, hq, hvalue⟩ := List.mem_filterMap.mp hv
    exact (hprogram q hq).inRange hscans hvalue
  · intro k e he v hv
    rcases hsymbols k e he with hold | hnew
    · exact Bounded.initial k e hold v hv
    · rw [Meaning.numbers_eq] at hv
      obtain ⟨q, hq, hvalue⟩ := List.mem_filterMap.mp hv
      exact (hnew q hq).inRange hscans hvalue

theorem parse_becomes {scans : List Scan} {j : Journal} {p : Parsed}
    (h : parse maxDepth scans j = .ok p) :
    ∃ operations, History.start.Admits operations ∧
      (History.start.run operations).table = p.symbols := by
  obtain ⟨stream, s, -, hm, hsymbols, -⟩ := parse_ok h
  obtain ⟨operations, hoperations⟩ :=
    (wholeProgram_becomes maxDepth ⟨stream, .initial, 0⟩ rfl).ok hm
  rw [hsymbols]
  obtain ⟨htable, hadmits⟩ := hoperations .start History.start_table
  exact ⟨operations, hadmits, htable⟩

/-- Every constant of a program was folded when it was declared. -/
theorem parse_folded {scans : List Scan} {j : Journal} {p : Parsed}
    (h : parse maxDepth scans j = .ok p) :
    p.symbols.Folded := by
  obtain ⟨operations, hadmits, htable⟩ := parse_becomes h
  rw [← htable]
  exact History.Sound.start.run_folded History.start_folded hadmits

/-- The tokens that a source is compiled from carry the values that were scanned. -/
theorem lexed_inRange (source file : String) :
    Scan.InRange ((lexed source file).1.map fun t => .token t none) := by
  intro t fault ht hk
  obtain ⟨u, hu, heq⟩ := List.mem_map.mp ht
  cases heq
  rw [lexed, (tokensOf_eq _ _).1] at hu
  obtain ⟨x, hx, hxu⟩ := List.mem_filterMap.mp hu
  cases x with
  | overlong n => cases hxu
  | token u fault =>
    cases hxu
    exact scan_inRange _ _ _ fault hx hk

/-- On any source whose reading comes to an end, be it read as it is scanned or compiled: the
    numbers of the tree and of what names were declared as lie between zero and `maxNumber`, and
    the value of a constant is at most as far from zero.  Its tree is a number, a name or a
    placeholder behind minus signs, and its value is that of this base among the entries before
    it, seen from its scope, with the signs; it has none exactly if the base has none.  The
    table comes of operations none of which changes a constant that was declared before. -/
theorem constants_folded {source file : String} {j : Journal} {p : Parsed}
    (h : parse maxDepth (scan source.toList file) j = .ok p ∨
      reading maxDepth source file = .ok p) :
    maxNumber = 2 ^ 31 - 1 ∧
    (∀ v ∈ p.program.numbers, 0 ≤ v ∧ v ≤ maxNumber) ∧
    (∀ (k : Nat) (e : Entry), p.symbols.entries[k]? = some e →
      ∀ v ∈ e.meaning.numbers, 0 ≤ v ∧ v ≤ maxNumber) ∧
    (∀ (k : Nat) (e : Entry) tree value, p.symbols.entries[k]? = some e →
      e.meaning = .constant tree value →
        let known := p.symbols.before k
        (∀ v, value = some v → -(maxNumber : Int) ≤ v ∧ v ≤ maxNumber) ∧
        ((∃ l v, tree.base = .number l e.scope v) ∨ (∃ l name, tree.base = .named l e.scope name) ∨
          ∃ l, tree.base = .error l e.scope) ∧
        value = (known.baseValue e.scope tree.base).map (fun v => (-1) ^ tree.negations * v) ∧
        (value = none ↔ (∃ l, tree.base = .error l e.scope) ∨
          ∃ l name, tree.base = .named l e.scope name ∧ (known.lookupIn e.scope name = none ∨
            ∃ x, known.lookupIn e.scope name = some x ∧
              ((∀ c v, x.meaning ≠ .constant c v) ∨ ∃ c, x.meaning = .constant c none)))) ∧
    ∃ operations, History.start.Permits operations ∧
      (History.start.run operations).table = p.symbols ∧
      ∀ earlier later, operations = earlier ++ later →
        ∀ (k : Nat) (e : Entry) tree value,
          (History.start.run earlier).table.entries[k]? = some e →
            e.meaning = .constant tree value → p.symbols.entries[k]? = some e := by
  have hread : ∃ scans j, Scan.InRange scans ∧ parse maxDepth scans j = .ok p := by
    rcases h with h | h
    · exact ⟨_, _, scan_inRange _ _, h⟩
    · exact ⟨_, _, lexed_inRange source file, h⟩
  obtain ⟨scans, j, hscans, h⟩ := hread
  obtain ⟨hnumbers, hbounded⟩ := parse_gathers hscans h
  obtain ⟨operations, hadmits, htable⟩ := parse_becomes h
  have hfolded : p.symbols.Folded := by
    rw [← htable]
    exact History.Sound.start.run_folded History.start_folded hadmits
  refine ⟨rfl, hnumbers, hbounded, ?_, operations, hadmits.permits, htable, ?_⟩
  · intro k e tree value he hmeaning
    obtain ⟨-, hwritten, hvalue⟩ := hfolded k e tree value he hmeaning
    refine ⟨?_, hwritten.base_cases, hvalue, ?_⟩
    · rintro v rfl
      exact hfolded.value_inRange hbounded k e tree v he hmeaning
    · rw [hvalue, Option.map_eq_none_iff]
      exact baseValue_eq_none hwritten
  · rintro earlier later rfl k e tree value he hmeaning
    have hlater := (History.start.run earlier).run_later later
    have hrun : (History.start.run earlier).run later = History.start.run (earlier ++ later) :=
      (List.foldl_append ..).symm
    rw [hrun, htable] at hlater
    exact hlater.constant he hmeaning

/-- The hypothesis of `constants_folded` holds of a source in which a constant is defined by its
    own name, which means the constant around the procedure. -/
theorem constants_folded_shadowed :
    let source := "const a = 5; procedure p() = const a = - - -a; begin skip end; begin skip end"
    ∃ p tree, parse 1000 (scan source.toList "a.pl0") [] = .ok p ∧
      p.symbols.entries[7]? = some ⟨"a", ⟨"a.pl0", 1, 36⟩, 2, 7, .constant tree (some (-5))⟩ ∧
      tree.negations = 3 ∧ (p.symbols.before 7).baseValue 2 tree.base = some 5 := by
  intro source
  let place (column : Int) : Location := ⟨"a.pl0", 1, column⟩
  let tree : Constant := .negated (place 40) 2 (.negated (place 42) 2 (.negated (place 44) 2
    (.named (place 45) 2 "a")))
  have hentry : ((parse 1000 (scan source.toList "a.pl0") []).map
      fun p => p.symbols.entries[7]?).toOption =
        some (some ⟨"a", place 36, 2, 7, .constant tree (some (-5))⟩) := by decide +kernel
  cases hp : parse 1000 (scan source.toList "a.pl0") [] with
  | error e =>
    rw [hp] at hentry
    cases hentry
  | ok p =>
    rw [hp] at hentry
    have he := Option.some.inj hentry
    obtain ⟨-, -, -, hconstants, -⟩ := constants_folded (.inl hp)
    obtain ⟨-, -, hvalue, -⟩ := hconstants 7 _ tree (some (-5)) he rfl
    obtain ⟨b, hb, hsigned⟩ := Option.map_eq_some_iff.mp hvalue.symm
    have hsigns : tree.negations = 3 := rfl
    rw [hsigns] at hsigned
    have hfive : b = 5 := by omega
    exact ⟨p, tree, rfl, he, hsigns, hfive ▸ hb⟩

end PlZero
