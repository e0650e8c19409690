/-
  PlZero/Proofs/Contract/Outcome.lean
  ===================================
  **What reading a program comes to.**  The frame of the rules, put together: reading ends
  at the end of the input with everything closed that was opened, or because the program
  nests too deeply, and no internal check ever fails.  The tree that it returns is proper,
  with or without errors in the program.
-/
import PlZero.Compilation
import PlZero.Proofs.Contract.Blocks
import PlZero.Proofs.Token.Scanned

namespace PlZero

open Grammar Reader

/-- What a run leaves behind that has come to its end: nothing is left to read, and no
    rule, no scope and no level of nesting is open. -/
structure ReaderState.Finished (s : ReaderState) : Prop where
  head : s.stream.head.kind = .endOfFile
  rest : s.stream.rest = []
  rules : s.stream.rules = []
  current : s.symbols.current = 0
  enclosing : s.symbols.enclosing = []
  nesting : s.nesting = 0

/-! ### The state before a program -/

variable {L : Location → Prop} {maxDepth : Nat}

/-- Before a program is read the table holds nothing but what is predefined. -/
theorem start_sound {scans : List Scan} {j : Journal} {s : Stream}
    (h : Stream.start scans j = .ok s) (hclear : ∀ n, Scan.overlong n ∉ scans)
    (hplaces : ∀ t fault, Scan.token t fault ∈ scans → L t.location)
    (hreports : ∀ d ∈ Journal.reports j, d.severity = .error ∧ L d.location) :
    ReaderState.Sound L ⟨s, .initial, 0⟩ := by
  have hentries : ∀ i e, SymbolTable.mainIndex < i →
      SymbolTable.initial.entries[i]? = some e → e.Proper L := by
    intro i e hi he
    have hsize : SymbolTable.initial.entries.size = SymbolTable.mainIndex + 1 := rfl
    rw [Array.getElem?_eq_none (by omega)] at he
    exact absurd he (by simp)
  have hopened : SymbolTable.initial.Opened := by
    unfold SymbolTable.Opened
    decide
  cases scans with
  | nil => exact absurd h (by simp [Stream.start])
  | cons x rest =>
    cases x with
    | overlong n => exact absurd List.mem_cons_self (hclear n)
    | token t fault =>
      obtain rfl := Except.ok.inj h
      have ht : L t.location := hplaces t fault List.mem_cons_self
      refine ⟨fun n hn => hclear n (List.mem_cons_of_mem _ hn), ⟨ht, ?_, ?_⟩, hentries,
        hopened, Nat.zero_le _⟩
      · exact fun u g hu => hplaces u g (List.mem_cons_of_mem _ hu)
      · intro d hd
        cases fault with
        | none => exact hreports d hd
        | some p =>
          rcases List.mem_cons.mp hd with rfl | hd
          · exact ⟨rfl, ht⟩
          · exact hreports d hd

/-! ### Programs without an internal error -/

/-- A run that ends because the program nests too deeply, and has reported that last. -/
def EndsTooDeep (e : Abort) (u : Stream) : Prop :=
  e = .tooDeep ∧ ∃ l before, u.reports = ⟨.fatal, .programTooDeep, l⟩ :: before

theorem endsTooDeep_admits : AdmitsTooDeep EndsTooDeep :=
  fun u => ⟨rfl, u.head.location, u.reports, rfl⟩

/-- Reading scans comes to its end, or ends because the program nests too deeply. -/
def Settles (maxDepth : Nat) (scans : List Scan) (j : Journal) : Prop :=
  ∃ stream, Stream.start scans j = .ok stream ∧
    match wholeProgram maxDepth ⟨stream, .initial, 0⟩ with
    | .ok _ s => s.Finished ∧ ∀ d ∈ s.stream.reports, d.severity = .error
    | .error e s => EndsTooDeep e s.stream

theorem settles_of_complete {scans : List Scan} {j : Journal} (h : Scan.Complete scans)
    (hj : ∀ d ∈ Journal.reports j, d.severity = .error) : Settles maxDepth scans j := by
  obtain ⟨stream, hstart, hclear, hends, hrules⟩ := Stream.start_complete h j
  refine ⟨stream, hstart, ?_⟩
  have hsound : ReaderState.Sound (fun _ => True) ⟨stream, .initial, 0⟩ :=
    start_sound hstart h.not_overlong (fun _ _ _ => trivial) fun d hd => ⟨hj d hd, trivial⟩
  have hrun := wholeProgram_runs endsTooDeep_admits maxDepth (Nat.zero_le _) hsound (Nat.zero_le _)
  rcases hrun.cases with ⟨p, s, hm, hk, hs, -, hend⟩ | ⟨e, s, hm, he⟩
  · rw [hm]
    refine ⟨⟨hend, (hk.onward.endsLast hends).1 hend, hk.onward.rules.trans hrules,
      hk.symbols.current, hk.symbols.enclosing, hk.nesting⟩, ?_⟩
    exact fun d hd => (hs.within.reports d hd).1
  · rw [hm]
    exact he

/-- What reading scans that settle comes to. -/
theorem Settles.parse {scans : List Scan} {j : Journal} (h : Settles maxDepth scans j) :
    (∃ p, parse maxDepth scans j = .ok p) ∨
      ∃ j', parse maxDepth scans j = .error (.tooDeep, j') := by
  obtain ⟨stream, hstart, hrun⟩ := h
  simp only [Grammar.parse, hstart]
  cases hm : wholeProgram maxDepth ⟨stream, .initial, 0⟩ with
  | ok p s => exact .inl ⟨_, rfl⟩
  | error e s =>
    rw [hm] at hrun
    dsimp only at hrun
    exact .inr ⟨_, by rw [hrun.1]⟩

/-- Taking in a token reports nothing fatal. -/
theorem taken_fold {before : List Scan} (acc : List Token × Journal)
    (htokens : ∀ x ∈ before, ∃ t fault, x = Scan.token t fault ∧ t.kind ≠ .endOfFile)
    (hkinds : ∀ t ∈ acc.1, t.kind ≠ .endOfFile)
    (hreports : ∀ d ∈ Journal.reports acc.2, d.severity = .error) :
    (∀ t ∈ (before.foldl Compilation.taken acc).1, t.kind ≠ .endOfFile) ∧
      ∀ d ∈ Journal.reports (before.foldl Compilation.taken acc).2, d.severity = .error := by
  induction before generalizing acc with
  | nil => exact ⟨hkinds, hreports⟩
  | cons x before ih =>
    obtain ⟨t, fault, rfl, hk⟩ := htokens x List.mem_cons_self
    refine ih _ (fun y hy => htokens y (List.mem_cons_of_mem _ hy)) ?_ ?_
    · intro u hu
      rcases List.mem_cons.mp hu with rfl | hu
      · exact hk
      · exact hkinds u hu
    · intro d hd
      cases fault with
      | none => exact hreports d hd
      | some p =>
        rcases List.mem_cons.mp hd with rfl | hd
        · rfl
        · exact hreports d hd

/-- The tokens of complete scans are complete when they are scanned before the reading. -/
theorem tokensOf_complete {scans : List Scan} (h : Scan.Complete scans) {j : Journal}
    (hj : ∀ d ∈ Journal.reports j, d.severity = .error) :
    Scan.Complete ((Compilation.tokensOf scans j).1.map fun t => .token t none) ∧
      ∀ d ∈ Journal.reports (Compilation.tokensOf scans j).2, d.severity = .error := by
  obtain ⟨before, place, rfl, htokens⟩ := h
  obtain ⟨hkinds, hreports⟩ := taken_fold ([], j) htokens (by simp) hj
  simp only [Compilation.tokensOf, List.foldl_append, List.foldl_cons, List.foldl_nil]
  generalize before.foldl Compilation.taken ([], j) = acc at hkinds hreports ⊢
  refine ⟨⟨acc.1.reverse.map fun t => .token t none, place, ?_, ?_⟩, hreports⟩
  · simp [Compilation.taken]
  · intro x hx
    obtain ⟨t, ht, rfl⟩ := List.mem_map.mp hx
    exact ⟨t, none, rfl, hkinds t (List.mem_reverse.mp ht)⟩

theorem overlong?_complete {scans : List Scan} (h : Scan.Complete scans) :
    Compilation.overlong? scans = none := by
  refine List.findSome?_eq_none_iff.mpr fun x hx => ?_
  cases x with
  | overlong n => exact absurd hx (h.not_overlong n)
  | token t fault => rfl

theorem conclude_ok (options : Options) (file : String) (n : Nat) (c : Collector) (p : Parsed) :
    ∃ r, (Compilation.conclude options file n c p).outcome = .ok r := by
  obtain ⟨text, htext⟩ := p.program.outline_ok p.symbols.describeScope
  unfold Compilation.conclude Compilation.outline
  rw [htext]
  cases options.printTree <;> exact ⟨_, rfl⟩

/-- No source without a digit run that is too long reaches an internal check: it is read
    to its end, or it nests too deeply.  This holds whether it is scanned while it is read
    or before. -/
theorem source_settles (source file : String) (options : Options)
    (h : NoLongDigitRun source.toList) :
    let scans := scan source.toList file
    let lexed := Compilation.tokensOf scans [.note (.compiling file)]
    Settles maxDepth scans [] ∧
      Settles maxDepth (lexed.1.map fun t => .token t none)
        (.note (.lexed lexed.1.length) :: lexed.2) ∧
      ((∃ r, Compilation.parseSource maxDepth source file = .ok r) ∨
        Compilation.parseSource maxDepth source file = .error .programTooDeep) ∧
      ((∃ r, (Compilation.compileSource maxDepth options source file).outcome = .ok r) ∨
        (Compilation.compileSource maxDepth options source file).outcome = .error .programTooDeep) ∧
      Failure.programTooDeep.message = "program nested too deeply" := by
  intro scans lexed
  have hscans : Scan.Complete scans := scan_complete file h
  obtain ⟨hlexed, hreports⟩ := tokensOf_complete hscans (j := [.note (.compiling file)])
    (by simp [Journal.reports, Journal.diagnostic?])
  have hlazy : Settles maxDepth scans [] := settles_of_complete hscans (by simp [Journal.reports])
  have heager : Settles maxDepth (lexed.1.map fun t => .token t none)
      (.note (.lexed lexed.1.length) :: lexed.2) := settles_of_complete hlexed hreports
  refine ⟨hlazy, heager, ?_, ?_, rfl⟩
  · unfold Compilation.parseSource
    rcases hlazy.parse with ⟨p, hp⟩ | ⟨j, hj⟩
    · rw [hp]
      exact .inl ⟨_, rfl⟩
    · rw [hj]
      exact .inr rfl
  · have hover : Compilation.overlong? (scan source.toList file) = none :=
      overlong?_complete hscans
    unfold Compilation.compileSource
    dsimp only
    rw [hover]
    rcases heager.parse with ⟨p, hp⟩ | ⟨j, hj⟩
    · rw [hp]
      exact .inl (conclude_ok options file _ _ p)
    · rw [hj]
      exact .inr rfl

/-- The hypothesis of `source_settles` holds of a small program. -/
theorem source_settles_skip :
    NoLongDigitRun "begin skip end".toList ∧
      Settles 1000 (scan "begin skip end".toList "a.pl0") [] := by
  have h : NoLongDigitRun "begin skip end".toList :=
    fun ds hds _ => hds.length_le.trans (by decide)
  exact ⟨h, (source_settles "begin skip end" "a.pl0" {} h).1⟩

/-! ### Proper trees -/

/-- Every tree that is read is proper, and every place in it, in the entries that were
    declared and in the diagnostics is the place of a token.  So it has an outline,
    whatever is known about the scopes. -/
theorem parse_proper {scans : List Scan} {p : Parsed} (hclear : ∀ n, Scan.overlong n ∉ scans)
    (h : parse maxDepth scans [] = .ok p) :
    let L := fun l => ∃ t fault, Scan.token t fault ∈ scans ∧ t.location = l
    p.program.Proper L ∧
      (∀ i e, SymbolTable.mainIndex < i → p.symbols.entries[i]? = some e → e.Proper L) ∧
      (∀ d ∈ p.journal.diagnostics, L d.location) ∧
      ∀ declared, ∃ text, p.program.toNode.outline declared = .ok text := by
  intro L
  unfold parse at h
  cases hstart : Stream.start scans [] with
  | error e =>
    rw [hstart] at h
    exact absurd h (by simp)
  | ok stream =>
    simp only [hstart] at h
    have hsound : ReaderState.Sound L ⟨stream, .initial, 0⟩ :=
      start_sound hstart hclear (fun t fault ht => ⟨t, fault, ht, rfl⟩) (by simp [Journal.reports])
    have hrun :=
      wholeProgram_runs endsTooDeep_admits maxDepth (Nat.zero_le _) hsound (Nat.zero_le _)
    rcases hrun.cases with ⟨q, s, hm, -, hs, hq, -⟩ | ⟨e, s, hm, -⟩
    · rw [hm] at h
      obtain rfl := Except.ok.inj h
      refine ⟨hq, hs.entries, ?_, fun declared => q.outline_ok declared⟩
      intro d hd
      rw [Journal.diagnostics_eq, List.mem_reverse] at hd
      exact (hs.within.reports d hd).2
    · rw [hm] at h
      exact absurd h (by simp)

/-- `parse_proper` of a malformed program: a procedure has no name, and an assignment has two
    targets for one value.  The entry of the procedure is detached, and the value that is missing
    is a placeholder. -/
theorem parse_proper_malformed :
    let source := "procedure () = begin x, y := 1; read x end; begin skip end"
    let shown := "\n".intercalate [
      "Program",
      "  Block (scope 1)",
      "    Procedure <undefined>",
      "      Block (scope 2)",
      "        List",
      "          Assign x, y := 1, <error>",
      "          Assign x := read",
      "    List",
      "      Skip"]
    let scans := scan source.toList "a.pl0"
    let L := fun l => ∃ t fault, Scan.token t fault ∈ scans ∧ t.location = l
    (∀ n, Scan.overlong n ∉ scans) ∧ ∃ p, parse 1000 scans [] = .ok p ∧
      p.journal.diagnostics.length = 2 ∧
      p.program.toNode.outline p.symbols.describeScope = .ok shown ∧
      p.program.Proper L ∧
      (∀ i e, SymbolTable.mainIndex < i → p.symbols.entries[i]? = some e → e.Proper L) ∧
      ∀ d ∈ p.journal.diagnostics, L d.location := by
  intro source shown scans L
  have hlong : NoLongDigitRun source.toList := fun ds hds _ => hds.length_le.trans (by decide)
  have hclear : ∀ n, Scan.overlong n ∉ scans := (scan_complete "a.pl0" hlong).not_overlong
  have hrun : (match parse 1000 scans [] with
      | .ok p => some (p.journal.diagnostics.length,
          (p.program.toNode.outline p.symbols.describeScope).toOption)
      | .error _ => none) = some (2, some shown) := by
    decide +kernel
  cases hp : parse 1000 scans [] with
  | error e =>
    rw [hp] at hrun
    cases hrun
  | ok p =>
    rw [hp] at hrun
    obtain ⟨hcount, hshown⟩ := Prod.mk.inj (Option.some.inj hrun)
    obtain ⟨hproper, hentries, hplaces, houtline⟩ := parse_proper hclear hp
    obtain ⟨text, htext⟩ := houtline p.symbols.describeScope
    rw [htext] at hshown
    obtain rfl := Option.some.inj hshown
    exact ⟨hclear, p, rfl, hcount, htext, hproper, hentries, hplaces⟩

end PlZero
