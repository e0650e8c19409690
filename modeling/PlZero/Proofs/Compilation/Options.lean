/-
  PlZero/Proofs/Compilation/Options.lean
  ======================================
  **Options decide what is shown, and nothing else.**  A source is read once, whatever is
  wanted of it (`reading`).  What comes of a run is then an expression in what was read and
  in the options, each of which has a part of the output to itself (`conclude_eq`): the trace,
  the outline of the tree, and how much of the listing there is.  So two runs on one source
  that come to their end agree in everything that is not shown (`options_apart`).
-/
import PlZero.Proofs.Contract.Outcome
import PlZero.Proofs.Token.Munch

namespace PlZero

open Grammar

variable {maxDepth : Nat}

namespace Compilation

/-! ### Reading without options -/

/-- The tokens of a source, and the events that scanning it is. -/
def lexed (source file : String) : List Token × Journal :=
  tokensOf (scan source.toList file) [.note (.compiling file)]

/-- What a source is read to that was scanned before. -/
def reading (maxDepth : Nat) (source file : String) : Except (Abort × Journal) Parsed :=
  parse maxDepth ((lexed source file).1.map fun t => .token t none)
    (.note (.lexed (lexed source file).1.length) :: (lexed source file).2)

theorem overlong_notMem {scans : List Scan} (h : overlong? scans = none) (n : Nat) :
    Scan.overlong n ∉ scans := by
  intro hn
  have hnone := List.findSome?_eq_none_iff.mp h _ hn
  cases hnone

/-- A run on a source that was read to its end says what there is to say about it. -/
theorem compileSource_of_reading {source file : String} {p : Parsed}
    (hover : overlong? (scan source.toList file) = none) (hp : reading maxDepth source file = .ok p)
    (options : Options) :
    compileSource maxDepth options source file =
      conclude options file (lexed source file).1.length (collectorFor source options) p := by
  unfold reading lexed at hp
  unfold compileSource lexed
  simp only [hover, hp]

/-- Only a source that was read to its end comes to something. -/
theorem reading_of_outcome {options : Options} {source file : String} {r : Compiled}
    (h : (compileSource maxDepth options source file).outcome = .ok r) :
    overlong? (scan source.toList file) = none ∧ ∃ p, reading maxDepth source file = .ok p := by
  unfold compileSource at h
  dsimp only at h
  cases hover : overlong? (scan source.toList file) with
  | some n =>
    rw [hover] at h
    cases h
  | none =>
    refine ⟨rfl, ?_⟩
    rw [hover] at h
    unfold reading lexed
    cases hp : parse maxDepth _ _ with
    | ok p => exact ⟨p, rfl⟩
    | error e =>
      simp only [hp] at h
      cases h

end Compilation

open Compilation

/-- Nothing that was reported on the way to the end of a program is fatal. -/
theorem severity_of_settles {scans : List Scan} {j : Journal} {p : Parsed}
    (h : Settles maxDepth scans j) (hp : parse maxDepth scans j = .ok p) :
    ∀ d ∈ p.journal.diagnostics, d.severity = .error := by
  obtain ⟨stream, hstart, hrun⟩ := h
  obtain ⟨stream', s, hstart', hm, -, hjournal⟩ := parse_ok hp
  obtain rfl := Except.ok.inj (hstart.symm.trans hstart')
  rw [hm] at hrun
  intro d hd
  rw [Journal.diagnostics_eq, List.mem_reverse, hjournal] at hd
  exact hrun.2 d hd

/-- The tokens of a source without a digit run that is too long are those of complete scans, and
    scanning them reports nothing fatal. -/
theorem lexed_complete {source file : String}
    (hover : overlong? (scan source.toList file) = none) :
    Scan.Complete ((lexed source file).1.map fun t => .token t none) ∧
      ∀ d ∈ Journal.reports (lexed source file).2, d.severity = .error :=
  tokensOf_complete (scan_complete_of_clear (overlong_notMem hover))
    (by simp [Journal.reports, Journal.diagnostic?])

/-- Reading them comes to its end or ends because the program nests too deeply. -/
theorem lexed_settles (maxDepth : Nat) {source file : String}
    (hover : overlong? (scan source.toList file) = none) :
    Settles maxDepth ((lexed source file).1.map fun t => .token t none)
      (.note (.lexed (lexed source file).1.length) :: (lexed source file).2) :=
  settles_of_complete (lexed_complete hover).1 (lexed_complete hover).2

theorem reading_severity {source file : String} {p : Parsed}
    (hover : overlong? (scan source.toList file) = none)
    (hp : reading maxDepth source file = .ok p) :
    ∀ d ∈ p.journal.diagnostics, d.severity = .error :=
  severity_of_settles (lexed_settles maxDepth hover) hp

/-! ### What is shown -/

/-- The outcome of a program that was read, part by part. -/
theorem conclude_eq (options : Options) (source file : String) (n : Nat) {p : Parsed}
    {tree : String} (htree : outline p.program p.symbols = .ok tree)
    (herror : ∀ d ∈ p.journal.diagnostics, d.severity = .error) :
    conclude options file n (collectorFor source options) p = {
      output := (if options.trace then p.journal.traceText else "") ++
        (if options.printTree then tree ++ "\n" else "") ++
        Collector.listingText (Text.lines source).toArray
          (p.journal.diagnostics.take options.maxErrors.toNat) ++
        Listing.summary p.journal.diagnostics.length ++ "\n"
      notes := p.journal.notes ++ [.finished file (Listing.summary p.journal.diagnostics.length)]
      outcome := .ok {
        file := file
        program := p.program
        symbols := p.symbols
        errorCount := p.journal.diagnostics.length
        success := decide (p.journal.diagnostics.length = 0)
        tokenCount := n
        diagnostics := p.journal.diagnostics.take options.maxErrors.toNat } } := by
  have hread : ((collectorFor source options).absorbAll p.journal).1 =
      (collectorFor source options).after p.journal := by
    rw [Collector.absorbAll_of_error _ herror]
  have houtput : ((collectorFor source options).after p.journal).output =
      if options.trace then p.journal.traceText else "" := by
    rw [Collector.output_after]
    exact String.empty_append
  have hcount : ((collectorFor source options).after p.journal).count =
      p.journal.diagnostics.length := Nat.zero_add _
  have hretained : ((collectorFor source options).after p.journal).retained.toList =
      p.journal.diagnostics.take options.maxErrors.toNat := by
    simp [Collector.after, collectorFor]
  have hsource : ((collectorFor source options).after p.journal).source =
      (Text.lines source).toArray := rfl
  unfold conclude
  rw [hread, htree]
  generalize (collectorFor source options).after p.journal = read at *
  -- the outline is written behind the trace, and nothing else changes
  have hshown : ∃ shown : Collector,
      (if options.printTree then (Except.ok tree).map read.writeLine else .ok read) =
        (Except.ok shown : Except UnknownNode Collector) ∧
      shown.output = read.output ++ (if options.printTree then tree ++ "\n" else "") ∧
      shown.count = read.count ∧ shown.retained = read.retained ∧
      shown.source = read.source := by
    cases options.printTree with
    | false => exact ⟨read, rfl, by simp, rfl, rfl, rfl⟩
    | true =>
      refine ⟨read.writeLine tree, rfl, ?_, rfl, rfl, rfl⟩
      simp [Collector.writeLine, Collector.output, String.join_append, Collector.textOf]
  obtain ⟨shown, hwritten, hout, hshowncount, hshownretained, hshownsource⟩ := hshown
  rw [houtput] at hout
  rw [hcount] at hshowncount
  rw [← hshownretained] at hretained
  rw [hsource] at hshownsource
  have hsuccess : (!decide (0 < p.journal.diagnostics.length)) =
      decide (p.journal.diagnostics.length = 0) := by
    cases p.journal.diagnostics.length with
    | zero => rfl
    | succ n => rfl
  dsimp only
  rw [hwritten]
  simp only [Collector.output_flush_writeSummary, Collector.summary, Collector.hadErrors, hout,
    hshowncount, hretained, hshownsource, hsuccess]

/-! ### Two runs -/

/-- Options do not reach what is read.  Two runs on one source that come to their end agree
    in the tree, the names, the counts and the verdict.  There is one journal and one outline
    for both, and for every other run: the diagnostics kept under a cap are the first that
    were reported, and the output is the trace, the outline, the listing of what is kept and
    the summary of all that was reported, each of them as its own option has it. -/
theorem options_apart {source file : String} {options₁ options₂ : Options} {r₁ r₂ : Compiled}
    (h₁ : (compileSource maxDepth options₁ source file).outcome = .ok r₁)
    (h₂ : (compileSource maxDepth options₂ source file).outcome = .ok r₂) :
    r₁.program = r₂.program ∧ r₁.symbols = r₂.symbols ∧ r₁.errorCount = r₂.errorCount ∧
    r₁.success = r₂.success ∧ r₁.tokenCount = r₂.tokenCount ∧
    ∃ p tree, reading maxDepth source file = .ok p ∧ outline p.program p.symbols = .ok tree ∧
      ∀ options, ∃ r, (compileSource maxDepth options source file).outcome = .ok r ∧
        r.program = p.program ∧ r.symbols = p.symbols ∧
        r.errorCount = p.journal.diagnostics.length ∧
        r.diagnostics = p.journal.diagnostics.take options.maxErrors.toNat ∧
        (compileSource maxDepth options source file).output =
          (if options.trace then p.journal.traceText else "") ++
          (if options.printTree then tree ++ "\n" else "") ++
          Collector.listingText (Text.lines source).toArray r.diagnostics ++
          Listing.summary r.errorCount ++ "\n" := by
  obtain ⟨hover, p, hp⟩ := reading_of_outcome h₁
  obtain ⟨tree, htree⟩ := p.program.outline_ok p.symbols.describeScope
  have herror := reading_severity hover hp
  have hrun : ∀ options, compileSource maxDepth options source file = _ := fun options =>
    (compileSource_of_reading hover hp options).trans
      (conclude_eq options source file (lexed source file).1.length htree herror)
  rw [hrun options₁] at h₁
  rw [hrun options₂] at h₂
  obtain rfl := Except.ok.inj h₁
  obtain rfl := Except.ok.inj h₂
  refine ⟨rfl, rfl, rfl, rfl, rfl, p, tree, hp, htree, ?_⟩
  intro options
  rw [hrun options]
  exact ⟨_, rfl, rfl, rfl, rfl, rfl, rfl⟩

/-- The hypotheses of `options_apart` hold of a program with an error, shown in two ways: with
    the trace and nothing kept, and with the outline and everything kept. -/
theorem options_apart_missing :
    let kept₁ : Options := { maxErrors := -1, trace := true }
    let kept₂ : Options := { maxErrors := 5, printTree := true }
    ∃ r₁ r₂, (compileSource 1000 kept₁ "begin x := end" "a.pl0").outcome = .ok r₁ ∧
      (compileSource 1000 kept₂ "begin x := end" "a.pl0").outcome = .ok r₂ ∧
      r₁.program = r₂.program ∧ r₁.errorCount = r₂.errorCount ∧ r₁.errorCount = 1 := by
  intro kept₁ kept₂
  have hcount₁ : ((compileSource 1000 kept₁ "begin x := end" "a.pl0").outcome.map
      Compiled.errorCount).toOption = some 1 := by decide +kernel
  have hok₂ : (compileSource 1000 kept₂ "begin x := end" "a.pl0").outcome.toBool = true := by
    decide +kernel
  cases h₁ : (compileSource 1000 kept₁ "begin x := end" "a.pl0").outcome with
  | error e =>
    rw [h₁] at hcount₁
    cases hcount₁
  | ok r₁ =>
    cases h₂ : (compileSource 1000 kept₂ "begin x := end" "a.pl0").outcome with
    | error e =>
      rw [h₂] at hok₂
      cases hok₂
    | ok r₂ =>
      obtain ⟨hprogram, -, hcount, -⟩ := options_apart h₁ h₂
      rw [h₁] at hcount₁
      exact ⟨r₁, r₂, rfl, rfl, hprogram, hcount, Option.some.inj hcount₁⟩

end PlZero
