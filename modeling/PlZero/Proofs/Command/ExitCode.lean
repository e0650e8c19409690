/-
  PlZero/Proofs/Command/ExitCode.lean
  ===================================
  **What the exit code tells about a file.**  Whether a file is compiled to its end, and how
  many diagnostics there are in all, depends on the file alone (`SourceFile.Completes`): not on
  the arguments, not on the environment, and not on how many diagnostics are listed.  The exit
  code is 0 or 1 for such a file, 2 for bytes that encode no text, and 3 where the compiler
  gave up (`answer_file`).
-/
import PlZero.Command.Run
import PlZero.Proofs.Compilation.Options
import PlZero.Proofs.Text.Encoding

namespace PlZero

open Compilation

variable {maxDepth : Nat}

/-! ### Files -/

namespace SourceFile

/-- A file that is compiled to its end, with so many diagnostics in all. -/
def Completes (maxDepth : Nat) (content : List UInt8) (path : String) (n : Nat) : Prop :=
  ∃ source p, decode content = .ok source ∧ overlong? (scan source.toList path) = none ∧
    reading maxDepth source path = .ok p ∧ p.journal.diagnostics.length = n

variable {content : List UInt8} {path : String}

theorem Completes.unique {m n : Nat} (h : Completes maxDepth content path m)
    (h' : Completes maxDepth content path n) : m = n := by
  obtain ⟨source, p, hdecode, -, hp, rfl⟩ := h
  obtain ⟨source', p', hdecode', -, hp', rfl⟩ := h'
  obtain rfl := Except.ok.inj (hdecode.symm.trans hdecode')
  obtain rfl := Except.ok.inj (hp.symm.trans hp')
  rfl

/-- A file holds a source just if its bytes are the encoding of a text. -/
theorem decode_ok_iff :
    (∃ source, decode content = .ok source) ↔
      ∃ cs : List Char, content = cs.flatMap String.utf8EncodeChar := by
  constructor
  · rintro ⟨source, h⟩
    unfold decode at h
    cases hcs : Text.decodeUtf8 content with
    | error fault =>
      rw [hcs] at h
      cases h
    | ok cs => exact ⟨cs, Text.decodeUtf8_iff.mp hcs⟩
  · rintro ⟨cs, h⟩
    refine ⟨String.ofList (Text.unifyLineEnds cs), ?_⟩
    unfold decode
    rw [Text.decodeUtf8_iff.mpr h]
    rfl

end SourceFile

/-- How the compilation of a file can come out: it is compiled to its end, its bytes are no
    text, or the compiler gives up on it. -/
inductive FileOutcome (maxDepth : Nat) (content : List UInt8) (path : String) :
    Except Failure Compiled → Prop
  | compiled {n : Nat} {r : Compiled} (completes : SourceFile.Completes maxDepth content path n)
      (errorCount : r.errorCount = n) (success : r.success = decide (n = 0)) :
      FileOutcome maxDepth content path (.ok r)
  | undecodable {fault : Text.Utf8Fault} (decode : SourceFile.decode content = .error fault) :
      FileOutcome maxDepth content path (.error (.undecodable fault))
  | tooDeep {source : String} (decode : SourceFile.decode content = .ok source)
      (unread : ∀ p, reading maxDepth source path ≠ .ok p) :
      FileOutcome maxDepth content path (.error .programTooDeep)
  | longDigitRun {source : String} {digits : Nat} (decode : SourceFile.decode content = .ok source)
      (overlong : overlong? (scan source.toList path) = some digits) :
      FileOutcome maxDepth content path (.error (.longDigitRun digits))

/-- A file on which the compiler gives up is not compiled to its end. -/
theorem FileOutcome.not_completes {content : List UInt8} {path : String} {f : Failure}
    (h : FileOutcome maxDepth content path (.error f)) (n : Nat) :
    ¬ SourceFile.Completes maxDepth content path n := by
  rintro ⟨source, p, hdecode, hover, hp, -⟩
  cases h with
  | undecodable decode => simp [decode] at hdecode
  | tooDeep decode unread =>
    obtain rfl := Except.ok.inj (hdecode.symm.trans decode)
    exact unread p hp
  | longDigitRun decode overlong =>
    obtain rfl := Except.ok.inj (hdecode.symm.trans decode)
    simp [hover] at overlong

theorem compile_outcome (options : Options) (path : String) (content : List UInt8) :
    FileOutcome maxDepth content path
      (SourceFile.compile maxDepth options path (.file content)).outcome := by
  unfold SourceFile.compile
  dsimp only
  cases hdecode : SourceFile.decode content with
  | error fault => exact .undecodable hdecode
  | ok source =>
    dsimp only
    cases hover : overlong? (scan source.toList path) with
    | some digits =>
      have hrun : (compileSource maxDepth options source path).outcome =
          .error (.longDigitRun digits) := by
        unfold compileSource
        dsimp only
        rw [hover]
      rw [hrun]
      exact .longDigitRun hdecode hover
    | none =>
      rcases (lexed_settles maxDepth hover).parse with ⟨p, hp⟩ | ⟨j, hj⟩
      · obtain ⟨tree, htree⟩ := p.program.outline_ok p.symbols.describeScope
        rw [compileSource_of_reading hover hp options, conclude_eq options source path _ htree
          (reading_severity hover hp)]
        exact .compiled ⟨source, p, hdecode, hover, hp, rfl⟩ rfl rfl
      · have hrun : (compileSource maxDepth options source path).outcome =
            .error .programTooDeep := by
          unfold lexed at hj
          unfold compileSource
          dsimp only
          rw [hover, hj]
          rfl
        rw [hrun]
        refine .tooDeep hdecode fun p hp => ?_
        rw [reading, hj] at hp
        cases hp

namespace Command

/-! ### Options -/

/-- An empty setting does not count where it would have no effect. -/
theorem Settings.given?_elim {β : Type} {d : β} {f : String → β} (h : f "" = d)
    (value : Option String) : (given? value).elim d f = value.elim d f := by
  cases value with
  | none => rfl
  | some v =>
    by_cases hempty : v = ""
    · subst hempty
      exact h.symm
    · simp [given?, Option.filter, hempty]

/-- What the environment sets, and the defaults where it sets nothing. -/
theorem Settings.options_eq (settings : Settings) : settings.options.1 =
    { maxErrors :=
        ((settings.maxErrors.bind Text.integer?).filter fun n => decide (0 < n)).getD 100
      trace := settings.trace.elim false isAffirmative } := by
  have htrace := given?_elim (f := isAffirmative) (d := false) (by decide +kernel) settings.trace
  have hbind : ∀ value : Option String, value.elim none positive? = value.bind positive? := by
    intro value
    cases value <;> rfl
  have hcap := given?_elim (f := positive?) (d := none) (by decide +kernel) settings.maxErrors
  rw [hbind, hbind] at hcap
  have hpositive : settings.maxErrors.bind positive? =
      (settings.maxErrors.bind Text.integer?).filter fun n => decide (0 < n) := by
    cases settings.maxErrors <;> rfl
  rw [← htrace, ← hpositive, ← hcap]
  unfold options
  cases given? settings.maxErrors with
  | none => rfl
  | some value =>
    dsimp only
    rw [Option.bind_some]
    cases positive? value <;> rfl

/-! ### Answers -/

/-- The answer to an invocation, by what came of the compilation. -/
theorem answerRun_eq {i : Invocation} {settings : Settings} {entry : FileEntry} {run : Run}
    (h : SourceFile.compile maxDepth (effectiveOptions i settings.options.1)
      (SourceFile.normalPath i.path) entry = run) :
    (answerRun maxDepth i settings entry).2 = run ∧
      (answerRun maxDepth i settings entry).1.exitCode =
        (match run.outcome with
          | .ok r => if r.success then 0 else 1
          | .error f => f.exitCode) ∧
      (answerRun maxDepth i settings entry).1.output =
        (if i.verbose then messageLine s!"Parsing {SourceFile.normalPath i.path}..." else "") ++
          run.output ++
          (match run.outcome with
            | .ok r => if i.verbose then messageLine s!"Tokenized: {r.tokenCount} tokens" else ""
            | .error _ => "") := by
  unfold answerRun
  dsimp only
  rw [h]
  cases run.outcome with
  | ok r => exact ⟨rfl, rfl, rfl⟩
  | error f => exact ⟨rfl, rfl, String.append_empty.symm⟩

/-- What is answered to a file that is there, whatever it holds.  The options come from the
    arguments and from the environment; the output is what the compilation writes under these
    options, between the two lines that are written on request; and the exit code tells apart
    a file that is compiled to its end without any diagnostic or with some, however many of them
    are listed, bytes that are no text, and everything else that ends the run. -/
theorem answer_file (i : Invocation) (settings : Settings) (content : List UInt8) :
    let path := SourceFile.normalPath i.path
    let options : Options :=
      { maxErrors := i.maxErrors.getD
          (((settings.maxErrors.bind Text.integer?).filter fun n => decide (0 < n)).getD 100)
        trace := i.trace || settings.trace.elim false Settings.isAffirmative
        printTree := i.tree }
    let run := SourceFile.compile maxDepth options path (.file content)
    ∃ a, answer maxDepth i settings (.file content) = .ok (a, run) ∧
      a.output = (if i.verbose then messageLine s!"Parsing {path}..." else "") ++ run.output ++
        (match run.outcome with
          | .ok r => if i.verbose then messageLine s!"Tokenized: {r.tokenCount} tokens" else ""
          | .error _ => "") ∧
      (∀ n, (∃ r, run.outcome = .ok r ∧ r.errorCount = n) ↔
        SourceFile.Completes maxDepth content path n) ∧
      (a.exitCode = 0 ↔ SourceFile.Completes maxDepth content path 0) ∧
      (a.exitCode = 1 ↔ ∃ n, 0 < n ∧ SourceFile.Completes maxDepth content path n) ∧
      (a.exitCode = 2 ↔ ¬ ∃ cs : List Char, content = cs.flatMap String.utf8EncodeChar) ∧
      (a.exitCode = 3 ↔ (∃ cs : List Char, content = cs.flatMap String.utf8EncodeChar) ∧
        ∃ f, run.outcome = .error f) := by
  intro path options run
  have hcompile : SourceFile.compile maxDepth (effectiveOptions i settings.options.1) path
      (.file content) = run := by
    rw [Settings.options_eq, effectiveOptions, Bool.or_false]
  obtain ⟨hrun, hexit, houtput⟩ := answerRun_eq hcompile
  have houtcome : FileOutcome maxDepth content path run.outcome :=
    compile_outcome options path content
  clear_value run
  refine ⟨(answerRun maxDepth i settings (.file content)).1, ?_, houtput, ?_⟩
  · rw [← hrun]
    rfl
  rw [hexit, ← SourceFile.decode_ok_iff]
  generalize run.outcome = outcome at houtcome
  cases houtcome with
  | @compiled n r completes errorCount success =>
    have hcompletes : ∀ m, SourceFile.Completes maxDepth content path m ↔ n = m :=
      fun m => ⟨fun h => completes.unique h, fun h => h ▸ completes⟩
    obtain ⟨source, p, hdecode, -⟩ := completes
    simp only [hcompletes, success, hdecode]
    by_cases hn : n = 0
    · simp [hn, errorCount]
    · simp [hn, errorCount, Nat.pos_of_ne_zero hn]
  | undecodable decode =>
    have hfault : FileOutcome maxDepth content path _ := .undecodable decode
    have hnone := hfault.not_completes
    simp [hnone, decode, Failure.exitCode]
  | tooDeep decode unread =>
    have hgivenUp : FileOutcome maxDepth content path _ := .tooDeep decode unread
    have hnone := hgivenUp.not_completes
    simp [hnone, decode, Failure.exitCode]
  | longDigitRun decode overlong =>
    have hgivenUp : FileOutcome maxDepth content path _ := .longDigitRun decode overlong
    have hnone := hgivenUp.not_completes
    simp [hnone, decode, Failure.exitCode]

end Command

end PlZero
