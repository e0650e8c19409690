/-
  PlZero/Proofs/Agreement/Outcome.lean
  ====================================
  **Scanning on demand or before comes to the same.**  Where a source is scanned while it is
  read, faults of tokens and mistakes of the program are reported as they come; where it is
  scanned before, all faults come first.  The program, its names and the number of diagnostics
  are the same nevertheless, and so are the diagnostics at each place and their order.  A
  listing is sorted by places, so it is the same too.
-/
import PlZero.Proofs.Agreement.Readers
import PlZero.Proofs.Compilation.Options

namespace PlZero

open Grammar Reader Compilation

variable {maxDepth : Nat}

/-! ### Keys of tokens -/

theorem placeIn_known (file : String) (before : List Char) :
    (placeIn file before).isKnown = true := by
  unfold Location.isKnown placeIn placeAfter
  simp only [decide_eq_true_eq]
  omega

/-- Places one of which is before the other have different keys. -/
theorem Location.Before.key_ne {l m : Location} (h : l.Before m) (hl : l.isKnown = true)
    (hm : m.isKnown = true) : l.key ≠ m.key := by
  unfold Location.key
  rw [if_pos hl, if_pos hm]
  intro heq
  obtain ⟨hline, hcolumn⟩ := Prod.mk.inj heq
  rcases h with h | ⟨-, h⟩
  · omega
  · omega

/-- The tokens of a source have different keys. -/
theorem scan_keys {source : List Char} {file : String}
    (hclear : ∀ n, Scan.overlong n ∉ scan source file) :
    ((scan source file).filterMap Scan.location?).Pairwise fun l m => l.key ≠ m.key := by
  obtain ⟨pieces, last, htext, hcut, hscan⟩ := scan_cut hclear
  have hlocations : (scan source file).filterMap Scan.location? =
      pieces.map (fun x => x.token.location) ++ [placeIn file ([] ++ textOf pieces last)] := by
    rw [hscan, List.filterMap_append, List.filterMap_map, ← List.filterMap_eq_map, htext]
    rfl
  rw [hlocations]
  have hknown : ∀ l ∈ pieces.map (fun x => x.token.location) ++
      [placeIn file ([] ++ textOf pieces last)], l.isKnown = true := by
    intro l hl
    rcases List.mem_append.mp hl with hl | hl
    · obtain ⟨x, hx, rfl⟩ := List.mem_map.mp hl
      obtain ⟨w, hw⟩ := hcut.location_eq x hx
      rw [hw]
      exact placeIn_known _ _
    · rw [List.mem_singleton.mp hl]
      exact placeIn_known _ _
  exact hcut.places.imp_of_mem fun hl hm hbefore => hbefore.key_ne (hknown _ hl) (hknown _ hm)

/-! ### The two runs -/

/-- The two streams begin alike. -/
theorem start_alike {source : List Char} {file : String} {j : Journal} {s s' : Stream}
    (hclear : ∀ n, Scan.overlong n ∉ scan source file)
    (hj : Journal.diagnostics j = (scan source file).filterMap Scan.diagnostic?)
    (hs : Stream.start (scan source file) [] = .ok s)
    (hs' : Stream.start ((scan source file).map Scan.cleared) j = .ok s') :
    Stream.Alike (fun _ => False) s s' := by
  have hkeys := scan_keys hclear
  cases hscan : scan source file with
  | nil =>
    rw [hscan] at hs
    cases hs
  | cons x rest =>
    rw [hscan] at hs hs' hj hkeys
    cases x with
    | overlong n => cases hs
    | token t fault =>
      cases hs
      cases hs'
      refine ⟨rfl, rfl, rfl, hkeys, fun _ hl => hl.elim, ?_⟩
      intro k
      have hlazy : Journal.diagnostics (Stream.reported t fault []) =
          (Scan.diagnostic? (.token t fault)).toList := by
        rw [Journal.diagnostics_reported]
        rfl
      show atKey k (Journal.diagnostics j) =
        atKey k (Journal.diagnostics (Stream.reported t fault []) ++ _)
      rw [hj, hlazy, Scan.diagnostics_cons]

/-- What is read on demand and what is read of tokens that were scanned before. -/
theorem readings_agree {source file : String} {p q : Parsed}
    (hclear : ∀ n, Scan.overlong n ∉ scan source.toList file)
    (hp : parse maxDepth (scan source.toList file) [] = .ok p)
    (hq : reading maxDepth source file = .ok q) :
    q.program = p.program ∧ q.symbols = p.symbols ∧
      (∀ k, atKey k q.journal.diagnostics = atKey k p.journal.diagnostics) ∧
      ∃ stream s, Stream.start (scan source.toList file) [] = .ok stream ∧
        wholeProgram maxDepth ⟨stream, .initial, 0⟩ = .ok p.program s ∧ s.Finished := by
  obtain ⟨stream, s, hstart, hm, hsymbols, hjournal⟩ := parse_ok hp
  obtain ⟨stream', s', hstart', hm', hsymbols', hjournal'⟩ := parse_ok hq
  have hfinished : s.Finished := by
    have hsettles : Settles maxDepth (scan source.toList file) [] :=
      settles_of_complete (scan_complete_of_clear hclear) (by simp [Journal.reports])
    obtain ⟨stream₀, hstart₀, hrun⟩ := hsettles
    obtain rfl := Except.ok.inj (hstart₀.symm.trans hstart)
    rw [hm] at hrun
    exact hrun.1
  have hcleared : Stream.start ((scan source.toList file).map Scan.cleared)
      (.note (.lexed (lexed source file).1.length) :: (lexed source file).2) = .ok stream' := by
    rw [← tokensOf_cleared hclear [.note (.compiling file)]]
    exact hstart'
  have hfaults : Journal.diagnostics
      (.note (.lexed (lexed source file).1.length) :: (lexed source file).2) =
      (scan source.toList file).filterMap Scan.diagnostic? := by
    rw [Journal.diagnostics_note]
    exact (tokensOf_eq _ _).2
  have halike : ReaderState.Alike (fun _ => False) ⟨stream, .initial, 0⟩
      ⟨stream', .initial, 0⟩ :=
    ⟨start_alike hclear hfaults hstart hcleared, rfl, rfl⟩
  obtain ⟨hprogram, hafter⟩ := wholeProgram_agrees _ _ _ _ _ _ halike hm hm'
  refine ⟨hprogram, ?_, ?_, stream, s, hstart, hm, hfinished⟩
  · rw [hsymbols', hsymbols]
    exact hafter.symbols
  · intro k
    -- nothing lies ahead any more
    have hreports := hafter.stream.reports k
    rw [hfinished.rest, List.filterMap_nil, List.append_nil] at hreports
    rw [hjournal', hjournal]
    exact hreports

/-- A source that is scanned on demand leaves its diagnostics with a collector of its own. -/
theorem parseSource_ok {source file : String} {p : Parsed} {collector : Collector}
    (hclear : ∀ n, Scan.overlong n ∉ scan source.toList file)
    (h : parseSource maxDepth source file = .ok (p, collector)) :
    parse maxDepth (scan source.toList file) [] = .ok p ∧
      collector = (collectorFor source {}).after p.journal := by
  have hsettles : Settles maxDepth (scan source.toList file) [] :=
    settles_of_complete (scan_complete_of_clear hclear) (by simp [Journal.reports])
  unfold parseSource at h
  cases hp : parse maxDepth (scan source.toList file) [] with
  | error e =>
    simp only [hp] at h
    cases h
  | ok q =>
    simp only [hp] at h
    rw [Collector.absorbAll_of_error _ (severity_of_settles hsettles hp)] at h
    cases h
    exact ⟨rfl, rfl⟩

/-- A collector whose cap is not exceeded keeps every diagnostic, and writes nothing yet. -/
theorem collectorFor_after (source : String) {j : Journal}
    (hfew : (j.diagnostics.length : Int) ≤ Collector.defaultCap) :
    ((collectorFor source {}).after j).retained.toList = j.diagnostics ∧
      ((collectorFor source {}).after j).count = j.diagnostics.length ∧
      ((collectorFor source {}).after j).source = (Text.lines source).toArray ∧
      ((collectorFor source {}).after j).output = "" := by
  have hall : j.diagnostics.take Collector.defaultCap.toNat = j.diagnostics := by
    apply List.take_of_length_le
    omega
  refine ⟨?_, Nat.zero_add _, rfl, ?_⟩
  · simpa [Collector.after, collectorFor, Collector.defaultCap] using hall
  · rw [Collector.output_after]
    rfl

/-- A source that is read in both ways, with the same cap and with no more diagnostics than
    that, comes to the same program, the same names and the same number of diagnostics.  The
    diagnostics are the same but for their order, and in the same order at each place, so that
    they have the same listing.  The run that scans on demand gets to the end of the source. -/
theorem parseSource_agrees {source file : String} {options : Options} {p : Parsed}
    {collector : Collector} {r : Compiled}
    (hlazy : parseSource maxDepth source file = .ok (p, collector))
    (heager : (compileSource maxDepth options source file).outcome = .ok r)
    (hcap : options.maxErrors = collector.cap) (hfew : (r.errorCount : Int) ≤ collector.cap) :
    r.program = p.program ∧ r.symbols = p.symbols ∧ r.errorCount = collector.count ∧
      r.diagnostics.Perm collector.retained.toList ∧
      (∀ k, atKey k r.diagnostics = atKey k collector.retained.toList) ∧
      Listing.render (Text.lines source).toArray r.diagnostics = collector.render ∧
      (options.trace = false → options.printTree = false →
        (compileSource maxDepth options source file).output = collector.flush.writeSummary.output) ∧
      ∃ stream s, Stream.start (scan source.toList file) [] = .ok stream ∧
        wholeProgram maxDepth ⟨stream, .initial, 0⟩ = .ok p.program s ∧ s.Finished := by
  obtain ⟨hover, q, hq⟩ := reading_of_outcome heager
  have hclear := overlong_notMem hover
  obtain ⟨hp, rfl⟩ := parseSource_ok hclear hlazy
  obtain ⟨tree, htree⟩ := q.program.outline_ok q.symbols.describeScope
  have hrun := (compileSource_of_reading hover hq options).trans
    (conclude_eq options source file (lexed source file).1.length htree
      (reading_severity hover hq))
  rw [hrun] at heager
  obtain rfl := Except.ok.inj heager
  obtain ⟨hprogram, hsymbols, hkeys, hfinished⟩ := readings_agree hclear hp hq
  have hperm := perm_of_atKey hkeys
  have hcount : q.journal.diagnostics.length = p.journal.diagnostics.length := hperm.length_eq
  -- neither keeps less than all
  have hcapacity : ((collectorFor source {}).after p.journal).cap = Collector.defaultCap := rfl
  rw [hcapacity] at hcap hfew
  dsimp only at hfew
  have hkept : q.journal.diagnostics.take options.maxErrors.toNat = q.journal.diagnostics := by
    apply List.take_of_length_le
    omega
  obtain ⟨hretained, htotal, hsource, hsilent⟩ := collectorFor_after source (hcount ▸ hfew)
  have hrender := Listing.render_eq (Text.lines source).toArray hkeys
  have hempty : q.journal.diagnostics.isEmpty = p.journal.diagnostics.isEmpty := by
    rw [Bool.eq_iff_iff, List.isEmpty_iff_length_eq_zero, List.isEmpty_iff_length_eq_zero, hcount]
  dsimp only
  rw [hrun, hkept, Collector.render, Collector.output_flush_writeSummary, hretained, htotal,
    hsource, hsilent]
  refine ⟨hprogram, hsymbols, hcount, hperm, hkeys, hrender, ?_, hfinished⟩
  intro htrace hprint
  simp [htrace, hprint, Collector.listingText, hempty, hrender, hcount]

/-- The hypotheses of `parseSource_agrees` hold of a program in which illegal characters and
    mistakes of the program follow each other, so that the two ways report in another order. -/
theorem parseSource_agrees_signs :
    ∃ p collector r, parseSource 1000 "x ? end ?" "a.pl0" = .ok (p, collector) ∧
      (compileSource 1000 {} "x ? end ?" "a.pl0").outcome = .ok r ∧ r.program = p.program ∧
      collector.count = 3 ∧ r.diagnostics.Perm collector.retained.toList ∧
      r.diagnostics ≠ collector.retained.toList := by
  have hcount : ((compileSource 1000 {} "x ? end ?" "a.pl0").outcome.map
      Compiled.errorCount).toOption = some 3 := by decide +kernel
  have hcap :
      ((parseSource 1000 "x ? end ?" "a.pl0").map fun x => x.2.cap).toOption = some 100 := by
    decide +kernel
  have horder : ((compileSource 1000 {} "x ? end ?" "a.pl0").outcome.map
      Compiled.diagnostics).toOption ≠
      ((parseSource 1000 "x ? end ?" "a.pl0").map fun x => x.2.retained.toList).toOption := by
    decide +kernel
  cases hlazy : parseSource 1000 "x ? end ?" "a.pl0" with
  | error e =>
    rw [hlazy] at hcap
    cases hcap
  | ok x =>
    obtain ⟨p, collector⟩ := x
    cases heager : (compileSource 1000 {} "x ? end ?" "a.pl0").outcome with
    | error e =>
      rw [heager] at hcount
      cases hcount
    | ok r =>
      rw [hlazy] at hcap horder
      rw [heager] at hcount horder
      have hthree : r.errorCount = 3 := Option.some.inj hcount
      have hhundred : collector.cap = 100 := Option.some.inj hcap
      obtain ⟨hprogram, -, htotal, hperm, -⟩ :=
        parseSource_agrees hlazy heager hhundred.symm (by rw [hthree, hhundred]; decide)
      refine ⟨p, collector, r, rfl, rfl, hprogram, htotal ▸ hthree, hperm, ?_⟩
      intro heq
      exact horder (congrArg some heq)

end PlZero
