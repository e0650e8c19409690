/-
  PlZero/Proofs/Compilation/LineEnds.lean
  =======================================
  **Compiling a file is compiling its text with unified line ends.**  A text is unified in two
  passes: every pair of carriage return and line feed becomes a line feed, and then so does every
  carriage return that is left.  What a file is decoded with does both in one pass
  (`unifyLineEnds_eq`), and since decoding undoes encoding, nothing else of a text matters to
  what a run writes, notes and comes to.

  The lines of a text can be written with any of the three line ends.  The end of one line and
  the beginning of the next are never mistaken for a pair, as no line begins with a line feed
  (`unified_joined`).
-/
import PlZero.Proofs.Text.Encoding
import PlZero.SourceFile

namespace PlZero

/-! ### Unified texts -/

namespace Text

/-- A text with every pair of carriage return and line feed written as a line feed: the carriage
    return of a pair is left out. -/
def withoutPairs : List Char → List Char
  | [] => []
  | c :: rest =>
    if c = '\r' ∧ rest.head? = some '\n' then withoutPairs rest else c :: withoutPairs rest

/-- A character, or a line feed for a carriage return. -/
def fed (c : Char) : Char := if c = '\r' then '\n' else c

/-- A text without pairs of carriage return and line feed, and then without any carriage return. -/
def unified (cs : List Char) : List Char := (withoutPairs cs).map fed

/-- A way to end lines. -/
inductive LineEnd
  | lineFeed
  | carriageReturn
  | pair
  deriving DecidableEq, Repr

/-- The characters of a line end. -/
def LineEnd.chars : LineEnd → List Char
  | lineFeed => ['\n']
  | carriageReturn => ['\r']
  | pair => ['\r', '\n']

/-- Lines with line ends between them. -/
def joined (e : LineEnd) (ls : List (List Char)) : List Char := e.chars.intercalate ls

variable {c : Char} {cs rest l : List Char} {e : LineEnd} {ls : List (List Char)}

/-- Only a line feed makes a pair with the carriage return before it. -/
theorem withoutPairs_cons (h : c = '\r' → rest.head? ≠ some '\n') :
    withoutPairs (c :: rest) = c :: withoutPairs rest :=
  if_neg (not_and.mpr h)

theorem unified_cons (h : c = '\r' → rest.head? ≠ some '\n') :
    unified (c :: rest) = fed c :: unified rest := by
  unfold unified
  rw [withoutPairs_cons h, List.map_cons]

/-- The carriage return of a pair is left out. -/
theorem unified_pair (rest : List Char) :
    unified ('\r' :: '\n' :: rest) = unified ('\n' :: rest) := by
  unfold unified
  rw [withoutPairs, if_pos ⟨rfl, rfl⟩]

theorem unifyLineEndsAfter_cons (done : List Char) (h : c = '\r' → rest.head? ≠ some '\n') :
    unifyLineEndsAfter done (c :: rest) = unifyLineEndsAfter (fed c :: done) rest := by
  rw [unifyLineEndsAfter]
  · rfl
  · rintro rest' rfl rfl
    exact h rfl rfl

theorem unifyLineEndsAfter_pair (done rest : List Char) :
    unifyLineEndsAfter done ('\r' :: '\n' :: rest) = unifyLineEndsAfter done ('\n' :: rest) := by
  rw [unifyLineEndsAfter, unifyLineEndsAfter_cons done fun h => absurd h (by decide)]
  rfl

/-- The one pass that a file is decoded with does what the two passes do. -/
theorem unifyLineEndsAfter_eq (done cs : List Char) :
    unifyLineEndsAfter done cs = done.reverse ++ unified cs := by
  induction cs generalizing done with
  | nil => exact (List.append_nil _).symm
  | cons c rest ih =>
    by_cases hpair : c = '\r' ∧ rest.head? = some '\n'
    · obtain ⟨rfl, hhead⟩ := hpair
      obtain ⟨rest, rfl⟩ := List.head?_eq_some_iff.mp hhead
      rw [unifyLineEndsAfter_pair, ih, unified_pair]
    · have halone := not_and.mp hpair
      rw [unifyLineEndsAfter_cons done halone, ih, unified_cons halone, List.reverse_cons,
        List.append_assoc]
      rfl

theorem unifyLineEnds_eq (cs : List Char) : unifyLineEnds cs = unified cs :=
  unifyLineEndsAfter_eq [] cs

/-- A line stays as it is. -/
theorem unified_append (hl : '\r' ∉ l) : unified (l ++ rest) = l ++ unified rest := by
  induction l with
  | nil => rfl
  | cons c l ih =>
    obtain ⟨hc, hl⟩ := not_or.mp (mt List.mem_cons.mpr hl)
    rw [List.cons_append, unified_cons (fun h => absurd h.symm hc), ih hl, fed,
      if_neg (Ne.symm hc), List.cons_append]

/-- A line end becomes a line feed, unless it is the first half of a pair. -/
theorem unified_lineEnd (h : e = .carriageReturn → rest.head? ≠ some '\n') :
    unified (e.chars ++ rest) = '\n' :: unified rest := by
  cases e with
  | lineFeed => exact unified_cons fun hc => absurd hc (by decide)
  | carriageReturn => exact unified_cons fun _ => h rfl
  | pair => exact (unified_pair rest).trans (unified_cons fun hc => absurd hc (by decide))

theorem joined_cons (e : LineEnd) (l l' : List Char) (ls : List (List Char)) :
    joined e (l :: l' :: ls) = l ++ (e.chars ++ joined e (l' :: ls)) := by
  unfold joined
  rw [List.intercalate_cons_cons, List.append_assoc]

/-- Lines that end in carriage returns begin with no line feed. -/
theorem head_joined (h : ∀ l ∈ ls, '\n' ∉ l) :
    (joined .carriageReturn ls).head? ≠ some '\n' := by
  rcases ls with _ | ⟨_ | ⟨c, l⟩, _ | ⟨l', ls⟩⟩
  · simp [joined]
  · simp [joined]
  · simp [joined_cons, LineEnd.chars]
  · have hc : c ≠ '\n' := fun hc => h (c :: l) List.mem_cons_self (hc ▸ List.mem_cons_self)
    simpa [joined] using hc
  · have hc : c ≠ '\n' := fun hc => h (c :: l) List.mem_cons_self (hc ▸ List.mem_cons_self)
    simpa [joined_cons] using hc

/-- By induction on the lines: the ends of all of them become line feeds. -/
theorem unified_joined (e : LineEnd) (h : ∀ l ∈ ls, '\r' ∉ l ∧ '\n' ∉ l) :
    unified (joined e ls) = joined .lineFeed ls := by
  induction ls with
  | nil => rfl
  | cons l ls ih =>
    obtain ⟨⟨hl, -⟩, hls⟩ := List.forall_mem_cons.mp h
    cases ls with
    | nil =>
      have hone : ∀ e, joined e [l] = l ++ [] := fun e => by simp [joined]
      rw [hone, hone, unified_append hl]
      rfl
    | cons l' ls =>
      have hbehind : e = .carriageReturn → (joined e (l' :: ls)).head? ≠ some '\n' := by
        rintro rfl
        exact head_joined fun x hx => (hls x hx).2
      rw [joined_cons, joined_cons, unified_append hl, unified_lineEnd hbehind, ih hls]
      rfl

end Text

/-! ### Files -/

namespace SourceFile

/-- The bytes of a file that holds a text. -/
def encoded (t : String) : List UInt8 := t.toUTF8.data.toList

/-- A text as it is read from a file. -/
def unified (t : String) : String := String.ofList (Text.unified t.toList)

theorem encoded_eq (t : String) : encoded t = t.toList.flatMap String.utf8EncodeChar := by
  unfold encoded
  rw [String.toUTF8_eq_toByteArray, ← String.utf8Encode_toList, List.utf8Encode,
    List.data_toByteArray]

/-- A file that holds a text is decoded to the unified text. -/
theorem decode_encoded (t : String) : decode (encoded t) = .ok (unified t) := by
  have hdecoded : Text.decodeUtf8 (encoded t) = .ok t.toList :=
    Text.decodeUtf8_iff.mpr (encoded_eq t)
  unfold decode unified
  rw [hdecoded, ← Text.unifyLineEnds_eq]
  rfl

theorem compile_encoded (maxDepth : Nat) (options : Options) (path t : String) :
    compile maxDepth options path (.file (encoded t)) =
      Compilation.compileSource maxDepth options (unified t) path := by
  unfold compile
  simp only [decode_encoded]

/-- A file that holds a text is compiled as its unified text is, with the path as the name of the
    file: with the same tokens at the same places, the same output, the same notes and the same
    outcome, be it a result or a failure.  So texts that are unified to the same are compiled to
    the same, and among them are lines that end in line feeds, in carriage returns and in
    pairs. -/
theorem compile_unified (maxDepth : Nat) (options : Options) (path : String) :
    (∀ t, compile maxDepth options path (.file (encoded t)) =
      Compilation.compileSource maxDepth options (unified t) path) ∧
    (∀ t, (decode (encoded t)).map (fun source => scan source.toList path) =
      .ok (scan (Text.unified t.toList) path)) ∧
    (∀ t t', unified t = unified t' →
      compile maxDepth options path (.file (encoded t)) =
        compile maxDepth options path (.file (encoded t'))) ∧
    ∀ ls, (∀ l ∈ ls, '\r' ∉ l ∧ '\n' ∉ l) → ∀ e e',
      compile maxDepth options path (.file (encoded (String.ofList (Text.joined e ls)))) =
        compile maxDepth options path (.file (encoded (String.ofList (Text.joined e' ls)))) := by
  refine ⟨compile_encoded maxDepth options path, ?_, ?_, ?_⟩
  · intro t
    rw [decode_encoded]
    simp [Except.map, unified]
  · intro t t' h
    rw [compile_encoded, compile_encoded, h]
  · intro ls hls e e'
    have hunified : ∀ e, unified (String.ofList (Text.joined e ls)) =
        String.ofList (Text.joined .lineFeed ls) := by
      intro e
      unfold unified
      rw [String.toList_ofList, Text.unified_joined e hls]
    rw [compile_encoded, compile_encoded, hunified, hunified]

/-- `compile_unified` of a text in which a carriage return stands before a pair and another one ends
    it, and of three lines of which one is empty. -/
theorem compile_unified_mixed :
    compile 1000 {} "p.pl0" (.file (encoded "x\r\r\ny\r")) =
        Compilation.compileSource 1000 {} "x\n\ny\n" "p.pl0" ∧
      compile 1000 {} "p.pl0" (.file (encoded "x\r\n\r\ny")) =
        compile 1000 {} "p.pl0" (.file (encoded "x\r\ry")) := by
  obtain ⟨hcompile, -, -, hlines⟩ := compile_unified 1000 {} "p.pl0"
  exact ⟨hcompile "x\r\r\ny\r",
    hlines [['x'], [], ['y']] (by decide) .pair .carriageReturn⟩

end SourceFile

end PlZero
