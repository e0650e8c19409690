/-
  PlZero/Proofs/Token/Trivia.lean
  ===============================
  **What stands between lexemes, and where.**  Trivia is made of blanks and of comments,
  each of which runs up to the next line feed or to the end of the text (`Trivia`).  The
  scanner passes over the longest trivia there is (`skipTrivia_trivia`,
  `Trivia.longest_of_stuck`), and all the while counts the place at which it stands: a line
  for every line feed behind it, and a column for every character since the last of them
  (`placeAfter`).
-/
import Mathlib.Data.List.TakeWhile
import PlZero.Proofs.Token.Scanned

namespace PlZero

/-! ### Places -/

/-- The line and the column behind a text that starts at the beginning of a source. -/
def placeAfter (before : List Char) : Nat × Nat :=
  (1 + before.count '\n', 1 + (before.reverse.takeWhile fun c => c != '\n').length)

@[simp] theorem placeAfter_newline (before : List Char) :
    placeAfter (before ++ ['\n']) = ((placeAfter before).1 + 1, 1) := by
  simp [placeAfter, Nat.add_assoc]

theorem placeAfter_char (before : List Char) {c : Char} (hc : c ≠ '\n') :
    placeAfter (before ++ [c]) = ((placeAfter before).1, (placeAfter before).2 + 1) := by
  have hbne : (c != '\n') = true := by simpa using hc
  simp [placeAfter, hc, hbne, Nat.add_assoc]

/-- A text without a line feed moves the place along its line. -/
theorem placeAfter_append (before : List Char) {cs : List Char} (hcs : '\n' ∉ cs) :
    placeAfter (before ++ cs) = ((placeAfter before).1, (placeAfter before).2 + cs.length) := by
  induction cs generalizing before with
  | nil => simp
  | cons c cs ih =>
    simp only [List.mem_cons, not_or] at hcs
    have hstep := ih (before ++ [c]) hcs.2
    rw [placeAfter_char before (Ne.symm hcs.1)] at hstep
    rw [List.append_assoc, List.singleton_append] at hstep
    rw [hstep, List.length_cons]
    simp only [Prod.mk.injEq, true_and]
    omega

/-- A text moves the place on: to a later line, or along the line. -/
theorem placeAfter_lt (before : List Char) {cs : List Char} (hcs : cs ≠ []) :
    (placeAfter before).1 < (placeAfter (before ++ cs)).1 ∨
      (placeAfter before).1 = (placeAfter (before ++ cs)).1 ∧
        (placeAfter before).2 < (placeAfter (before ++ cs)).2 := by
  by_cases hline : '\n' ∈ cs
  · left
    have hcount : 0 < cs.count '\n' := List.count_pos_iff.mpr hline
    simp only [placeAfter, List.count_append]
    omega
  · right
    have hlength : 0 < cs.length := List.length_pos_iff.mpr hcs
    rw [placeAfter_append before hline]
    exact ⟨rfl, Nat.lt_add_of_pos_right hlength⟩

/-- A cursor stands where the text before it ends. -/
def Cursor.At (c : Cursor) (before : List Char) : Prop := (c.line, c.column) = placeAfter before

/-! ### Trivia -/

/-- The characters that may stand between lexemes outside a comment. -/
def blankChars : List Char := [' ', '\t', '\n', '\r', '\x0c']

theorem isBlank_iff {c : Char} : isBlank c = true ↔ c ∈ blankChars := by
  simp [isBlank, blankChars, or_assoc]

/-- A text at whose beginning a line ends, or with which the source ends. -/
def LineEnds (text : List Char) : Prop := ∀ c ∈ text.head?, c = '\n'

/-- `Trivia w rest` says that `w` is a run of blanks and comments when `rest` stands behind
    it.  A comment runs up to the next line feed or to the end of the text. -/
inductive Trivia : List Char → List Char → Prop
  | none {rest : List Char} : Trivia [] rest
  | blank {c : Char} {w rest : List Char} (hc : c ∈ blankChars) (hw : Trivia w rest) :
      Trivia (c :: w) rest
  | comment {body w rest : List Char} (hbody : '\n' ∉ body) (hend : LineEnds (w ++ rest))
      (hw : Trivia w rest) : Trivia ('/' :: '/' :: (body ++ w)) rest

/-- Trivia that no other trivia at the beginning of the same text is longer than. -/
structure LongestTrivia (w rest : List Char) : Prop where
  trivia : Trivia w rest
  longest : ∀ w' rest', w' ++ rest' = w ++ rest → Trivia w' rest' → w'.length ≤ w.length

/-- No trivia but the empty one begins the text. -/
def Stuck (text : List Char) : Prop :=
  (∀ c ∈ text.head?, c ∉ blankChars) ∧ ∀ tail, text ≠ '/' :: '/' :: tail

theorem slash_not_blank : '/' ∉ blankChars := by decide

theorem Stuck.eq_nil {w rest : List Char} (h : Stuck (w ++ rest)) (hw : Trivia w rest) :
    w = [] := by
  cases hw with
  | none => rfl
  | blank hc hw => exact absurd hc (h.1 _ (by simp))
  | comment hbody hend hw => exact absurd rfl (h.2 _)

/-- Two bodies of a comment at the beginning of the same text are the same. -/
theorem comment_body_unique {body body' rest rest' : List Char}
    (h : body ++ rest = body' ++ rest') (hbody : '\n' ∉ body) (hbody' : '\n' ∉ body')
    (hrest : LineEnds rest) (hrest' : LineEnds rest') : body = body' ∧ rest = rest' := by
  induction body generalizing body' with
  | nil =>
    cases body' with
    | nil => exact ⟨rfl, h⟩
    | cons d body' =>
      rw [List.nil_append] at h
      have hd : d = '\n' := hrest d (by simp [h])
      subst hd
      exact absurd List.mem_cons_self hbody'
  | cons c body ih =>
    cases body' with
    | nil =>
      rw [List.nil_append] at h
      have hc : c = '\n' := hrest' c (by simp [← h])
      subst hc
      exact absurd List.mem_cons_self hbody
    | cons d body' =>
      simp only [List.cons_append, List.cons.injEq] at h
      obtain ⟨rfl, h⟩ := h
      simp only [List.mem_cons, not_or] at hbody hbody'
      obtain ⟨rfl, hrest⟩ := ih h hbody.2 hbody'.2
      exact ⟨rfl, hrest⟩

/-- Trivia behind which nothing more can be passed over is the longest. -/
theorem Trivia.longest_of_stuck {w rest : List Char} (hw : Trivia w rest) (hrest : Stuck rest) :
    LongestTrivia w rest := by
  refine ⟨hw, ?_⟩
  induction hw with
  | none =>
    intro w' rest' heq hw'
    rw [List.nil_append] at heq
    have hnil : w' = [] := Stuck.eq_nil (heq ▸ hrest) hw'
    simp [hnil]
  | @blank c w rest hc hw ih =>
    intro w' rest' heq hw'
    cases hw' with
    | none => simp
    | blank hd hw' =>
      simp only [List.cons_append, List.cons.injEq] at heq
      simpa using ih hrest _ _ heq.2 hw'
    | comment hbody hend hw' =>
      -- a comment begins with a slash, which is no blank
      simp only [List.cons_append, List.cons.injEq] at heq
      obtain ⟨rfl, -⟩ := heq
      exact absurd hc slash_not_blank
  | @comment body w rest hbody hend hw ih =>
    intro w' rest' heq hw'
    cases hw' with
    | none => simp
    | blank hd hw' =>
      simp only [List.cons_append, List.cons.injEq] at heq
      obtain ⟨rfl, -⟩ := heq
      exact absurd hd slash_not_blank
    | @comment body' w' _ hbody' hend' hw' =>
      simp only [List.cons_append, List.cons.injEq, true_and, List.append_assoc] at heq
      obtain ⟨rfl, htail⟩ := comment_body_unique heq hbody' hbody hend' hend
      have hle := ih hrest _ _ htail hw'
      simp only [List.length_cons, List.length_append]
      omega

/-! ### Passing over trivia -/

/-- What is passed over from inside a comment: the rest of the comment, and trivia. -/
def CommentAndTrivia (w rest : List Char) : Prop :=
  ∃ body w', w = body ++ w' ∧ '\n' ∉ body ∧ LineEnds (w' ++ rest) ∧ Trivia w' rest

theorem CommentAndTrivia.trivia {w rest : List Char} (h : CommentAndTrivia w rest) :
    Trivia ('/' :: '/' :: w) rest := by
  obtain ⟨body, w', rfl, hbody, hend, hw⟩ := h
  exact .comment hbody hend hw

theorem CommentAndTrivia.cons {c : Char} {w rest : List Char} (hc : c ≠ '\n')
    (h : CommentAndTrivia w rest) : CommentAndTrivia (c :: w) rest := by
  obtain ⟨body, w', rfl, hbody, hend, hw⟩ := h
  refine ⟨c :: body, w', rfl, ?_, hend, hw⟩
  simp only [List.mem_cons, not_or]
  exact ⟨Ne.symm hc, hbody⟩

/-- The scanner passes over trivia until it is stuck, and keeps count of its place. -/
theorem skipTrivia_trivia (inComment : Bool) (line column : Nat) (lineStart cs : List Char)
    (before : List Char) (hat : (line, column) = placeAfter before) :
    ∃ w, cs = w ++ (skipTrivia inComment line column lineStart cs).rest ∧
      (skipTrivia inComment line column lineStart cs).At (before ++ w) ∧
      Stuck (skipTrivia inComment line column lineStart cs).rest ∧
      (if inComment then CommentAndTrivia w (skipTrivia inComment line column lineStart cs).rest
        else Trivia w (skipTrivia inComment line column lineStart cs).rest) := by
  fun_induction skipTrivia inComment line column lineStart cs generalizing before with
  | case1 inComment line column lineStart =>
    refine ⟨[], rfl, ?_, by simp [Stuck], ?_⟩
    · simpa [Cursor.At] using hat
    · cases inComment with
      | true => exact ⟨[], [], rfl, by simp, by simp [LineEnds], .none⟩
      | false => exact .none
  | case2 inComment line column lineStart rest ih =>
    have hnext : (line + 1, 1) = placeAfter (before ++ ['\n']) := by
      rw [placeAfter_newline, ← hat]
    obtain ⟨w, hw, hplace, hstuck, htrivia⟩ := ih (before ++ ['\n']) hnext
    refine ⟨'\n' :: w, ?_, ?_, hstuck, ?_⟩
    · rw [List.cons_append, ← hw]
    · simpa using hplace
    · have hblank : Trivia ('\n' :: w) (skipTrivia false (line + 1) 1 rest rest).rest :=
        .blank (by decide) (by simpa using htrivia)
      cases inComment with
      | true => exact ⟨[], '\n' :: w, rfl, by simp, by simp [LineEnds], hblank⟩
      | false => exact hblank
  | case3 inComment line column lineStart c rest hne hpass ih =>
    have hc : c ≠ '\n' := fun h => hne h
    have hnext : (line, column + 1) = placeAfter (before ++ [c]) := by
      rw [placeAfter_char before hc, ← hat]
    obtain ⟨w, hw, hplace, hstuck, htrivia⟩ := ih (before ++ [c]) hnext
    refine ⟨c :: w, ?_, ?_, hstuck, ?_⟩
    · rw [List.cons_append, ← hw]
    · simpa using hplace
    · cases inComment with
      | true => exact .cons hc (by simpa using htrivia)
      | false =>
        have hblank : c ∈ blankChars := isBlank_iff.mp (by simpa using hpass)
        exact .blank hblank (by simpa using htrivia)
  | case4 inComment line column lineStart hne rest hpass ih =>
    have hnext : (line, column + 2) = placeAfter (before ++ ['/', '/']) := by
      rw [placeAfter_append before (by decide), ← hat]
      rfl
    obtain ⟨w, hw, hplace, hstuck, htrivia⟩ := ih (before ++ ['/', '/']) hnext
    have hout : inComment = false := by
      cases inComment with
      | true => exact absurd rfl hpass
      | false => rfl
    subst hout
    refine ⟨'/' :: '/' :: w, ?_, ?_, hstuck, ?_⟩
    · rw [List.cons_append, List.cons_append, ← hw]
    · simpa using hplace
    · exact CommentAndTrivia.trivia (by simpa using htrivia)
  | case5 inComment line column lineStart rest hrest hne hpass =>
    have hout : inComment = false ∧ isBlank '/' = false := by simpa using hpass
    obtain ⟨rfl, -⟩ := hout
    refine ⟨[], rfl, ?_, ?_, .none⟩
    · simpa [Cursor.At] using hat
    · constructor
      · intro c hc
        obtain rfl : '/' = c := by simpa using hc
        exact slash_not_blank
      · intro tail heq
        exact hrest tail (List.cons.inj heq).2
  | case6 inComment line column lineStart c rest hne hpass hslash =>
    have hout : inComment = false ∧ isBlank c = false := by simpa using hpass
    obtain ⟨rfl, hblank⟩ := hout
    refine ⟨[], rfl, ?_, ?_, .none⟩
    · simpa [Cursor.At] using hat
    · constructor
      · intro d hd
        obtain rfl : c = d := by simpa using hd
        intro hmem
        rw [isBlank_iff.mpr hmem] at hblank
        exact absurd hblank (by simp)
      · intro tail heq
        exact hslash (List.cons.inj heq).1

/-- A cursor passes over the longest trivia at its place. -/
theorem Cursor.skipTrivia_longest {c : Cursor} {before : List Char} (hat : c.At before) :
    ∃ w, c.rest = w ++ c.skipTrivia.rest ∧ c.skipTrivia.At (before ++ w) ∧
      LongestTrivia w c.skipTrivia.rest ∧ Stuck c.skipTrivia.rest := by
  obtain ⟨w, hw, hplace, hstuck, htrivia⟩ :=
    skipTrivia_trivia false c.line c.column c.lineStart c.rest before hat
  rw [if_neg Bool.false_ne_true] at htrivia
  exact ⟨w, hw, hplace, Trivia.longest_of_stuck htrivia hstuck, hstuck⟩

end PlZero
