/-
  PlZero/Text/ControlSequence.lean
  ================================
  **Control sequences for a terminal**, which set colours and move the cursor.
  Such a sequence is the escape character, an opening bracket, parameters, and a
  letter that says what to do.

  A message for a channel that is not a terminal leaves them out.  The text is
  gone through once: what only the removal of a sequence brings together is
  text, and so is a sequence that has no end.
-/

namespace PlZero.Text

/-- The characters of which the parameters of a control sequence consist. -/
def isParameter (c : Char) : Bool := c == ';' || c == '?' || c.isDigit

/-- What follows the control sequence at the beginning of a text, if there is one. -/
def afterControlSequence? : List Char → Option (List Char)
  | '\x1b' :: '[' :: rest =>
    match rest.dropWhile isParameter with
    | final :: after => if final.isAlpha then some after else none
    | [] => none
  | _ => none

/-- What is left is no longer than before. -/
theorem length_dropWhile_le (p : Char → Bool) (cs : List Char) :
    (cs.dropWhile p).length ≤ cs.length :=
  (List.dropWhile_sublist p).length_le

/-- A control sequence is not empty. -/
theorem length_afterControlSequence? {cs after : List Char}
    (h : afterControlSequence? cs = some after) : after.length < cs.length := by
  unfold afterControlSequence? at h
  split at h
  · next rest =>
    split at h
    · next final tail found =>
      have shorter := length_dropWhile_le isParameter rest
      split at h
      · simp only [Option.some.injEq] at h
        subst h
        simp only [found, List.length_cons] at shorter ⊢
        omega
      · simp at h
    · simp at h
  · simp at h

/-- Only the escape character begins a control sequence. -/
theorem afterControlSequence?_cons {c : Char} (h : c ≠ '\x1b') (cs : List Char) :
    afterControlSequence? (c :: cs) = none := by
  unfold afterControlSequence?
  split
  · next heq => exact absurd (List.cons.inj heq).1 h
  · rfl

/-- Leaves out the control sequences of a text; `done` is the result so far in
    reverse. -/
def withoutControlSequencesAfter (done : List Char) (cs : List Char) : List Char :=
  match cs with
  | [] => done.reverse
  | c :: rest =>
    match _found : afterControlSequence? (c :: rest) with
    | some after => withoutControlSequencesAfter done after
    | none => withoutControlSequencesAfter (c :: done) rest
termination_by cs.length
decreasing_by
  · exact length_afterControlSequence? _found
  · exact Nat.lt_succ_self rest.length

/-- A text without the escape character is kept as it is. -/
theorem withoutControlSequencesAfter_of_not_mem (done cs : List Char) (h : '\x1b' ∉ cs) :
    withoutControlSequencesAfter done cs = done.reverse ++ cs := by
  induction cs generalizing done with
  | nil => simp [withoutControlSequencesAfter]
  | cons c cs ih =>
    simp only [List.mem_cons, not_or] at h
    rw [withoutControlSequencesAfter]
    split
    · next found => simp [afterControlSequence?_cons (Ne.symm h.1)] at found
    · simp [ih _ h.2]

/-- A text without its control sequences. -/
def withoutControlSequences (text : String) : String :=
  String.ofList (withoutControlSequencesAfter [] text.toList)

/-- A text without the escape character holds no control sequences. -/
theorem withoutControlSequences_of_not_mem (text : String) (h : '\x1b' ∉ text.toList) :
    withoutControlSequences text = text := by
  simp [withoutControlSequences, withoutControlSequencesAfter_of_not_mem _ _ h]

end PlZero.Text
