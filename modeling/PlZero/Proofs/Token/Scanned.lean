/-
  PlZero/Proofs/Token/Scanned.lean
  ================================
  **The scans of a source end.**  Without a digit run that is too long, a source is scanned
  to a list of tokens that ends with the end of the input and holds it nowhere else.  Every
  lexeme is taken from the text that is left, so that a digit run of the scanner is a digit
  run of the source.
-/
import Mathlib.Data.List.TakeDrop
import Mathlib.Data.List.TakeWhile
import PlZero.Proofs.Stream.Ahead

namespace PlZero

/-- No run of digits in a text is too long to be read. -/
def NoLongDigitRun (cs : List Char) : Prop :=
  ∀ ds, ds <:+: cs → (∀ d ∈ ds, isDigit d) → ds.length ≤ Text.maxDigits

theorem NoLongDigitRun.of_suffix {cs ds : List Char} (h : NoLongDigitRun cs) (hs : ds <:+ cs) :
    NoLongDigitRun ds :=
  fun run hrun => h run (hrun.trans hs.isInfix)

/-! ### Lexemes -/

theorem Kind.ofPair?_ne {c d : Char} {k : Kind} (h : Kind.ofPair? c d = some k) :
    k ≠ .endOfFile := by
  unfold Kind.ofPair? at h
  split at h <;> simp_all <;> subst h <;> decide

theorem Kind.ofChar?_ne {c : Char} {k : Kind} (h : Kind.ofChar? c = some k) :
    k ≠ .endOfFile := by
  unfold Kind.ofChar? at h
  split at h <;> simp_all <;> subst h <;> decide

theorem Kind.ofKeyword?_ne {word : String} {k : Kind} (h : Kind.ofKeyword? word = some k) :
    k ≠ .endOfFile := by
  have hmem : k ∈ Kind.keywords := List.mem_of_find?_eq_some h
  rintro rfl
  exact absurd hmem (by decide)

/-- What a lexeme is made of: the digits of a run are digits, and no operator stands for
    the end of the input. -/
def Lexeme.Sane : Lexeme → Prop
  | .digits ds => ∀ d ∈ ds, isDigit d
  | .operator k _ => k ≠ .endOfFile
  | _ => True

theorem Lexeme.longest_single (c : Char) :
    (Lexeme.longest.single c).chars = [c] ∧ (Lexeme.longest.single c).Sane := by
  unfold Lexeme.longest.single
  split
  · rename_i k hk
    exact ⟨rfl, Kind.ofChar?_ne hk⟩
  · exact ⟨rfl, trivial⟩

/-- The longest lexeme is taken from the front of the text. -/
theorem Lexeme.longest_append (c : Char) (rest : List Char) :
    (longest c rest).1.chars ++ (longest c rest).2 = c :: rest ∧ (longest c rest).1.Sane := by
  unfold longest
  by_cases hletter : isLetter c = true
  · simp only [if_pos hletter, List.span_eq_takeWhile_dropWhile]
    refine ⟨?_, trivial⟩
    rw [Lexeme.chars, List.cons_append, List.takeWhile_append_dropWhile]
  · rw [if_neg hletter]
    by_cases hdigit : isDigit c = true
    · simp only [if_pos hdigit, List.span_eq_takeWhile_dropWhile]
      refine ⟨?_, ?_⟩
      · rw [Lexeme.chars, List.cons_append, List.takeWhile_append_dropWhile]
      · intro d hd
        rcases List.mem_cons.mp hd with rfl | hd
        · exact hdigit
        · exact List.mem_takeWhile_imp hd
    · rw [if_neg hdigit]
      cases rest with
      | nil =>
        obtain ⟨hchars, hsane⟩ := longest_single c
        exact ⟨by rw [hchars]; rfl, hsane⟩
      | cons d behind =>
        cases hpair : Kind.ofPair? c d with
        | some k =>
          dsimp only
          rw [hpair]
          exact ⟨rfl, Kind.ofPair?_ne hpair⟩
        | none =>
          dsimp only
          rw [hpair]
          obtain ⟨hchars, hsane⟩ := longest_single c
          exact ⟨by rw [hchars]; rfl, hsane⟩

/-- A lexeme of a text without a digit run that is too long is a token. -/
theorem Lexeme.meaning_some {lexeme : Lexeme} (hsane : lexeme.Sane)
    (hshort : NoLongDigitRun lexeme.chars) :
    ∃ k p fault, lexeme.meaning = some (k, p, fault) ∧ k ≠ .endOfFile := by
  cases lexeme with
  | word cs =>
    refine ⟨(wordToken cs).1, (wordToken cs).2, none, rfl, ?_⟩
    unfold wordToken
    dsimp only
    cases hword : Kind.ofKeyword? (String.ofList cs) with
    | none => simp
    | some k => exact Kind.ofKeyword?_ne hword
  | digits ds =>
    have hle : ¬ Text.maxDigits < ds.length :=
      Nat.not_lt_of_le (hshort ds (List.infix_refl _) hsane)
    simp only [meaning, if_neg hle]
    split
    · exact ⟨_, _, _, rfl, by simp⟩
    · exact ⟨_, _, _, rfl, by simp⟩
  | operator k cs => exact ⟨k, _, _, rfl, hsane⟩
  | illegal c => exact ⟨_, _, _, rfl, by simp⟩

/-! ### Scans -/

theorem skipTrivia_suffix (inComment : Bool) (line column : Nat) (lineStart cs : List Char) :
    (skipTrivia inComment line column lineStart cs).rest <:+ cs := by
  fun_induction skipTrivia inComment line column lineStart cs with
  | case1 => exact List.suffix_refl _
  | case2 _ _ _ _ _ ih => exact ih.trans (List.suffix_cons _ _)
  | case3 _ _ _ _ _ _ _ _ ih => exact ih.trans (List.suffix_cons _ _)
  | case4 _ _ _ _ _ _ _ ih =>
    exact ih.trans ((List.suffix_cons _ _).trans (List.suffix_cons _ _))
  | case5 => exact List.suffix_refl _
  | case6 => exact List.suffix_refl _

/-- Scans with nothing but tokens before the one that ends the input. -/
def Scan.Complete (scans : List Scan) : Prop :=
  ∃ before place, scans = before ++ [.token (.endOfFile place) none] ∧
    ∀ x ∈ before, ∃ t fault, x = .token t fault ∧ t.kind ≠ .endOfFile

theorem scanFrom_complete (file : String) (fuel : Nat) (c : Cursor) (done : List Scan)
    (hshort : NoLongDigitRun c.rest)
    (hdone : ∀ x ∈ done, ∃ t fault, x = Scan.token t fault ∧ t.kind ≠ .endOfFile) :
    Scan.Complete (scanFrom file fuel c done) := by
  induction fuel generalizing c done with
  | zero => exact ⟨done.reverse, _, List.reverse_cons, by simpa using hdone⟩
  | succ fuel ih =>
    unfold scanFrom Cursor.step
    have hplace : c.skipTrivia.rest <:+ c.rest := skipTrivia_suffix _ _ _ _ _
    generalize c.skipTrivia = place at hplace ⊢
    dsimp only
    cases hrest : place.rest with
    | nil => exact ⟨done.reverse, _, List.reverse_cons, by simpa using hdone⟩
    | cons ch rest =>
      dsimp only
      obtain ⟨happend, hsane⟩ := Lexeme.longest_append ch rest
      generalize Lexeme.longest ch rest = found at happend hsane ⊢
      rw [hrest, ← happend] at hplace
      -- the lexeme is a part of the source, so its digits are none too many
      have hchars : NoLongDigitRun found.1.chars := fun run hrun =>
        hshort run (hrun.trans ((List.prefix_append _ _).isInfix.trans hplace.isInfix))
      obtain ⟨k, p, fault, hmeaning, hk⟩ := Lexeme.meaning_some hsane hchars
      simp only [hmeaning]
      refine ih _ _ (hshort.of_suffix ((List.suffix_append _ _).trans hplace)) ?_
      intro x hx
      rcases List.mem_cons.mp hx with rfl | hx
      · exact ⟨_, _, rfl, hk⟩
      · exact hdone x hx

/-- Without a digit run that is too long a source is scanned to its end. -/
theorem scan_complete {source : List Char} (file : String) (h : NoLongDigitRun source) :
    Scan.Complete (scan source file) :=
  scanFrom_complete file _ _ [] h (by simp)

section

variable {P : Token → Option Problem → Prop} (hend : ∀ l, P (.endOfFile l) none)
  (hmeaning : ∀ ch rest k p fault l,
    (Lexeme.longest ch rest).1.meaning = some (k, p, fault) → P ⟨k, l, p⟩ fault)
include hend hmeaning

theorem scanFrom_forall (file : String) (fuel : Nat) (c : Cursor) {done : List Scan}
    (hdone : ∀ t fault, Scan.token t fault ∈ done → P t fault) :
    ∀ t fault, Scan.token t fault ∈ scanFrom file fuel c done → P t fault := by
  have hended : ∀ l (scans : List Scan), (∀ t fault, Scan.token t fault ∈ scans → P t fault) →
      ∀ t fault, Scan.token t fault ∈ (.token (.endOfFile l) none :: scans).reverse →
        P t fault := by
    intro l scans hscans t fault ht
    rcases List.mem_cons.mp (List.mem_reverse.mp ht) with h | h
    · cases h
      exact hend l
    · exact hscans t fault h
  induction fuel generalizing c done with
  | zero => exact hended _ _ hdone
  | succ fuel ih =>
    simp only [scanFrom, Cursor.step]
    cases c.skipTrivia.rest with
    | nil => exact hended _ _ hdone
    | cons ch rest =>
      dsimp only
      split
      · intro t fault ht
        rcases List.mem_cons.mp (List.mem_reverse.mp ht) with h | h
        · cases h
        · exact hdone t fault h
      · rename_i hfound
        apply ih
        intro t fault ht
        rcases List.mem_cons.mp ht with h | h
        · cases h
          exact hmeaning _ _ _ _ _ _ hfound
        · exact hdone t fault h

/-- What holds of the token that ends the input, and of every token and fault that a lexeme
    of the scanner means, holds of every scan of a source. -/
theorem scan_forall (source : List Char) (file : String) :
    ∀ t fault, Scan.token t fault ∈ scan source file → P t fault :=
  scanFrom_forall hend hmeaning file _ _ fun _ _ h => absurd h List.not_mem_nil

end

/-! ### Streams of complete scans -/

theorem Scan.Complete.endsLast {scans : List Scan} (h : Scan.Complete scans) :
    Scan.EndsLast scans := by
  obtain ⟨before, place, rfl, htokens⟩ := h
  induction before with
  | nil => exact ⟨fun _ => rfl, trivial⟩
  | cons x before ih =>
    obtain ⟨t, fault, rfl, hk⟩ := htokens x List.mem_cons_self
    exact ⟨fun hend => absurd hend hk,
      ih fun y hy => htokens y (List.mem_cons_of_mem _ hy)⟩

theorem Scan.Complete.not_overlong {scans : List Scan} (h : Scan.Complete scans) (n : Nat) :
    Scan.overlong n ∉ scans := by
  obtain ⟨before, place, rfl, htokens⟩ := h
  intro hn
  rcases List.mem_append.mp hn with hn | hn
  · obtain ⟨t, fault, heq, _⟩ := htokens _ hn
    exact absurd heq (by simp)
  · exact absurd hn (by simp)

/-- A stream of complete scans stands at its first token. -/
theorem Stream.start_complete {scans : List Scan} (h : Scan.Complete scans) (j : Journal) :
    ∃ s, Stream.start scans j = .ok s ∧ s.Clear ∧ s.EndsLast ∧ s.rules = [] := by
  have hends := h.endsLast
  have hclear := h.not_overlong
  cases scans with
  | nil =>
    obtain ⟨before, place, heq, _⟩ := h
    exact absurd heq (by simp)
  | cons x rest =>
    cases x with
    | overlong n => exact absurd List.mem_cons_self (hclear n)
    | token t fault =>
      exact ⟨_, rfl, fun n hn => hclear n (List.mem_cons_of_mem _ hn), hends, rfl⟩

end PlZero
