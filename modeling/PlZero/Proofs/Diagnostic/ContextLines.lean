/-
  PlZero/Proofs/Diagnostic/ContextLines.lean
  ==========================================
  **Which line a listing shows.**  Two notions of a line meet in a listing.  The scanner
  counts line feeds, so the line of a token is the text between two of them
  (`Text.sourceLine`).  The listing takes its context from the display lines of the source,
  which end at many more characters.  The two agree on every line number exactly when
  every line end of the source is a line feed, or a carriage return before one or at the end
  of the text (`Text.FeedEnded`); then a listing shows under each number the line that its
  tokens stand in.  One form feed, which the scanner takes for a blank, is enough to shift
  all context behind it (`context_shifted`).
-/
import PlZero.Proofs.Compilation.Options
import PlZero.Proofs.Token.Spelling

namespace PlZero

namespace Text

/-! ### Lines between line feeds -/

/-- The text behind the `n`-th line feed, which is empty if there are fewer of them. -/
def behindFeeds : Nat → List Char → List Char
  | 0, cs => cs
  | _ + 1, [] => []
  | n + 1, c :: cs => if c = '\n' then behindFeeds n cs else behindFeeds (n + 1) cs

/-- The text up to the next line feed. -/
def upToFeed (cs : List Char) : List Char := cs.takeWhile fun c => c != '\n'

/-- A line without the carriage return that may end it. -/
def withoutReturn (cs : List Char) : List Char :=
  if cs.getLast? = some '\r' then cs.dropLast else cs

/-- What stands between the `n`-th line feed and the next. -/
def lineBehind (n : Nat) (cs : List Char) : List Char := withoutReturn (upToFeed (behindFeeds n cs))

/-- A line of a source as its tokens are counted: the text between two line feeds, without
    a carriage return at its end. -/
def sourceLine (source : String) (line : Int) : String :=
  if 0 < line then String.ofList (lineBehind (line - 1).toNat source.toList) else ""

/-- Every line end of a text is a line feed, or a carriage return right before one or at the
    end of the text. -/
def FeedEnded (cs : List Char) : Prop :=
  ∀ before c behind, cs = before ++ c :: behind → endsLine c = true → c ≠ '\n' →
    c = '\r' ∧ LineEnds behind

theorem endsLine_feed : endsLine '\n' = true := by decide

theorem endsLine_return : endsLine '\r' = true := by decide

@[simp] theorem upToFeed_nil : upToFeed [] = [] := rfl

@[simp] theorem behindFeeds_zero (cs : List Char) : behindFeeds 0 cs = cs := by
  cases cs with
  | nil => rfl
  | cons c cs => rfl

@[simp] theorem behindFeeds_nil (n : Nat) : behindFeeds n [] = [] := by
  cases n with
  | zero => rfl
  | succ n => rfl

@[simp] theorem behindFeeds_feed (n : Nat) (cs : List Char) :
    behindFeeds (n + 1) ('\n' :: cs) = behindFeeds n cs := by
  simp [behindFeeds]

/-- A text without a line feed stands in one line. -/
theorem behindFeeds_append {xs : List Char} (h : '\n' ∉ xs) (n : Nat) (cs : List Char) :
    behindFeeds (n + 1) (xs ++ cs) = behindFeeds (n + 1) cs := by
  induction xs with
  | nil => rfl
  | cons x xs ih =>
    have hx : x ≠ '\n' := fun heq => h (heq ▸ List.mem_cons_self)
    have hxs : '\n' ∉ xs := fun hmem => h (List.mem_cons_of_mem _ hmem)
    rw [List.cons_append, behindFeeds, if_neg hx]
    exact ih hxs

theorem upToFeed_append {xs : List Char} (h : '\n' ∉ xs) (cs : List Char) :
    upToFeed (xs ++ cs) = xs ++ upToFeed cs := by
  have hall : ∀ x ∈ xs, (x != '\n') = true := by
    intro x hx
    simp only [bne_iff_ne, ne_eq]
    rintro rfl
    exact h hx
  exact List.takeWhile_append_of_pos hall

@[simp] theorem upToFeed_feed (cs : List Char) : upToFeed ('\n' :: cs) = [] := rfl

theorem feed_notMem_upToFeed (cs : List Char) : '\n' ∉ upToFeed cs := by
  intro hmem
  have hchar := List.mem_takeWhile_imp hmem
  simp at hchar

theorem upToFeed_eq_nil {cs : List Char} : upToFeed cs = [] ↔ LineEnds cs := by
  cases cs with
  | nil => simp [LineEnds]
  | cons c cs =>
    by_cases hc : c = '\n'
    · subst hc
      simp [LineEnds]
    · simp [upToFeed, LineEnds, hc]

theorem withoutReturn_of_clean {cs : List Char} (h : ∀ c ∈ cs, endsLine c = false) :
    withoutReturn cs = cs := by
  unfold withoutReturn
  rw [if_neg]
  intro hlast
  have hmem := h '\r' (List.mem_of_getLast? hlast)
  rw [endsLine_return] at hmem
  cases hmem

theorem withoutReturn_concat (cs : List Char) (c : Char) :
    withoutReturn (cs ++ [c]) = if c = '\r' then cs else cs ++ [c] := by
  simp [withoutReturn]

/-! ### Places and lines -/

/-- Behind as many line feeds as a text has begins its last line. -/
theorem behindFeeds_count (before cs : List Char) :
    behindFeeds (before.count '\n') (before ++ cs) =
      (upToFeed before.reverse).reverse ++ cs := by
  induction before with
  | nil => simp
  | cons b before ih =>
    by_cases hmem : '\n' ∈ before
    · -- the last line does not reach the first character
      have hstop : upToFeed (b :: before).reverse = upToFeed before.reverse := by
        unfold upToFeed
        rw [List.reverse_cons, List.takeWhile_append, if_neg]
        intro hlength
        have hwhole := (List.takeWhile_prefix _).eq_of_length hlength
        have hclean := List.takeWhile_eq_self_iff.mp hwhole '\n' (by simpa using hmem)
        simp at hclean
      rw [hstop, ← ih]
      obtain ⟨n, hn⟩ : ∃ n, before.count '\n' = n + 1 :=
        Nat.exists_eq_succ_of_ne_zero (List.count_pos_iff.mpr hmem).ne'
      by_cases hb : b = '\n'
      · subst hb
        simp
      · rw [List.count_cons_of_ne hb, hn, List.cons_append, behindFeeds, if_neg hb]
    · by_cases hb : b = '\n'
      · subst hb
        have hcount : before.count '\n' = 0 := List.count_eq_zero.mpr hmem
        have hline : upToFeed (before.reverse ++ ['\n']) = before.reverse := by
          rw [upToFeed_append (by simpa using hmem)]
          simp
        simp [hcount, hline]
      · have hfree : '\n' ∉ (b :: before).reverse := by simp [hmem, Ne.symm hb]
        have hcount : (b :: before).count '\n' = 0 :=
          List.count_eq_zero.mpr (by simpa [and_comm] using hfree)
        have hline := upToFeed_append hfree []
        rw [List.append_nil] at hline
        rw [hcount, hline]
        simp

/-- What a line begins with stays when a carriage return is dropped from its end. -/
theorem prefix_withoutReturn {x : List Char} (hne : x ≠ []) (hx : '\r' ∉ x)
    (start ys : List Char) : ∃ zs, x <+: zs ∧ withoutReturn (start ++ (x ++ ys)) = start ++ zs := by
  cases ys using List.reverseRec with
  | nil =>
    refine ⟨x, List.prefix_refl x, ?_⟩
    unfold withoutReturn
    rw [List.append_nil, if_neg]
    intro hlast
    rw [List.getLast?_append_of_ne_nil _ hne] at hlast
    exact hx (List.mem_of_getLast? hlast)
  | append_singleton ys y =>
    rw [← List.append_assoc, ← List.append_assoc, withoutReturn_concat]
    by_cases hy : y = '\r'
    · refine ⟨x ++ ys, List.prefix_append x ys, ?_⟩
      rw [if_pos hy, List.append_assoc]
    · refine ⟨x ++ (ys ++ [y]), List.prefix_append x _, ?_⟩
      simp [hy]

/-- A lexeme begins what its line holds from its column on. -/
theorem prefix_of_line (before rest : List Char) {x : List Char} (hne : x ≠ [])
    (hfeed : '\n' ∉ x) (hreturn : '\r' ∉ x) :
    x <+: (lineBehind ((placeAfter before).1 - 1) (before ++ (x ++ rest))).drop
      ((placeAfter before).2 - 1) := by
  have hline : (placeAfter before).1 - 1 = before.count '\n' := by simp [placeAfter]
  have hcolumn : (placeAfter before).2 - 1 = (upToFeed before.reverse).reverse.length := by
    simp [placeAfter, upToFeed]
  have hstart : '\n' ∉ (upToFeed before.reverse).reverse := by
    rw [List.mem_reverse]
    exact feed_notMem_upToFeed _
  obtain ⟨zs, hprefix, hzs⟩ :=
    prefix_withoutReturn hne hreturn (upToFeed before.reverse).reverse (upToFeed rest)
  rw [hline, hcolumn, lineBehind, behindFeeds_count, upToFeed_append hstart,
    upToFeed_append hfeed, hzs, List.drop_left]
  exact hprefix

/-! ### Display lines -/

/-- Lines that were found before are the first. -/
theorem linesAfter_append (held : List Char) (found extra : List String) (cs : List Char) :
    linesAfter held (found ++ extra) cs = extra.reverse ++ linesAfter held found cs := by
  fun_induction linesAfter held found cs with
  | case1 held found =>
    by_cases hheld : held.isEmpty = true
    · simp [linesAfter, hheld]
    · simp [linesAfter, hheld]
  | case2 held found rest ih =>
    rw [linesAfter]
    exact ih
  | case3 held found c rest hpair hc ih =>
    rw [linesAfter, if_pos hc]
    · exact ih
    · exact hpair
  | case4 held found c rest hpair hc ih =>
    rw [linesAfter, if_neg hc]
    · exact ih
    · exact hpair

/-- No line holds a character that ends one. -/
theorem clean_of_mem_linesAfter (held : List Char) (hheld : ∀ c ∈ held, endsLine c = false)
    {cs : List Char} : ∀ line ∈ linesAfter held [] cs, ∀ c ∈ line.toList, endsLine c = false := by
  have hdone : ∀ {held : List Char}, (∀ c ∈ held, endsLine c = false) →
      ∀ c ∈ (String.ofList held.reverse).toList, endsLine c = false := by
    intro held hheld c hc
    exact hheld c (by simpa using hc)
  have hfound : ∀ line ∈ ([] : List String), ∀ c ∈ line.toList, endsLine c = false := by simp
  generalize ([] : List String) = found at hfound ⊢
  fun_induction linesAfter held found cs with
  | case1 held found =>
    intro line hline
    rw [List.mem_reverse] at hline
    split at hline
    · exact hfound line hline
    · rcases List.mem_cons.mp hline with rfl | hline
      · exact hdone hheld
      · exact hfound line hline
  | case2 held found rest ih =>
    apply ih (by simp)
    intro line hline
    rcases List.mem_cons.mp hline with rfl | hline
    · exact hdone hheld
    · exact hfound line hline
  | case3 held found c rest hpair hc ih =>
    apply ih (by simp)
    intro line hline
    rcases List.mem_cons.mp hline with rfl | hline
    · exact hdone hheld
    · exact hfound line hline
  | case4 held found c rest hpair hc ih =>
    apply ih
    · intro d hd
      rcases List.mem_cons.mp hd with rfl | hd
      · simpa using hc
      · exact hheld d hd
    · exact hfound

theorem FeedEnded.tail {c : Char} {cs : List Char} (h : FeedEnded (c :: cs)) : FeedEnded cs := by
  intro before d behind heq
  exact h (c :: before) d behind (by rw [heq, List.cons_append])

theorem feed_notMem {xs : List Char} (h : ∀ c ∈ xs, endsLine c = false) : '\n' ∉ xs := by
  intro hmem
  have hfeed := h '\n' hmem
  rw [endsLine_feed] at hfeed
  cases hfeed

/-- A line feed ends the line before it and begins the count anew. -/
theorem lineBehind_feed {xs : List Char} (h : '\n' ∉ xs) (n : Nat) (cs : List Char) :
    lineBehind n (xs ++ '\n' :: cs) =
      if n = 0 then withoutReturn xs else lineBehind (n - 1) cs := by
  unfold lineBehind
  cases n with
  | zero =>
    rw [behindFeeds_zero, upToFeed_append h]
    simp
  | succ n =>
    rw [behindFeeds_append h]
    simp

/-- The last line of a text. -/
theorem lineBehind_last {xs : List Char} (h : '\n' ∉ xs) (n : Nat) :
    lineBehind n xs = if n = 0 then withoutReturn xs else [] := by
  unfold lineBehind
  have hline := upToFeed_append h []
  have hbehind := fun n => behindFeeds_append h n []
  rw [List.append_nil] at hline
  simp only [List.append_nil] at hbehind
  cases n with
  | zero => simp [hline]
  | succ n => simp [hbehind, withoutReturn]

/-- A finished line stands behind those found before it, and the others behind it. -/
theorem linesAfter_found (found : List String) (line : String) (cs : List Char) (n : Nat) :
    (linesAfter [] (line :: found) cs)[found.length + n]?.getD "" =
      if n = 0 then line
      else (linesAfter [] (line :: found) cs)[(line :: found).length + (n - 1)]?.getD "" := by
  cases n with
  | zero =>
    have hfirst := linesAfter_append [] [] (line :: found) cs
    rw [List.nil_append] at hfirst
    simp [hfirst]
  | succ n =>
    rw [if_neg (Nat.succ_ne_zero n), List.length_cons, Nat.add_sub_cancel]
    congr 2
    omega

/-- Where line feeds end the lines of a text, its display lines are the lines between them.
    `held` is the part of the present line that was seen already. -/
theorem linesAfter_getElem (held : List Char) (found : List String) {cs : List Char}
    (hheld : ∀ c ∈ held, endsLine c = false) (hcs : FeedEnded cs) (n : Nat) :
    (linesAfter held found cs)[found.length + n]?.getD "" =
      String.ofList (lineBehind n (held.reverse ++ cs)) := by
  have hclean : ∀ {held : List Char}, (∀ c ∈ held, endsLine c = false) →
      ∀ c ∈ held.reverse, endsLine c = false := by
    intro held hheld c hc
    exact hheld c (List.mem_reverse.mp hc)
  -- a finished line is the one counted zero, whether or not a carriage return ends it
  fun_induction linesAfter held found cs generalizing n with
  | case1 held found =>
    rw [List.append_nil, lineBehind_last (feed_notMem (hclean hheld)),
      withoutReturn_of_clean (hclean hheld)]
    cases held with
    | nil => cases n <;> simp
    | cons c held => cases n <;> simp
  | case2 held found rest ih =>
    have hfree : '\n' ∉ held.reverse ++ ['\r'] := by
      simpa using feed_notMem (hclean hheld)
    have hcut : held.reverse ++ '\r' :: '\n' :: rest =
        (held.reverse ++ ['\r']) ++ '\n' :: rest := by
      simp
    rw [linesAfter_found, ih (by simp) hcs.tail.tail, hcut, lineBehind_feed hfree,
      withoutReturn_concat, if_pos rfl]
    split
    · rfl
    · rfl
  | case3 held found c rest hpair hc ih =>
    rw [linesAfter_found, ih (by simp) hcs.tail]
    by_cases hfeed : c = '\n'
    · subst hfeed
      rw [lineBehind_feed (feed_notMem (hclean hheld)), withoutReturn_of_clean (hclean hheld)]
      split
      · rfl
      · rfl
    · -- a carriage return that ends a line by itself ends the text
      obtain ⟨rfl, hends⟩ := hcs [] c rest rfl hc hfeed
      have hrest : rest = [] := by
        cases rest with
        | nil => rfl
        | cons d rest =>
          obtain rfl := hends d rfl
          exact absurd rfl (hpair rest rfl)
      subst hrest
      have hfree : '\n' ∉ held.reverse ++ ['\r'] := by
        simpa using feed_notMem (hclean hheld)
      rw [lineBehind_last hfree, withoutReturn_concat, if_pos rfl]
      split
      · rfl
      · simp [lineBehind, withoutReturn]
  | case4 held found c rest hpair hc ih =>
    have hheld' : ∀ d ∈ c :: held, endsLine d = false := by
      intro d hd
      rcases List.mem_cons.mp hd with rfl | hd
      · simpa using hc
      · exact hheld d hd
    rw [ih hheld' hcs.tail]
    simp

theorem dropLineEnd_of_clean {line : String} (h : ∀ c ∈ line.toList, endsLine c = false) :
    dropLineEnd line = line := by
  have hkeep : (line.toList.reverse.dropWhile fun c => c == '\n' || c == '\r') =
      line.toList.reverse := by
    rw [List.dropWhile_eq_self_iff]
    intro hlength hchar
    have hclean := h (line.toList.reverse[0]) (by simp)
    rcases Bool.or_eq_true_iff.mp hchar with hc | hc
    · rw [beq_iff_eq.mp hc, endsLine_feed] at hclean
      cases hclean
    · rw [beq_iff_eq.mp hc, endsLine_return] at hclean
      cases hclean
  unfold dropLineEnd
  rw [hkeep, List.reverse_reverse, String.ofList_toList]

end Text

open Text Listing Compilation

variable {maxDepth : Nat}

/-! ### Context lines -/

/-- The context of a line number is the display line that it counts. -/
theorem contextLine_lines (source : String) (line : Int) :
    contextLine (lines source).toArray line =
      if 0 < line then (lines source)[(line - 1).toNat]?.getD "" else "" := by
  unfold contextLine
  rw [List.getElem?_toArray]
  by_cases hline : 0 < line
  · rw [if_pos hline, if_pos hline]
    cases hget : (lines source)[(line - 1).toNat]? with
    | none => rfl
    | some text =>
      have hclean := clean_of_mem_linesAfter [] (by simp) text
        (List.mem_of_getElem? hget)
      exact dropLineEnd_of_clean hclean
  · rw [if_neg hline, if_neg hline]

theorem contextLine_clean (source : String) (line : Int) :
    ∀ c ∈ (contextLine (lines source).toArray line).toList, endsLine c = false := by
  rw [contextLine_lines]
  split
  · cases hget : (lines source)[(line - 1).toNat]? with
    | none => simp
    | some text =>
      exact clean_of_mem_linesAfter [] (by simp) text (List.mem_of_getElem? hget)
  · simp

/-- The context of every line number is the line that tokens are counted in exactly when
    line feeds end the lines of the source. -/
theorem contextLine_eq_iff (source : String) :
    (∀ line, contextLine (lines source).toArray line = sourceLine source line) ↔
      FeedEnded source.toList := by
  constructor
  · intro h before c behind heq hc hne
    -- the line of the character holds it, and its context holds no line end
    have hline := h (before.count '\n' + 1)
    have hpositive : (0 : Int) < before.count '\n' + 1 := by omega
    have hcount : ((before.count '\n' : Int) + 1 - 1).toNat = before.count '\n' := by omega
    have hclean := contextLine_clean source (before.count '\n' + 1)
    have hupTo : upToFeed (c :: behind) = c :: upToFeed behind := by simp [upToFeed, hne]
    have hstart : '\n' ∉ (upToFeed before.reverse).reverse := by
      rw [List.mem_reverse]
      exact feed_notMem_upToFeed _
    rw [hline, sourceLine, if_pos hpositive, hcount, heq, lineBehind, behindFeeds_count,
      upToFeed_append hstart, hupTo, String.toList_ofList] at hclean
    have hgone : ∀ xs, c ∈ xs → xs ≠ withoutReturn
        ((upToFeed before.reverse).reverse ++ c :: upToFeed behind) := by
      rintro xs hmem rfl
      rw [hclean c hmem] at hc
      cases hc
    rw [← upToFeed_eq_nil]
    generalize upToFeed behind = ys at hgone ⊢
    cases ys using List.reverseRec with
    | nil =>
      rw [withoutReturn_concat] at hgone
      split at hgone
      · next hreturn => exact ⟨hreturn, rfl⟩
      · exact absurd rfl (hgone _ (by simp))
    | append_singleton ys y =>
      rw [← List.cons_append, ← List.append_assoc, withoutReturn_concat] at hgone
      split at hgone
      · exact absurd rfl (hgone _ (by simp))
      · exact absurd rfl (hgone _ (by simp))
  · intro h line
    rw [contextLine_lines, sourceLine]
    split
    · have hline := linesAfter_getElem [] [] (by simp) h (line - 1).toNat
      simpa [lines] using hline
    · rfl

/-! ### Listings -/

namespace Listing

/-- The lines of a sorted listing that shows the context `text line` for each line number. -/
def listedFrom (text : Int → String) (shown : Option Int) : List Diagnostic → List String
  | [] => []
  | d :: rest =>
    if d.location.isKnown then
      if shown = some d.location.line then entry d :: listedFrom text shown rest
      else (alignRight numberWidth (toString d.location.line) ++ " " ++ text d.location.line) ::
        entry d :: listedFrom text (some d.location.line) rest
    else entry d :: listedFrom text shown rest

/-- A listing with a context of one's own choice. -/
def listed (text : Int → String) (ds : List Diagnostic) : String :=
  "\n".intercalate (listedFrom text none (sorted ds))

theorem linesFrom_eq (source : Array String) (shown : Option Int) (ds : List Diagnostic) :
    linesFrom source shown ds = listedFrom (contextLine source) shown ds := by
  induction ds generalizing shown with
  | nil => rfl
  | cons d ds ih => simp only [linesFrom, listedFrom, header, ih]

/-- The lines of a source reach its listing as context lines and in no other way. -/
theorem render_eq_listed (source : Array String) (ds : List Diagnostic) :
    render source ds = listed (contextLine source) ds := by
  rw [render, listed, linesFrom_eq]

end Listing

/-- The context lines of a collector are those that it was set up with. -/
theorem Collector.absorbAll_source (c : Collector) (j : Journal) :
    (c.absorbAll j).1.source = c.source := by
  induction j with
  | nil => rfl
  | cons e j ih =>
    rw [absorbAll_cons, ← ih]
    cases e with
    | report d =>
      obtain ⟨severity, problem, location⟩ := d
      cases severity with
      | error => rfl
      | fatal => rfl
    | trace depth action =>
      by_cases htracing : (c.absorbAll j).1.tracing = true
      · simp [absorb, trace, htracing, writeLine]
      · simp [absorb, trace, htracing]
    | note n => rfl

/-! ### Tokens in their lines -/

/-- A blank behind trivia is trivia as well. -/
theorem Trivia.concat_blank {w rest : List Char} {c : Char} (h : Trivia w (c :: rest))
    (hc : c ∈ blankChars) : Trivia (w ++ [c]) rest := by
  generalize hbehind : c :: rest = behind at h
  induction h with
  | none => exact .blank hc .none
  | blank hd _ ih => exact .blank hd (ih hbehind)
  | comment hbody hend _ ih =>
    subst hbehind
    rw [List.cons_append, List.cons_append, List.append_assoc]
    refine .comment hbody ?_ (ih rfl)
    simpa using hend

/-- What is munched behind the longest trivia is free of blanks. -/
theorem Munched.not_blank {w x rest : List Char} (h : Munched x rest)
    (hw : LongestTrivia w (x ++ rest)) : ∀ c ∈ x, c ∉ blankChars := by
  rcases h with ⟨hx, -⟩ | ⟨⟨c, rfl⟩, -⟩
  · exact hx.not_blank
  · intro d hd hblank
    obtain rfl := List.mem_singleton.mp hd
    have hlonger := hw.longest (w ++ [d]) rest (by simp)
      (Trivia.concat_blank hw.trivia hblank)
    simp at hlonger

/-- The token of a piece stands where its line and its column say. -/
theorem Cut.token_in_line {file : String} {before last : List Char} {pieces : List Piece}
    (h : Cut file before pieces last) : ∀ x ∈ pieces, ∃ place rest,
      before ++ textOf pieces last = place ++ (x.lexeme ++ rest) ∧
      x.token.location = placeIn file place ∧ Denotes x.lexeme x.token.kind x.token.payload ∧
      x.lexeme ≠ [] ∧ ∀ c ∈ x.lexeme, c ∉ blankChars := by
  induction pieces generalizing before with
  | nil => simp
  | cons x pieces ih =>
    obtain ⟨hlongest, hmunched, hdenotes, hlocation, hrest⟩ := h
    intro y hy
    rcases List.mem_cons.mp hy with rfl | hy
    · refine ⟨before ++ y.trivia, textOf pieces last, ?_, hlocation, hdenotes, hmunched.ne_nil,
        hmunched.not_blank hlongest⟩
      simp [Piece.text]
    · obtain ⟨place, rest, htext, hy⟩ := ih hrest y hy
      refine ⟨place, rest, ?_, hy⟩
      rw [textOf_cons, ← List.append_assoc]
      exact htext

/-- A token of a source is what its line holds from its column on. -/
theorem scan_in_line {source file : String}
    (hclear : ∀ n, Scan.overlong n ∉ scan source.toList file)
    {t : Token} {fault : Option Problem} (ht : Scan.token t fault ∈ scan source.toList file)
    (hend : t.kind ≠ .endOfFile) :
    ∃ x, Denotes x t.kind t.payload ∧ x ≠ [] ∧
      x <+: (sourceLine source t.location.line).toList.drop (t.location.column - 1).toNat := by
  obtain ⟨pieces, last, htext, hcut, hscan⟩ := scan_cut hclear
  rw [hscan] at ht
  rcases List.mem_append.mp ht with ht | ht
  · obtain ⟨x, hx, heq⟩ := List.mem_map.mp ht
    obtain ⟨rfl, -⟩ := Scan.token.inj heq
    obtain ⟨place, rest, hsource, hlocation, hdenotes, hne, hblank⟩ := hcut.token_in_line x hx
    refine ⟨x.lexeme, hdenotes, hne, ?_⟩
    have hfeed : '\n' ∉ x.lexeme := fun hmem => hblank _ hmem (by decide)
    have hreturn : '\r' ∉ x.lexeme := fun hmem => hblank _ hmem (by decide)
    have hprefix := prefix_of_line place rest hne hfeed hreturn
    rw [List.nil_append, ← htext] at hsource
    rw [← hsource] at hprefix
    have hpositive : (0 : Int) < (placeAfter place).1 := by
      simp only [placeAfter]
      omega
    rw [hlocation]
    dsimp only [placeIn]
    rw [sourceLine, if_pos hpositive, String.toList_ofList]
    have hline : (((placeAfter place).1 : Int) - 1).toNat = (placeAfter place).1 - 1 := by omega
    have hcolumn : (((placeAfter place).2 : Int) - 1).toNat = (placeAfter place).2 - 1 := by omega
    rw [hline, hcolumn]
    exact hprefix
  · obtain ⟨rfl, -⟩ := Scan.token.inj (List.mem_singleton.mp ht)
    exact absurd rfl hend

/-! ### Which line a listing shows -/

/-- The context of every line number is the line that the scanner counts, exactly for a source
    whose lines end in line feeds, or in carriage returns before them or at its end.  Then the
    listing that is written, and the one that a collector renders, shows those lines.  And in
    those lines every token begins at its column, whatever the source is. -/
theorem listing_in_lines (source file : String) :
    ((∀ line, contextLine (lines source).toArray line = sourceLine source line) ↔
      FeedEnded source.toList) ∧
    (FeedEnded source.toList →
      (∀ options r, (compileSource maxDepth options source file).outcome = .ok r →
        ∃ before, (compileSource maxDepth options source file).output = before ++
          (if r.diagnostics.isEmpty then "" else listed (sourceLine source) r.diagnostics ++ "\n") ++
          summary r.errorCount ++ "\n") ∧
      (∀ parsed collector, parseSource maxDepth source file = .ok (parsed, collector) →
        collector.render = listed (sourceLine source) collector.retained.toList)) ∧
    ((∀ n, Scan.overlong n ∉ scan source.toList file) →
      ∀ t fault, Scan.token t fault ∈ scan source.toList file → t.kind ≠ .endOfFile →
        ∃ x, Denotes x t.kind t.payload ∧ x ≠ [] ∧
          x <+: (sourceLine source t.location.line).toList.drop
            (t.location.column - 1).toNat) := by
  refine ⟨contextLine_eq_iff source, ?_, fun hclear t fault ht => scan_in_line hclear ht⟩
  intro hfeeds
  have hcontext : contextLine (lines source).toArray = sourceLine source :=
    funext ((contextLine_eq_iff source).mpr hfeeds)
  constructor
  · intro options r hr
    obtain ⟨hover, p, hp⟩ := reading_of_outcome hr
    obtain ⟨tree, htree⟩ := p.program.outline_ok p.symbols.describeScope
    have hrun := (compileSource_of_reading hover hp options).trans
      (conclude_eq options source file (lexed source file).1.length htree
        (reading_severity hover hp))
    rw [hrun] at hr ⊢
    obtain rfl := Except.ok.inj hr
    refine ⟨(if options.trace then p.journal.traceText else "") ++
      (if options.printTree then tree ++ "\n" else ""), ?_⟩
    rw [← hcontext, ← render_eq_listed]
    rfl
  · intro parsed collector hparse
    have hsource : collector.source = (lines source).toArray := by
      unfold parseSource at hparse
      cases hp : Grammar.parse maxDepth (scan source.toList file) [] with
      | error e =>
        simp only [hp] at hparse
        cases hparse
      | ok p =>
        simp only [hp] at hparse
        cases hparse
        exact Collector.absorbAll_source _ _
    rw [Collector.render, hsource, render_eq_listed, hcontext]

/-- A form feed on a line of its own ends a display line and no line of tokens.  The mistake
    at the beginning of the fifth line is shown under the text of the fourth. -/
theorem context_shifted :
    let source := "var x: integer;\n\x0c\nbegin\n  x :=\nend\n"
    (compileSource 1000 {} source "a.pl0").output =
        "     5   x :=\n****** ^ Error: Condition cannot start with end\n1 error detected.\n" ∧
      sourceLine source 5 = "end" ∧ contextLine (lines source).toArray 5 = "  x :=" := by
  decide +kernel

end PlZero
