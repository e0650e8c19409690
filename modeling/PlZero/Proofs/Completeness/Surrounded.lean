/-
  PlZero/Proofs/Completeness/Surrounded.lean
  ==========================================
  **Tokens around a program.**  What stands before a program and cannot start one is skipped
  with one error, and what stands behind its last `end` is skipped with one error, whatever it
  is: the compound statement of the program is left at the end of the input only, and every
  rule around it finds that end.  So the tree and the table are those of the program alone
  (`parse_surrounded`).
-/
import PlZero.Proofs.Completeness.Outcome

namespace PlZero

/-- What is reported where tokens stand before the start of a rule. -/
def Rule.unstarted (r : Rule) (us : List Token) : List Diagnostic :=
  us.head?.toList.map fun u => ⟨.error, .cannotStart r.title u, u.location⟩

/-- What is reported where tokens stand between the end of a rule and the end of the input. -/
def Rule.unfollowed (r : Rule) (us : List Token) : List Diagnostic :=
  us.head?.toList.map fun u => ⟨.error, .cannotFollow u r.title, u.location⟩

variable {E : Abort → Stream → Prop} {n : Nat} {T U : SymbolTable} {ts us after : List Token}
  {ds : List Diagnostic} {r : Rule} {recover : KindSet}

/-! ### Rules with tokens before or behind them -/

namespace ReaderState

variable {s : ReaderState}

/-- A rule that may be left at the end of the input only is left there, behind all tokens. -/
theorem Before.left (h : s.Before n T us) (hrule : s.stream.rules.head? = some r.title) :
    ∃ w, Stream.endRule r.title {.endOfFile} s.stream = .ok () w ∧
      (s.withStream w).Before n T [] ∧
      w.reports = (r.unfollowed us).reverse ++ s.stream.reports ∧
      w.rules = s.stream.rules.tail := by
  have hclosed : (s.withStream (s.stream.closed r.title)).Before n T us :=
    ⟨h.clear, h.faultless, h.nesting, h.symbols, h.ahead⟩
  cases us with
  | nil =>
    obtain ⟨w, hw, hended⟩ := Stream.endRule_ended {.endOfFile} h.clear hrule
    obtain rfl := hended.of_follow (h.head_kind ▸ KindSet.mem_braces.mpr rfl)
    exact ⟨_, hw, hclosed, rfl, rfl⟩
  | cons u us =>
    have hout : ∀ v ∈ u :: us, v.kind ∉ ({.endOfFile} : KindSet) := fun v hv hend =>
      Scan.kind_of_mem_upcoming (h.ahead ▸ hv : v ∈ s.stream.ahead) (KindSet.mem_braces.mp hend)
    have hahead : s.stream.ahead = (u :: us) ++ [] := h.ahead.trans (List.append_nil _).symm
    have hbefore := hclosed.reported (.cannotFollow s.stream.head r.title) s.stream.head.location
    rw [← List.append_nil (u :: us)] at hbefore
    obtain ⟨hpast, hsince⟩ := hbefore.past
    refine ⟨_, Stream.endRule_past h.clear hahead hrule ?_ hout (by simp), hpast, ?_, ?_⟩
    · rw [h.head]
      exact hout u List.mem_cons_self
    · rw [h.head] at hsince ⊢
      exact hsince.reports
    · exact hsince.rules

end ReaderState

namespace Reader

variable {α : Type} {a : α} {t : Token} {placeholder : Location → α} {body : Location → Reader α}

/-- A rule that may be left at the end of the input only, with tokens behind it. -/
theorem Yields.attempt_followed (hfirst : ts.head? = some t) (hstart : t.kind ∈ r.starts)
    (hbody : Yields E n T (body t.location) ts us a ds U) :
    Yields E n T (Reader.attempt r {.endOfFile} placeholder body) (ts ++ us) [] a
      (ds ++ r.unfollowed us) U := by
  intro s hs
  rw [List.append_nil] at hs
  obtain ⟨ts, rfl⟩ := List.head?_eq_some_iff.mp hfirst
  have hhead : s.stream.head = t := hs.head
  have hopened : (s.withStream (s.stream.opened r.title)).Before n T (t :: ts ++ us) :=
    ⟨hs.clear, hs.faultless, hs.nesting, hs.symbols, hs.ahead⟩
  refine .bind (.reads (.bind (.onStream (Stream.beginRule_here r.title _ (hhead ▸ hstart)) ?_)))
  rw [if_pos rfl, hhead]
  refine .bind ((hbody _ hopened).post ?_)
  rintro _ u ⟨rfl, hu, hsince⟩
  have hrules : u.stream.rules = r.title :: s.stream.rules := hsince.rules
  obtain ⟨w, hw, hbefore, hreports, htail⟩ := hu.left (by rw [hrules, List.head?_cons])
  refine .bind (.onStream hw (.pure ⟨rfl, hbefore, ?_, ?_⟩))
  · show w.reports = _
    rw [hreports, hsince.reports, List.reverse_append, List.append_assoc]
    rfl
  · show w.rules = _
    rw [htail, hrules, List.tail_cons]

/-- A rule with tokens before it that cannot start it and that its caller does not wait for. -/
theorem Yields.attempt_preceded (hus : ∀ u ∈ us, u.kind ∉ r.starts ∪ recover)
    (hfirst : ts.head? = some t) (hstart : t.kind ∈ r.starts) (hend : nextKind after ∈ recover)
    (hbody : ∀ l, Yields E n T (body l) ts after a ds U) :
    Yields E n T (Reader.attempt r recover placeholder body) (us ++ ts) after a
      (r.unstarted us ++ ds) U := by
  cases us with
  | nil => exact .attempt hfirst hstart hend (hbody _)
  | cons u us =>
    intro s hs
    rw [List.append_assoc] at hs
    have hhead : s.stream.head = u := hs.head
    have hout : s.stream.head.kind ∉ r.starts := fun h =>
      hus u List.mem_cons_self (KindSet.mem_union.mpr (.inl (hhead ▸ h)))
    have hnext : (ts ++ after).head? = some t := by
      rw [List.head?_append, hfirst, Option.some_or]
    obtain ⟨hpast, hsince⟩ :=
      (hs.reported (.cannotStart r.title s.stream.head) s.stream.head.location).past
    refine .bind (.reads (.bind (.onStream
      (Stream.beginRule_past hs.clear hs.ahead hout hus hnext hstart) ?_)))
    rw [if_pos rfl]
    refine .bind (((hbody _).inside hend hpast).post ?_)
    rintro b v ⟨hclear, hrule, hended⟩
    refine .bind (.endRule ⟨hclear, hrule, fun w hw => .pure ?_⟩)
    obtain ⟨rfl, hafter, hsince'⟩ := hended w hw
    refine ⟨rfl, hafter, ?_, hsince'.rules.trans hsince.rules⟩
    rw [hsince'.reports, hsince.reports, hhead, List.reverse_append, List.append_assoc]
    rfl

end Reader

namespace Grammar

open Reader

open PlZero.Derivation (outermost)

variable {maxDepth : Nat}

/-! ### Programs with tokens before or behind them -/

/-- The block of a program is left at the end of the input only. -/
theorem blockWithin_followed {c : Derivation.Block} (us : List Token) (hfresh : T.Holds [])
    (hn : c.nesting ≤ maxNesting) (hdepth : c.depth ≤ maxDepth ∨ AdmitsTooDeep E) :
    Yields E 0 T (blockWithin maxDepth T.current {.endOfFile}) (c.tokens ++ us) [] (c.tree T)
      (c.complaints ++ Rule.compoundStatement.unfollowed us) (c.table T) := by
  cases maxDepth with
  | zero =>
    have hpos := c.depth_pos
    rcases hdepth with hdepth | hdeep
    · omega
    · exact .tooDeep hdeep
  | succ k =>
    rw [← c.addUp.tokens, ← c.addUp.reports, ← c.treeIn_asDerived, ← c.tableIn_asDerived]
    have hread := parts_derived (E := E) hn
    obtain ⟨declarations, body⟩ := c
    obtain ⟨hfirst, hkind⟩ := body.rendered_begins (R := .asDerived)
    exact blockOver_yields_of (blockWithin_yields k) _ _ hfresh hread hdepth (by decide)
      (by decide) fun U _ hread hdepth =>
        .attempt_followed hfirst (KindSet.mem_braces.mpr hkind)
          (compoundBody_yields (statementWithin_yields k) body _ us hread hdepth)

theorem wholeProgram_surrounded {c : Derivation.Block} {us : List Token} (vs : List Token)
    (hus : ∀ u ∈ us, u.kind ∉ Starts.block ∪ {.endOfFile}) (hn : c.nesting ≤ maxNesting)
    (hdepth : c.depth ≤ maxDepth ∨ AdmitsTooDeep E) :
    ∃ V, (c.table outermost).leave = some V ∧
      Yields E 0 .initial (wholeProgram maxDepth) (us ++ (c.tokens ++ vs)) [] c.program
        (Rule.program.unstarted us ++
          (c.complaints ++ Rule.compoundStatement.unfollowed vs)) V := by
  obtain ⟨hfirst, hkind⟩ := c.begins
  obtain ⟨V, hleave, -, -⟩ := c.table_leave .initial SymbolTable.mainIndex
  have hhead : (c.tokens ++ vs).head? = some c.first := by
    rw [List.head?_append, hfirst, Option.some_or]
  have hblock : Yields E 0 outermost (blockWithin maxDepth outermost.current {.endOfFile})
      (c.tokens ++ vs) [] (c.tree outermost)
      (c.complaints ++ Rule.compoundStatement.unfollowed vs) (c.table outermost) :=
    blockWithin_followed vs (SymbolTable.enter_holds _ _) hn hdepth
  have hprogram : Yields E 0 .initial (program maxDepth {.endOfFile}) (us ++ (c.tokens ++ vs)) []
      c.program (Rule.program.unstarted us ++
        (c.complaints ++ Rule.compoundStatement.unfollowed vs)) V :=
    .map (.inScope (.attempt_preceded hus hhead hkind (by decide) fun _ => hblock) hleave)
  exact ⟨V, hleave, .still .note (.last hprogram (.glance fun _ => .still .note .pure))⟩

/-- Tokens before a program, of which none can start it, and tokens behind it are one error
    each: at the first of them.  The tree, the table and the other diagnostics are those of the
    program alone. -/
theorem parse_surrounded (maxDepth : Nat) (c : Derivation.Block) {us vs : List Token} {t : Token}
    (hn : c.nesting ≤ maxNesting) (ht : t.kind = .endOfFile)
    (hus : ∀ u ∈ us, u.kind ≠ .endOfFile ∧ u.kind ∉ Starts.block)
    (hvs : ∀ v ∈ vs, v.kind ≠ .endOfFile) :
    let read := fun tokens : List Token => parse maxDepth (tokens.map fun t => .token t none) []
    (∃ p q, read (c.tokens ++ [t]) = .ok p ∧ read (us ++ c.tokens ++ vs ++ [t]) = .ok q ∧
        q.program = p.program ∧ q.symbols = p.symbols ∧
        q.journal.diagnostics =
          (us.head?.toList.map fun u => ⟨.error, .cannotStart "Program" u, u.location⟩) ++
          p.journal.diagnostics ++
          (vs.head?.toList.map fun v =>
            ⟨.error, .cannotFollow v "Compound Statement", v.location⟩)) ∨
      (maxDepth < c.depth ∧ ((∃ j, read (c.tokens ++ [t]) = .error (.tooDeep, j)) ∨
        ∃ j, read (us ++ c.tokens ++ vs ++ [t]) = .error (.tooDeep, j))) := by
  intro read
  have hstarts : ∀ u ∈ us, u.kind ∉ Starts.block ∪ {.endOfFile} := by
    intro u hu hmem
    rcases KindSet.mem_union.mp hmem with h | h
    · exact (hus u hu).2 h
    · exact (hus u hu).1 (KindSet.mem_braces.mp h)
  have hbefore : Scan.beforeEnd (us ++ c.tokens ++ vs ++ [t]) = us ++ (c.tokens ++ vs) := by
    have hall : ∀ x ∈ us ++ c.tokens ++ vs, (x.kind != .endOfFile) = true := by
      intro x hx
      have hne : x.kind ≠ .endOfFile := by
        rcases List.mem_append.mp hx with hx | hx
        · rcases List.mem_append.mp hx with hx | hx
          · exact (hus x hx).1
          · exact fun hk => c.ordinary x hx (hk ▸ by decide)
        · exact hvs x hx
      simpa using hne
    rw [Scan.beforeEnd, List.takeWhile_append_of_pos hall, List.takeWhile_cons,
      if_neg (by simp [ht]), List.append_nil, List.append_assoc]
  obtain ⟨V, hleave, hyields⟩ := wholeProgram_surrounded vs hstarts hn (depth_or_admits c)
  rw [← hbefore] at hyields
  rcases parse_of_derived maxDepth hn (c.beforeEnd_tokens ht) with
    ⟨p, hp, hprogram, hdiagnostics, hsymbols⟩ | ⟨haborted, hdeep⟩
  · rcases parse_of_yields (by simp) hyields with ⟨q, hq, hprogram', hdiagnostics', rfl⟩ |
      ⟨haborted, hdeep⟩
    · refine .inl ⟨p, q, hp, hq, hprogram'.trans hprogram.symm, ?_, ?_⟩
      · exact Option.some.inj (hleave.symm.trans hsymbols)
      · rw [hdiagnostics', hdiagnostics, List.append_assoc]
        rfl
    · exact .inr ⟨hdeep, .inr haborted⟩
  · exact .inr ⟨hdeep, .inl haborted⟩

/-- The hypotheses of `parse_surrounded` hold of `begin skip end` behind `) skip` and before
    `begin x`: two errors are reported. -/
theorem parse_surrounded_begin :
    let place : Nat → Location := fun n => ⟨"a.pl0", 1, n⟩
    let token : Kind → Nat → Token := fun k n => ⟨k, place n, .absent⟩
    let sign : (k : Kind) → Nat → Derivation.TokenOf k := fun k n => ⟨token k n, rfl⟩
    let c : Derivation.Block := .mk []
      (.mk (sign .kwBegin 3) (.mk (.skip (sign .kwSkip 4)) []) (sign .kwEnd 5))
    let us : List Token := [token .rightParen 1, token .kwSkip 2]
    let vs : List Token := [token .kwBegin 6, ⟨.identifier, place 7, .text "x"⟩]
    c.nesting ≤ maxNesting ∧ (∀ u ∈ us, u.kind ≠ .endOfFile ∧ u.kind ∉ Starts.block) ∧
      (∀ v ∈ vs, v.kind ≠ .endOfFile) ∧
      ∃ q, parse 1000 ((us ++ c.tokens ++ vs ++ [Token.endOfFile (place 8)]).map fun t =>
          .token t none) [] = .ok q ∧
        q.program = c.program ∧ q.journal.diagnostics =
          [⟨.error, .cannotStart "Program" (token .rightParen 1), place 1⟩,
            ⟨.error, .cannotFollow (token .kwBegin 6) "Compound Statement", place 6⟩] := by
  intro place token sign c us vs
  have hn : c.nesting ≤ maxNesting := by decide
  have hus : ∀ u ∈ us, u.kind ≠ .endOfFile ∧ u.kind ∉ Starts.block := by decide
  have hvs : ∀ v ∈ vs, v.kind ≠ .endOfFile := by decide
  have hread := parse_surrounded 1000 c (t := Token.endOfFile (place 8)) hn rfl hus hvs
  rcases hread with ⟨p, q, hp, hq, hprogram, -, hdiagnostics⟩ | ⟨hdepth, -⟩
  · rcases parse_of_derived 1000 hn (c.beforeEnd_tokens (t := Token.endOfFile (place 8)) rfl) with
      ⟨p', hp', hprogram', hdiagnostics', -⟩ | ⟨⟨j, hj⟩, -⟩
    · obtain rfl : p = p' := Except.ok.inj (hp.symm.trans hp')
      refine ⟨hn, hus, hvs, q, hq, hprogram.trans hprogram', ?_⟩
      rw [hdiagnostics, hdiagnostics']
      rfl
    · cases hp.symm.trans hj
  · exact absurd hdepth (by decide)

end Grammar

end PlZero
