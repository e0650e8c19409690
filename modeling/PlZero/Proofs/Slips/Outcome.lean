/-
  PlZero/Proofs/Slips/Outcome.lean
  ================================
  **A program is read although it was mistyped.**  Illegal tokens are skipped, and so is `=` in
  the place of `:=`; the `=` before the block of a procedure may be missing.  The tree and the
  table are those of the program, up to places, and besides what is reported of the program there
  is one error for each slip (`parse_strayed`, `parse_slipped`).

  The name behind `procedure` and `call` is the exception.  It is read off the head token, and an
  illegal token in its place takes it away, although the name itself is found behind
  (`parse_call_strayed`).
-/
import PlZero.Proofs.Compilation.Stages
import PlZero.Proofs.Completeness.Outcome
import PlZero.Proofs.Slips.Readers

namespace PlZero

variable {D : Draft} {script : List Stroke} {s s' : ReaderState} {e : Token}

/-! ### The first state and the last -/

theorem Stream.start_holds {tokens : List Token} (h : tokens ≠ []) :
    ∃ s, Stream.start (tokens.map fun t => .token t none) [] = .ok s ∧ s.Holds tokens ∧
      s.rules = [] ∧ s.reports = [] := by
  cases tokens with
  | nil => exact absurd rfl h
  | cons t ts => exact ⟨_, rfl, ⟨ts, rfl, rfl⟩, rfl, rfl⟩

theorem Lead.follows_end (he : e.kind = .endOfFile) : Lead.nothing.Follows [e] := by
  have hassign : e.kind ≠ .assign := fun hk => absurd (he.symm.trans hk) (by decide)
  refine ⟨fun hnames => absurd hnames not_names, fun hk => absurd hk hassign, nofun, ?_⟩
  rw [if_pos he]

/-- Before anything is read, two streams stand at the beginning of a script. -/
theorem start_beside (hfollows : Lead.nothing.Follows (script.map Stroke.meant))
    (hcareful : D.Careful .nothing script) (hslips : D.slips = Slip.ofScript script) :
    ∃ v v', Stream.start ((script.map Stroke.meant).map fun t => .token t none) [] = .ok v ∧
      Stream.start ((script.flatMap Stroke.typed).map fun t => .token t none) [] = .ok v' ∧
      Beside D .nothing script ⟨v, .initial, 0⟩ ⟨v', .initial, 0⟩ := by
  have hmeant : script.map Stroke.meant ≠ [] := by
    intro hnil
    rw [hnil] at hfollows
    exact hfollows
  obtain ⟨v, hv, hholds, hrules, hreports⟩ := Stream.start_holds hmeant
  obtain ⟨v', hv', hholds', hrules', hreports'⟩ :=
    Stream.start_holds (hcareful.typed_ne_nil hfollows)
  have htold : Told D.level [] v.reports v'.reports := by
    rw [hreports, hreports']
    exact .nothing
  exact ⟨v, v', hv, hv', hfollows, hcareful, hholds, hholds', hrules'.trans hrules.symm,
    Std.Refl.refl _, rfl, [], hslips.symm, htold⟩

/-- At the end of the input every slip of the script has been reported. -/
theorem Beside.told_all (h : Beside D .nothing script s s') (hend : At {.endOfFile} script) :
    Told D.level D.slips.reverse s.stream.reports s'.stream.reports := by
  obtain ⟨stroke, hfirst, hstrays, hkind⟩ := hend
  obtain ⟨more, rfl⟩ := List.head?_eq_some_iff.mp hfirst
  have hkind : stroke.meant.kind = .endOfFile := KindSet.mem_braces.mp hkind
  have hmore : more = [] := by
    obtain ⟨-, -, -, hbehind⟩ := h.follows
    rw [if_pos hkind] at hbehind
    exact List.map_eq_nil_iff.mp hbehind
  have hplain : stroke = .plain [] stroke.meant :=
    h.careful.1.exact hstrays (hkind ▸ by decide) (by decide)
  obtain ⟨told, hall, htold⟩ := h.told
  have hslips : D.slips = told.reverse := by
    rw [← hall, hmore, hplain]
    exact List.append_nil _
  rw [hslips, List.reverse_reverse]
  exact htold

theorem Beside.diagnostics (h : Beside D .nothing script s s') (hend : At {.endOfFile} script) :
    ∃ repeated found, s'.stream.journal.diagnostics.Perm (repeated ++ found) ∧
      List.Forall₂ (Diagnostic.Alike D.level) s.stream.journal.diagnostics repeated ∧
        List.Forall₂ Slip.Reported D.slips found := by
  obtain ⟨repeated, found, hperm, hrepeated, hfound⟩ := (h.told_all hend).perm
  have hfound := List.rel_reverse hfound
  rw [List.reverse_reverse] at hfound
  have hturned : (repeated ++ found).Perm (repeated.reverse ++ found.reverse) :=
    (List.reverse_perm _).symm.append (List.reverse_perm _).symm
  rw [Journal.diagnostics_eq, Journal.diagnostics_eq]
  exact ⟨repeated.reverse, found.reverse, (List.reverse_perm _).trans (hperm.trans hturned),
    List.rel_reverse hrepeated, hfound⟩

namespace Grammar

variable {maxDepth : Nat}

/-! ### Reading a script -/

/-- What was read of a program as it was typed is what was read of it as it was meant, up to
    places, and besides the diagnostics there is one for each slip. -/
structure Parsed.Forgiven (near level : Location → Location → Prop) (slips : List Slip)
    (p q : Parsed) : Prop where
  program : p.program.Alike near q.program
  symbols : p.symbols.Alike near q.symbols
  diagnostics : ∃ repeated found, q.journal.diagnostics.Perm (repeated ++ found) ∧
    List.Forall₂ (Diagnostic.Alike level) p.journal.diagnostics repeated ∧
      List.Forall₂ Slip.Reported slips found

/-- A program is read as it was meant, or its procedures and statements nest too deeply. -/
theorem parse_script {c : Derivation.Block} (hn : c.nesting ≤ maxNesting)
    (he : e.kind = .endOfFile) (hscript : script.map Stroke.meant = c.tokens ++ [e])
    (hslips : D.slips = Slip.ofScript script) (hcareful : D.Careful .nothing script) :
    let read := fun tokens : List Token => parse maxDepth (tokens.map fun t => .token t none) []
    (∃ p q, read (c.tokens ++ [e]) = .ok p ∧ read (script.flatMap Stroke.typed) = .ok q ∧
        p.Forgiven D.near D.level (Slip.ofScript script) q) ∨
      (maxDepth < c.depth ∧ ∃ j, read (c.tokens ++ [e]) = .error (.tooDeep, j)) := by
  intro read
  have hfollows : Lead.nothing.Follows (script.map Stroke.meant) := by
    rw [hscript]
    exact c.follows (Lead.follows_end he)
  rcases parse_of_derived maxDepth hn (c.beforeEnd_tokens he) with
    ⟨p, hp, -, hcomplaints, -⟩ | ⟨hj, hdeep⟩
  · obtain ⟨stream, s, hstart, hrun, hsymbols, hjournal⟩ := parse_ok hp
    obtain ⟨v, v', hv, hv', hbeside⟩ := start_beside hfollows hcareful hslips
    rw [hscript] at hv
    obtain rfl : v = stream := Except.ok.inj (hv.symm.trans hstart)
    -- what is reported of a derived program is what can be wrong with it
    have hquiet : s.stream.Quiet := by
      have hadmitted := c.complaints_admitted
      rw [← hcomplaints, Journal.diagnostics_eq, hjournal] at hadmitted
      exact fun d hd => hadmitted d (List.mem_reverse.mpr hd)
    obtain ⟨q, s', hrun', hprogram, rest, hend, hs⟩ :=
      wholeProgram_mends.mends _ _ _ _ ⟨script, trivial, hbeside⟩ hrun hquiet
    have hq : read (script.flatMap Stroke.typed) = .ok ⟨q, s'.symbols, s'.stream.journal⟩ := by
      show parse maxDepth _ [] = _
      unfold parse
      simp only [hv', hrun']
    refine .inl ⟨p, _, hp, hq, hprogram, hsymbols ▸ hs.symbols, ?_⟩
    rw [hjournal, ← hslips]
    exact hs.diagnostics hend
  · exact .inr ⟨hdeep, hj⟩

/-! ### Strays -/

/-- Illegal tokens are skipped, wherever they stand but before the name of a procedure: the tree
    and the table are the same up to places, and each run of them is one error, at the first. -/
theorem parse_strayed (maxDepth : Nat) (c : Derivation.Block) {script : List Stroke} {e : Token}
    (hn : c.nesting ≤ maxNesting) (he : e.kind = .endOfFile)
    (hscript : script.map Stroke.meant = c.tokens ++ [e])
    (hstrayed : ∀ stroke ∈ script, stroke.OnlyStrayed)
    (hnames : script.IsChain fun stroke next =>
      stroke.meant.kind = .kwProcedure ∨ stroke.meant.kind = .kwCall → next.strays = []) :
    let read := fun tokens : List Token => parse maxDepth (tokens.map fun t => .token t none) []
    (∃ p q, read (c.tokens ++ [e]) = .ok p ∧ read (script.flatMap Stroke.typed) = .ok q ∧
        p.Forgiven (fun _ _ => True) Eq (Slip.ofScript script) q) ∨
      (maxDepth < c.depth ∧ ∃ j, read (c.tokens ++ [e]) = .error (.tooDeep, j)) :=
  parse_script hn he hscript rfl (Draft.strayed_careful hstrayed hnames)

/-- The hypotheses of `parse_strayed` hold of `begin skip end` with an illegal token before
    `begin` and two behind `skip`: two errors are reported. -/
theorem parse_strayed_skip :
    let place : Nat → Location := fun n => ⟨"a.pl0", 1, n⟩
    let token : Kind → Nat → Token := fun k n => ⟨k, place n, .absent⟩
    let sign : (k : Kind) → Nat → Derivation.TokenOf k := fun k n => ⟨token k n, rfl⟩
    let c : Derivation.Block := .mk []
      (.mk (sign .kwBegin 2) (.mk (.skip (sign .kwSkip 3)) []) (sign .kwEnd 6))
    let script : List Stroke := [.plain [token .illegal 1] (token .kwBegin 2),
      .plain [] (token .kwSkip 3), .plain [token .illegal 4, token .illegal 5] (token .kwEnd 6),
      .plain [] (Token.endOfFile (place 7))]
    c.nesting ≤ maxNesting ∧ script.map Stroke.meant = c.tokens ++ [Token.endOfFile (place 7)] ∧
      (∀ stroke ∈ script, stroke.OnlyStrayed) ∧
      (script.IsChain fun stroke next =>
        stroke.meant.kind = .kwProcedure ∨ stroke.meant.kind = .kwCall → next.strays = []) ∧
      ∃ p q, parse 1000 ((c.tokens ++ [Token.endOfFile (place 7)]).map fun t => .token t none) [] =
          .ok p ∧
        parse 1000 ((script.flatMap Stroke.typed).map fun t => .token t none) [] = .ok q ∧
        p.Forgiven (fun _ _ => True) Eq [⟨place 1, none⟩, ⟨place 4, none⟩] q := by
  intro place token sign c script
  have hn : c.nesting ≤ maxNesting := by decide
  have hscript : script.map Stroke.meant = c.tokens ++ [Token.endOfFile (place 7)] := rfl
  have hstrayed : ∀ stroke ∈ script, stroke.OnlyStrayed := by decide
  have hnames : script.IsChain fun stroke next =>
      stroke.meant.kind = .kwProcedure ∨ stroke.meant.kind = .kwCall → next.strays = [] := by
    decide
  refine ⟨hn, hscript, hstrayed, hnames, ?_⟩
  rcases parse_strayed 1000 c hn rfl hscript hstrayed hnames with hread | ⟨hdepth, -⟩
  · exact hread
  · exact absurd hdepth (by decide)

/-- The name that a program calls whose only statement is a call. -/
def onlyCall (p : Program) : Option String :=
  match p.block.body with
  | .list _ [.call _ name _] => some name
  | _ => none

theorem onlyCall_eq {p : Program} {x : String} (h : onlyCall p = some x) :
    ∃ l l' scope, p.block.body = .list l [.call l' x scope] := by
  unfold onlyCall at h
  split at h
  · rename_i l l' name scope hbody
    obtain rfl := Option.some.inj h
    exact ⟨l, l', scope, hbody⟩
  · cases h

theorem onlyCall_alike {near : Location → Location → Prop} {p q : Program} {x y : String}
    (h : p.Alike near q) (hp : onlyCall p = some x) (hq : onlyCall q = some y) : x = y := by
  obtain ⟨_, _, _, hbody⟩ := onlyCall_eq hp
  obtain ⟨_, _, _, hbody'⟩ := onlyCall_eq hq
  have hbodies := h.block.body
  rw [hbody, hbody'] at hbodies
  obtain _ | _ | _ | _ | _ | _ | _ | ⟨-, hcalls⟩ := hbodies
  obtain _ | ⟨hcall, -⟩ := hcalls
  cases hcall
  rfl

/-- What is read off a result stands in one. -/
theorem ok_of_bind_toOption {ε α β : Type} {r : Except ε α} {f : α → Option β} {b : β}
    (h : r.toOption.bind f = some b) : ∃ a, r = .ok a ∧ f a = some b := by
  cases r with
  | error e => cases h
  | ok a => exact ⟨a, rfl, h⟩

/-- The name behind `call` is read off the head token: an illegal token before it takes it
    away, although it is found behind.  In `begin call $ p() end` nothing named `p` is called. -/
theorem parse_call_strayed :
    let place : Nat → Location := fun n => ⟨"a.pl0", 1, n⟩
    let sign : (k : Kind) → Nat → Derivation.TokenOf k := fun k n => ⟨⟨k, place n, .absent⟩, rfl⟩
    let c : Derivation.Block := .mk [] (.mk (sign .kwBegin 1)
      (.mk (.call (sign .kwCall 2) ⟨⟨.identifier, place 4, .text "p"⟩, rfl⟩
        (sign .leftParen 5) (sign .rightParen 6)) []) (sign .kwEnd 7))
    let script : List Stroke := (c.tokens ++ [Token.endOfFile (place 8)]).map fun t =>
      .plain (if t.kind = .identifier then [⟨.illegal, place 3, .absent⟩] else []) t
    let read := fun tokens : List Token => parse 1000 (tokens.map fun t => .token t none) []
    c.nesting ≤ maxNesting ∧ c.depth ≤ 1000 ∧ (∀ stroke ∈ script, stroke.OnlyStrayed) ∧
      script.map Stroke.meant = c.tokens ++ [Token.endOfFile (place 8)] ∧
      ∃ p q, read (c.tokens ++ [Token.endOfFile (place 8)]) = .ok p ∧
        read (script.flatMap Stroke.typed) = .ok q ∧ onlyCall p.program = some "p" ∧
        onlyCall q.program = some "<noid>" ∧ ¬ p.program.Alike (fun _ _ => True) q.program := by
  intro place sign c script read
  have hmeant : (read (c.tokens ++ [Token.endOfFile (place 8)])).toOption.bind
      (fun p => onlyCall p.program) = some "p" := by decide +kernel
  have htyped : (read (script.flatMap Stroke.typed)).toOption.bind
      (fun p => onlyCall p.program) = some "<noid>" := by decide +kernel
  obtain ⟨p, hp, hcall⟩ := ok_of_bind_toOption hmeant
  obtain ⟨q, hq, hcall'⟩ := ok_of_bind_toOption htyped
  refine ⟨by decide, by decide, by decide, rfl, p, q, hp, hq, hcall, hcall', fun halike => ?_⟩
  exact absurd (onlyCall_alike halike hcall hcall') (by decide)

/-! ### Slips of the pen -/

/-- `=` is read as `:=`, and the `=` between the head and the block of a procedure may be left
    out: the tree and the table are the same but for the places of what was typed, and each such
    slip is one error, that says what is expected. -/
theorem parse_slipped (maxDepth : Nat) (c : Derivation.Block) {script : List Stroke} {e : Token}
    (hn : c.nesting ≤ maxNesting) (he : e.kind = .endOfFile)
    (hscript : script.map Stroke.meant = c.tokens ++ [e])
    (hslipped : ∀ stroke ∈ script, stroke.OnlySlipped)
    (hheads : ∀ before m behind, script = before ++ .dropped m :: behind →
      Lead.headKinds <:+ before.map fun stroke => stroke.meant.kind) :
    let read := fun tokens : List Token => parse maxDepth (tokens.map fun t => .token t none) []
    (∃ p q, read (c.tokens ++ [e]) = .ok p ∧ read (script.flatMap Stroke.typed) = .ok q ∧
        p.Forgiven (Retyped script) (Retyped script) (Slip.ofScript script) q) ∨
      (maxDepth < c.depth ∧ ∃ j, read (c.tokens ++ [e]) = .error (.tooDeep, j)) :=
  parse_script hn he hscript rfl (Draft.slipped_careful hslipped hheads)

/-- The hypotheses of `parse_slipped` hold of `procedure p() begin x = 1 end; begin skip end`,
    where the first `=` was left out and the other stands for `:=`: two errors are reported. -/
theorem parse_slipped_procedure :
    let place : Nat → Location := fun n => ⟨"a.pl0", 1, n⟩
    let token : Kind → Nat → Token := fun k n => ⟨k, place n, .absent⟩
    let named : String → Nat → Token := fun x n => ⟨.identifier, place n, .text x⟩
    let sign : (k : Kind) → Nat → Derivation.TokenOf k := fun k n => ⟨token k n, rfl⟩
    let one : Token := ⟨.number, place 9, .number 1⟩
    let assignment : Derivation.Assignment := ⟨⟨named "x" 7, rfl⟩, [], sign .assign 8,
      .plain (.mk none (.mk (.number ⟨one, rfl⟩) []) []), []⟩
    let c : Derivation.Block := .mk
      [.procedure (sign .kwProcedure 1) ⟨named "p" 2, rfl⟩ (sign .leftParen 3)
        (sign .rightParen 4) (sign .equals 5)
        (.mk [] (.mk (sign .kwBegin 6) (.mk (.assign assignment) []) (sign .kwEnd 10)))
        (sign .semicolon 11)]
      (.mk (sign .kwBegin 12) (.mk (.skip (sign .kwSkip 13)) []) (sign .kwEnd 14))
    let e : Token := Token.endOfFile (place 15)
    let before : List Token := [token .kwProcedure 1, named "p" 2, token .leftParen 3,
      token .rightParen 4]
    let behind : List Token := [one, token .kwEnd 10, token .semicolon 11, token .kwBegin 12,
      token .kwSkip 13, token .kwEnd 14, e]
    let script : List Stroke := before.map (.plain []) ++ .dropped (token .equals 5) ::
      .plain [] (token .kwBegin 6) :: .plain [] (named "x" 7) ::
        .mistyped (token .assign 8) (token .equals 8) :: behind.map (.plain [])
    c.nesting ≤ maxNesting ∧ script.map Stroke.meant = c.tokens ++ [e] ∧
      (∀ stroke ∈ script, stroke.OnlySlipped) ∧
      (∀ before m behind, script = before ++ .dropped m :: behind →
        Lead.headKinds <:+ before.map fun stroke => stroke.meant.kind) ∧
      ∃ p q, parse 1000 ((c.tokens ++ [e]).map fun t => .token t none) [] = .ok p ∧
        parse 1000 ((script.flatMap Stroke.typed).map fun t => .token t none) [] = .ok q ∧
        p.Forgiven (Retyped script) (Retyped script)
          [⟨place 6, some .equals⟩, ⟨place 8, some .assign⟩] q := by
  intro place token named sign one assignment c e before behind script
  have hn : c.nesting ≤ maxNesting := by decide
  have hscript : script.map Stroke.meant = c.tokens ++ [e] := rfl
  have hslipped : ∀ stroke ∈ script, stroke.OnlySlipped := by decide
  have hheads : ∀ before m behind, script = before ++ .dropped m :: behind →
      Lead.headKinds <:+ before.map fun stroke => stroke.meant.kind := by
    intro before' m behind' hsplit
    have hat : script[before'.length]? = some (.dropped m) := by rw [hsplit]; simp
    have htake : before' = script.take before'.length := by rw [hsplit]; simp
    have hfour : before'.length = 4 := by
      have key : ∀ i < script.length, ∀ t ∈ script.map Stroke.meant,
          script[i]? = some (.dropped t) → i = 4 := by decide
      obtain ⟨hlt, hget⟩ := List.getElem?_eq_some_iff.mp hat
      have hm : m ∈ script.map Stroke.meant :=
        List.mem_map.mpr ⟨_, hget ▸ List.getElem_mem hlt, rfl⟩
      exact key _ hlt m hm hat
    rw [htake, hfour]
    decide
  refine ⟨hn, hscript, hslipped, hheads, ?_⟩
  rcases parse_slipped 1000 c hn rfl hscript hslipped hheads with hread | ⟨hdepth, -⟩
  · exact hread
  · exact absurd hdepth (by decide)

end Grammar

end PlZero
