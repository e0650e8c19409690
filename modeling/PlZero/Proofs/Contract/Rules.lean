/-
  PlZero/Proofs/Contract/Rules.lean
  =================================
  **The contract of the rules.**  Every rule is given the tokens that its caller waits for.
  Where it returns, whatever the tokens are, it stops at one of these, it has closed what it
  opened, it has taken tokens off the front, and it has changed nothing in the symbol table but
  what it added.  If it cannot be begun it says so once and does nothing more.

  `Rule.reader` is the reader of each rule, at any depth of nesting.  The brackets of a rule
  decide where it stops and whether it is abandoned (`Rule.Closes`); what happens in between is
  a course of the stream and a growth of the table.
-/
import PlZero.Proofs.Progress.Loops
import PlZero.Proofs.Scope.Growth
import PlZero.Proofs.Stream.Brackets

namespace PlZero

/-! ### Streams that end -/

namespace Stream

variable {s t u v : Stream} {rule : String} {starts recover find : KindSet} {n : Note}
  {complaint : List Diagnostic}

/-- What can still be read ends with the end of the input. -/
def Terminated (s : Stream) : Prop := s.unread.getLast?.map Token.kind = some .endOfFile

instance (s : Stream) : Decidable s.Terminated := inferInstanceAs (Decidable (_ = _))

theorem Terminated.suffix (hs : s.Terminated) (h : t.unread <:+ s.unread) : t.Terminated := by
  obtain ⟨taken, htaken⟩ := h
  have hlast : s.unread.getLast? = t.unread.getLast? := by
    rw [← htaken, head_unread t, List.getLast?_append_cons]
  rw [Terminated, ← hlast]
  exact hs

/-- Only the head is taken off.  If it were the last token, it would be the end of the input. -/
theorem unread_next (hs : s.Terminated) (hne : s.head.kind ≠ .endOfFile) :
    s.unread = s.head :: s.next.unread := by
  rcases s with ⟨head, _ | ⟨⟨t, fault⟩ | n, rest⟩, rules, journal⟩
  · rw [next_last hne, unread, unread, Scan.closed_last hne, Scan.closed_end rfl]
    rfl
  · rw [next_token hne, unread, unread, Scan.closed_token hne]
    rfl
  · rw [Terminated, unread, Scan.closed_overlong hne] at hs
    exact absurd (Option.some.inj hs) hne

/-- A course takes tokens off the front, by induction on the course. -/
theorem Course.unread (h : Course s t) (hs : s.Terminated) : t.unread <:+ s.unread := by
  induction h with
  | refl s => exact List.suffix_refl _
  | trans first further ih ih' => exact (ih' (hs.suffix (ih hs))).trans (ih hs)
  | report s p l => exact List.suffix_refl _
  | noted s n => exact List.suffix_refl _
  | @matched s hne => exact ⟨[s.head], (unread_next (s := s.trace (.matched s.head)) hs hne).symm⟩
  | @skipped s hne => exact ⟨[s.head], (unread_next (s := s.trace (.skipped s.head)) hs hne).symm⟩
  | abandoned s rule => exact List.suffix_refl _
  | resynchronised s k => exact List.suffix_refl _
  | bracket rule inside ih => exact ih hs

/-! ### Brackets that return -/

/-- Where a rule is ended, it was the innermost one, and a token is found that may follow. -/
theorem endRule_ok {x : Unit} (h : endRule rule recover s = .ok x u) :
    u.head.kind ∈ recover ∨ u.head.kind = .endOfFile := by
  by_cases hrule : s.rules.head? = some rule
  · exact (endRule_reached hrule h).stop
  · rw [endRule_mismatch recover hrule] at h
    cases h

/-- A rule that is abandoned was reported, and it stands before a token that is waited for. -/
theorem beginRule_abandoned (h : beginRule rule starts recover s = .ok false u) :
    Reached (starts ∪ recover) [⟨.error, .cannotStart rule s.head, s.head.location⟩] s u ∧
      (u.head.kind ∈ recover ∨ u.head.kind = .endOfFile) := by
  have hhead : s.head.kind ∉ starts := by
    intro hstart
    rw [beginRule_here rule recover hstart] at h
    cases h
  obtain ⟨t, hreached, ⟨-, hfalse, -⟩ | ⟨hout, -, rfl⟩⟩ := beginRule_reached h
  · cases hfalse
  · rw [if_neg hhead] at hreached
    obtain ⟨pulled, hrest, hdiagnostics⟩ := hreached.pulled
    refine ⟨⟨hreached.rules, hreached.unread, hreached.stop, hreached.suffix, pulled, hrest,
      (Journal.diagnostics_trace _ _ _).trans hdiagnostics⟩, ?_⟩
    rcases hreached.stop with hfound | hend
    · exact .inl ((KindSet.mem_union.mp hfound).resolve_left hout)
    · exact .inr hend

/-- Remarks are no diagnostics, and no tokens. -/
theorem Reached.noted (h : Reached find complaint (s.noted n) t) (n' : Note) :
    Reached find complaint s (t.noted n') := by
  obtain ⟨pulled, hrest, hdiagnostics⟩ := h.pulled
  refine ⟨h.rules, h.unread, h.stop, h.suffix, pulled, hrest, ?_⟩
  have hbefore : (s.noted n).diagnostics = s.diagnostics := Journal.diagnostics_note _ _
  exact (Journal.diagnostics_note _ _).trans (hbefore ▸ hdiagnostics)

/-- What a remark stands behind does not decide whether a rule is entered. -/
theorem beginRule_noted (h : beginRule rule starts recover s = .ok false u) :
    beginRule rule starts recover (s.noted n) ≠ .ok true v := by
  intro h'
  obtain ⟨t, hreached, ⟨-, hfalse, -⟩ | ⟨hout, -, -⟩⟩ := beginRule_reached h
  · cases hfalse
  obtain ⟨t', hreached', ⟨hin, -, -⟩ | ⟨-, htrue, -⟩⟩ := beginRule_reached h'
  · have hsame : t.head :: t.unread.tail = t'.head :: t'.unread.tail :=
      hreached.reach.symm.trans hreached'.reach
    exact hout ((List.cons.inj hsame).1 ▸ hin)
  · cases htrue

end Stream

/-! ### The readers of the rules -/

namespace Rule

open Grammar

/-- What is read off a rule. -/
def Tree : Rule → Type
  | program => Program
  | block => Block
  | declaration => Option Procedure
  | constantList | constantDefinition | typeList | typeDefinition | variableList
  | variableDeclaration => Unit
  | constant => Constant
  | type | subrangeType | typeIdentifier => TypeExpr
  | procedureDefinition => Procedure
  | procedureHeader => Entry
  | compoundStatement | statementList | statement | assignment | whileStatement | ifStatement
  | doStatement | readStatement | writeStatement | callStatement | skipStatement => Statement
  | doBranch => Branch
  | relOp => Operator
  | condition | expression | term | factor | lvalue => Expression

/-- The reader of a rule, where conditions and constants may nest `levels` deep and statements and
    procedures `depth` deep.  A block is given the number of its scope. -/
def reader (levels depth scope : Nat) : (r : Rule) → KindSet → Reader r.Tree
  | program => Grammar.program depth
  | block => blockOver (statementWithin depth) (blockWithin depth) scope
  | declaration => Grammar.declaration (blockWithin depth)
  | constantList => Grammar.constantList
  | constantDefinition => Grammar.constantDefinition
  | constant => constantOver (constantWithin levels)
  | typeList => Grammar.typeList
  | typeDefinition => Grammar.typeDefinition
  | type => typeExpr
  | subrangeType => Grammar.subrangeType
  | typeIdentifier => Grammar.typeIdentifier
  | variableList => Grammar.variableList
  | variableDeclaration => Grammar.variableDeclaration
  | procedureDefinition => Grammar.procedureDefinition (blockWithin depth)
  | procedureHeader => Grammar.procedureHeader
  | compoundStatement => Grammar.compoundStatement (statementWithin depth)
  | statementList => Grammar.statementList (statementWithin depth)
  | statement => statementOver (statementWithin depth)
  | assignment => Grammar.assignment
  | whileStatement => Grammar.whileStatement (statementWithin depth)
  | ifStatement => Grammar.ifStatement (statementWithin depth)
  | doStatement => Grammar.doStatement (statementWithin depth)
  | doBranch => Grammar.doBranch (statementWithin depth)
  | readStatement => Grammar.readStatement
  | writeStatement => Grammar.writeStatement
  | callStatement => Grammar.callStatement
  | skipStatement => Grammar.skipStatement
  | condition => conditionOver (conditionWithin levels)
  | relOp => Grammar.relOp
  | expression => expressionOver (conditionWithin levels)
  | term => termOver (conditionWithin levels)
  | factor => factorOver (conditionWithin levels)
  | lvalue => Grammar.lvalue

/-- The procedure for which a rule opens a scope, if it is one that the table has already. -/
def owner : Rule → Option Nat
  | program => some SymbolTable.mainIndex
  | _ => none

variable {r : Rule} {recover : KindSet} {s t : ReaderState} {levels depth scope : Nat}

theorem reader_steady (r : Rule) : Reader.Steady (r.reader levels depth scope recover) s := by
  have hcondition := conditionWithin_steady levels
  have hstatement := statementWithin_steady depth
  have hblock := blockWithin_steady depth
  cases r with
  | program => exact program_steady
  | block => exact blockOver_steady hblock hstatement
  | declaration => exact declaration_steady hblock
  | constantList => exact constantList_steady
  | constantDefinition => exact constantDefinition_steady
  | constant => exact constantOver_steady (constantWithin_steady levels)
  | typeList => exact typeList_steady
  | typeDefinition => exact typeDefinition_steady
  | type => exact typeExpr_steady
  | subrangeType => exact subrangeType_steady
  | typeIdentifier => exact typeIdentifier_steady
  | variableList => exact variableList_steady
  | variableDeclaration => exact variableDeclaration_steady
  | procedureDefinition => exact procedureDefinition_steady hblock
  | procedureHeader => exact procedureHeader_steady
  | compoundStatement => exact compoundStatement_steady hstatement
  | statementList => exact statementList_steady hstatement
  | statement => exact statementOver_steady hstatement
  | assignment => exact assignment_steady
  | whileStatement => exact whileStatement_steady hstatement
  | ifStatement => exact ifStatement_steady hstatement
  | doStatement => exact doStatement_steady hstatement
  | doBranch => exact doBranch_steady hstatement
  | readStatement => exact readStatement_steady
  | writeStatement => exact writeStatement_steady
  | callStatement => exact callStatement_steady
  | skipStatement => exact skipStatement_steady
  | condition => exact conditionOver_steady hcondition
  | relOp => exact relOp_steady
  | expression => exact expressionOver_steady hcondition
  | term => exact termOver_steady hcondition
  | factor => exact factorOver_steady hcondition
  | lvalue => exact lvalue_steady

/-- A reader that leaves the table as it is adds nothing. -/
theorem grown_of_leaves {α : Type} {m : Reader α} {P : α → Prop} {table : SymbolTable}
    (h : Reader.Leaves table m fun a u => P a ∧ u = table) :
    Reader.Leaves table m fun _ u => table.Grown none u :=
  h.post fun _ _ hu => hu.2 ▸ (SymbolTable.Growth.refl table).grown

theorem reader_grown (r : Rule) (table : SymbolTable) :
    Reader.Leaves table (r.reader levels depth scope recover) fun _ u => table.Grown r.owner u := by
  have hcondition := conditionWithin_leaves (t := table) levels
  have hstatement := statementWithin_leaves (t := table) depth
  have hblock := blockWithin_grows depth
  cases r with
  | program => exact program_grows
  | block =>
    have hbody : Reader.Leaves table (block.reader levels depth scope recover)
        fun _ u => table.Growth u :=
      blockOver_grows hblock fun k _ => statementWithin_leaves depth k
    exact hbody.post fun _ _ hu => hu.grown
  | declaration => exact (declaration_grows hblock).post fun _ _ hu => hu.grown
  | constantList => exact constantList_leaves.post fun _ _ hu => hu.growth.grown
  | constantDefinition => exact constantDefinition_leaves.post fun _ _ hu => hu.growth.grown
  | constant => exact grown_of_leaves (constantOver_leaves (constantWithin_leaves levels))
  | typeList => exact typeList_leaves.post fun _ _ hu => hu.growth.grown
  | typeDefinition => exact typeDefinition_leaves.post fun _ _ hu => hu.growth.grown
  | type => exact grown_of_leaves typeExpr_leaves
  | subrangeType => exact grown_of_leaves subrangeType_leaves
  | typeIdentifier => exact grown_of_leaves typeIdentifier_leaves
  | variableList => exact variableList_leaves.post fun _ _ hu => hu.growth.grown
  | variableDeclaration => exact variableDeclaration_leaves.post fun _ _ hu => hu.growth.grown
  | procedureDefinition => exact (procedureDefinition_grows hblock).post fun _ _ hu => hu.grown
  | procedureHeader => exact procedureHeader_leaves.post fun _ _ hu => hu.growth.grown
  | compoundStatement => exact grown_of_leaves (compoundStatement_leaves hstatement)
  | statementList => exact grown_of_leaves (statementList_leaves hstatement)
  | statement => exact grown_of_leaves (statementOver_leaves hstatement)
  | assignment => exact grown_of_leaves assignment_leaves
  | whileStatement => exact grown_of_leaves (whileStatement_leaves hstatement)
  | ifStatement => exact grown_of_leaves (ifStatement_leaves hstatement)
  | doStatement => exact grown_of_leaves (doStatement_leaves hstatement)
  | doBranch => exact grown_of_leaves (doBranch_leaves hstatement)
  | readStatement => exact grown_of_leaves readStatement_leaves
  | writeStatement => exact grown_of_leaves writeStatement_leaves
  | callStatement => exact grown_of_leaves callStatement_leaves
  | skipStatement => exact grown_of_leaves skipStatement_leaves
  | condition => exact grown_of_leaves (conditionOver_leaves hcondition)
  | relOp => exact (relOp_still table).post fun _ _ hu => hu ▸ (SymbolTable.Growth.refl table).grown
  | expression => exact grown_of_leaves (expressionOver_leaves hcondition)
  | term => exact grown_of_leaves (termOver_leaves hcondition)
  | factor => exact grown_of_leaves (factorOver_leaves hcondition)
  | lvalue => exact grown_of_leaves lvalue_leaves

/-! ### Where rules stop -/

/-- What a rule that could not be begun comes to: that was reported, and nothing was done but to
    skip to a token that is waited for.  No name was declared, and a scope that was opened is
    empty. -/
structure Abandoned (r : Rule) (recover : KindSet) (s t : ReaderState) : Prop where
  reached : Stream.Reached (r.starts ∪ recover)
    [⟨.error, .cannotStart r.title s.stream.head, s.stream.head.location⟩] s.stream t.stream
  entries : t.symbols.entries.size = s.symbols.entries.size
  scopes : ∀ (i : Nat) (opened : Scope), t.symbols.scopes[i]? = some opened →
    s.symbols.scopes[i]? = some opened ∨ opened.declared = []

/-- What the brackets of a rule see to. -/
structure Closes (r : Rule) (recover : KindSet) (s t : ReaderState) : Prop where
  head : t.stream.head.kind ∈ recover ∨ t.stream.head.kind = .endOfFile
  abandoned : ∀ u, Stream.beginRule r.title r.starts recover s.stream = .ok false u →
    r.Abandoned recover s t

/-- How a reader in brackets returns: it was abandoned where it was begun, or it was ended. -/
inductive Bracketed (r : Rule) (recover : KindSet) (s t : ReaderState) : Prop
  | abandoned {u : Stream}
      (hbegin : Stream.beginRule r.title r.starts recover s.stream = .ok false u)
      (ht : t = s.withStream u)
  | ended {u v : Stream}
      (hbegin : Stream.beginRule r.title r.starts recover s.stream = .ok true u)
      (hend : Stream.endRule r.title recover v = .ok () t.stream)

theorem Bracketed.head (h : r.Bracketed recover s t) :
    t.stream.head.kind ∈ recover ∨ t.stream.head.kind = .endOfFile := by
  cases h with
  | abandoned hbegin ht => exact ht ▸ (Stream.beginRule_abandoned hbegin).2
  | ended hbegin hend => exact Stream.endRule_ok hend

theorem Bracketed.closes (h : r.Bracketed recover s t) : r.Closes recover s t where
  head := h.head
  abandoned := by
    intro u hlost
    cases h with
    | abandoned hbegin ht =>
      subst ht
      exact ⟨(Stream.beginRule_abandoned hbegin).1, rfl, fun _ _ => .inl⟩
    | ended hbegin hend =>
      rw [hlost] at hbegin
      cases hbegin

section

open Reader

variable {α : Type} {placeholder : Location → α} {body : Location → Reader α}

/-- A rule is ended under its name, whatever it has read. -/
theorem ended_bracketed {m : Reader α} {u : Stream}
    (hbegin : Stream.beginRule r.title r.starts recover s.stream = .ok true u) (v : ReaderState) :
    Ends (fun _ _ => True) (do
      let a ← m
      onStream (Stream.endRule r.title recover)
      return a) (fun _ t => r.Bracketed recover s t) v := by
  apply Ends.bind
  apply Ends.of_forall
  intro a w
  apply Ends.bind
  apply Ends.of_returns
  intro _ x hend
  exact .pure (.ended hbegin hend)

theorem attempt_bracketed : Ends (fun _ _ => True) (attempt r recover placeholder body)
    (fun _ t => r.Bracketed recover s t) s := by
  apply Ends.bind
  apply Ends.reads
  apply Ends.bind
  apply Ends.of_returns
  intro begun u hbegin
  cases begun with
  | true => exact ended_bracketed hbegin _
  | false => exact .pure (.abandoned hbegin rfl)

theorem certainly_bracketed : Ends (fun _ _ => True) (certainly r recover body)
    (fun _ t => r.Bracketed recover s t) s := by
  apply Ends.bind
  apply Ends.of_returns
  intro _ u hbegin
  obtain ⟨hstart, rfl⟩ := Stream.beginCertain_ok hbegin
  apply Ends.bind
  apply Ends.reads
  exact ended_bracketed (Stream.beginRule_here r.title recover hstart) _

/-- The scope of the program is opened before its rule is begun, and closed behind. -/
theorem program_closes : Ends (fun _ _ => True) (Grammar.program depth recover)
    (fun _ t => program.Closes recover s t) s := by
  apply Ends.bind
  apply Ends.bind
  apply Ends.enterScope
  intro entered
  apply Ends.bind
  apply attempt_bracketed.post
  intro block v hv
  apply Ends.bind
  cases hleave : v.symbols.leave with
  | none =>
    refine Ends.bind (.reads ?_)
    rw [hleave]
    trivial
  | some outer =>
    apply Ends.leaveScope hleave
    intro left
    refine .pure (.pure ⟨hv.head, ?_⟩)
    intro u hlost
    cases hv with
    | abandoned hbegin ht =>
      subst ht
      obtain ⟨hscopes, hentries⟩ := SymbolTable.leave_rows hleave
      refine ⟨(Stream.beginRule_abandoned hbegin).1.noted left, ?_, ?_⟩
      · exact (congrArg Array.size hentries).trans (Array.size_modify ..)
      · intro i opened hopened
        rw [hscopes] at hopened
        have hpushed := Array.getElem?_push.symm.trans hopened
        split at hpushed
        · obtain rfl := Option.some.inj hpushed
          exact .inr rfl
        · exact .inl hpushed
    | ended hbegin hend => exact absurd hbegin (Stream.beginRule_noted hlost)

theorem attempt_closes : Ends (fun _ _ => True) (attempt r recover placeholder body)
    (fun _ t => r.Closes recover s t) s :=
  attempt_bracketed.post fun _ _ => Bracketed.closes

theorem certainly_closes : Ends (fun _ _ => True) (certainly r recover body)
    (fun _ t => r.Closes recover s t) s :=
  certainly_bracketed.post fun _ _ => Bracketed.closes

end

theorem reader_closes (r : Rule) : Reader.Ends (fun _ _ => True)
    (r.reader levels depth scope recover) (fun _ t => r.Closes recover s t) s := by
  cases r with
  | program => exact program_closes
  | constant => exact .bind (.reads attempt_closes)
  | declaration | constantList | typeList | variableList | procedureDefinition | procedureHeader
  | whileStatement | ifStatement | doStatement | readStatement | writeStatement | callStatement
  | skipStatement | relOp => exact certainly_closes
  | block | constantDefinition | typeDefinition | type | subrangeType | typeIdentifier
  | variableDeclaration | compoundStatement | statementList | statement | assignment | doBranch
  | condition | expression | term | factor | lvalue => exact attempt_closes

/-! ### The contract -/

/-- What a rule owes to its caller, who waits for the tokens in `recover`.  The symbol table has
    grown: older entries are what they were, except that `<main>` knows the scope of the program,
    new names are in the innermost scope or in new ones, and no other scope has changed. -/
structure Contract (r : Rule) (recover : KindSet) (s t : ReaderState) : Prop where
  head : t.stream.head.kind ∈ recover
  rules : t.stream.rules = s.stream.rules
  nesting : t.nesting = s.nesting
  unread : t.stream.unread <:+ s.stream.unread
  symbols : s.symbols.Grown r.owner t.symbols
  abandoned : ∀ u, Stream.beginRule r.title r.starts recover s.stream = .ok false u →
    r.Abandoned recover s t

/-- From any state whose tokens come to an end, every rule that returns keeps its contract with a
    caller that waits for the end of the input among others.  A rule that its caller chooses by
    the head token returns only if it can start there. -/
theorem reader_contract {a : r.Tree} (hrecover : .endOfFile ∈ recover)
    (hs : s.stream.Terminated) (h : r.reader levels depth scope recover s = .ok a t) :
    r.Contract recover s t := by
  have hcourse : s.Course t := r.reader_steady.ok h
  have hgrown : s.symbols.Grown r.owner t.symbols := (r.reader_grown s.symbols s rfl).ok h
  have hcloses : r.Closes recover s t := r.reader_closes.ok h
  have hhead : t.stream.head.kind ∈ recover := by
    rcases hcloses.head with hfound | hend
    · exact hfound
    · exact hend ▸ hrecover
  exact ⟨hhead, hcourse.stream.rules, hcourse.nesting, hcourse.stream.unread hs, hgrown,
    hcloses.abandoned⟩

/-- `reader_contract` of a constant definition, which declares its name. -/
theorem reader_contract_constant :
    let tokens : List Scan := [.token ⟨.equals, .unknown, .absent⟩ none,
      .token ⟨.number, .unknown, .number 1⟩ none, .token ⟨.semicolon, .unknown, .absent⟩ none]
    let s : ReaderState := ⟨⟨⟨.identifier, .unknown, .text "x"⟩, tokens, [], []⟩, .initial, 0⟩
    ∃ t, constantDefinition.reader 0 0 0 {.endOfFile} s = .ok () t ∧
      t.symbols.entries.size = 6 ∧ constantDefinition.Contract {.endOfFile} s t := by
  intro tokens s
  have hrun : (match constantDefinition.reader 0 0 0 {.endOfFile} s with
      | .ok _ t => t.symbols.entries.size
      | .error _ _ => 0) = 6 := by
    decide +kernel
  cases h : constantDefinition.reader 0 0 0 {.endOfFile} s with
  | ok a t =>
    rw [h] at hrun
    exact ⟨t, rfl, hrun, reader_contract (by decide) (by decide +kernel) h⟩
  | error e t =>
    rw [h] at hrun
    cases hrun

/-- A program cannot begin with a comma.  That is all that is reported, and nothing is declared. -/
example :
    let s : ReaderState := ⟨⟨⟨.comma, .unknown, .absent⟩, [], [], []⟩, .initial, 0⟩
    (match program.reader 0 0 0 {.endOfFile} s with
      | .ok _ t => some (t.stream.head.kind, t.stream.reports.length, t.symbols.entries.size)
      | .error _ _ => none) = some (.endOfFile, 1, 5) := by
  decide +kernel

end Rule

end PlZero
