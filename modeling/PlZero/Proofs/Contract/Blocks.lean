/-
  PlZero/Proofs/Contract/Blocks.lean
  ==================================
  **The frame of procedures, blocks and programs.**  The scope of a procedure is opened for
  an entry that was added just before, so that no older entry changes; it is closed on every
  path, also where the name of the procedure is missing or taken.
-/
import PlZero.Grammar.Blocks
import PlZero.Proofs.Contract.Declarations
import PlZero.Proofs.Contract.Statements

namespace PlZero.Grammar

open Reader

variable {n maxDepth : Nat} {E : Abort → Stream → Prop} {L : Location → Prop}
  {recover : KindSet}
  {s : ReaderState}

theorem Starts.mem_declaration {k : Kind} (h : k ∈ Starts.declaration) :
    k = .kwConst ∨ k = .kwType ∨ k = .kwVar ∨ k = .kwProcedure := by
  simpa [Starts.declaration] using h

/-! ### Procedures -/

theorem detachedProcedure_runs {x : String} {l : Location} (hl : L l) :
    Runs n E L (detachedProcedure x l) (fun e _ => n ≤ e.index) s := by
  intro hs hn
  exact Runs.look (fun _ => .bind (Q := fun _ _ => True)
    (.setSymbols (fun hn => s.symbols.append_kept hn _ _ _)
      (fun hs => entries_push hs ⟨hl, trivial⟩) trivial) fun _ _ _ _ => .pure hn) hs hn

theorem procedureEntry_runs : Runs n E L procedureEntry (fun e _ => n ≤ e.index) s := by
  refine .look fun hs => .look fun _ => ?_
  by_cases hident : s.stream.head.kind = .identifier
  · rw [if_pos (Stream.headIs_iff.mpr hident)]
    refine .name hident fun x => ?_
    refine .look fun _ => .bind (.declared hs.within.head fun r hr => ?_)
      fun added t _ hadded => ?_
    · exact ⟨.procedure none, trivial, SymbolTable.declare_some hr⟩
    · cases added with
      | some entry => exact .pure (hadded entry rfl)
      | none => exact detachedProcedure_runs hs.within.head
  · rw [if_neg (mt Stream.headIs_iff.mp hident)]
    exact detachedProcedure_runs hs.within.head

theorem procedureHeader_runs (hk : s.stream.head.kind = .kwProcedure) :
    Runs n E L (procedureHeader recover) (fun e t => n ≤ e.index ∧ t.Waits recover) s := by
  refine .certainly (KindSet.mem_braces.mpr hk) fun l t _ _ hk => ?_
  refine .bind (.expect (KindSet.mem_braces.mp hk)) fun _ _ _ _ => ?_
  refine .bind procedureEntry_runs fun entry _ _ hentry => ?_
  exact .bind nameAndParens_runs fun _ _ _ _ => .pure hentry

section

variable {block : Nat → KindSet → Reader Block}
  (hblock : ∀ scope r (t : ReaderState),
    Runs n E L (block scope r) (fun a u => a.Proper L ∧ u.Waits r) t)
include hblock

theorem procedureDefinition_runs (hk : s.stream.head.kind = .kwProcedure) :
    Runs n E L (procedureDefinition block recover)
      (fun p t => p.Proper L ∧ t.Waits recover) s := by
  refine .certainly (KindSet.mem_braces.mpr hk) fun l t hl _ hk => ?_
  refine .bind (procedureHeader_runs (KindSet.mem_braces.mp hk)) fun entry _ _ hentry => ?_
  refine .bind (.inScope (P := fun a _ => a.Proper L) hentry.1 fun scope u _ => ?_)
    fun body _ _ hbody => ?_
  · exact .bind .demand fun _ _ _ _ => (hblock _ _ _).post fun _ _ _ h => h.1
  · exact .bind .demand fun _ _ _ _ => .pure ⟨hl, hbody⟩

theorem declaration_runs (hk : s.stream.head.kind ∈ Starts.declaration) :
    Runs n E L (declaration block recover)
      (fun found t => (∀ p, found = some p → p.Proper L) ∧ t.Waits recover) s := by
  refine .certainly hk fun l t _ _ hk => .look fun _ => ?_
  rcases Starts.mem_declaration hk with hk | hk | hk | hk
  · rw [hk]
    exact .bind (constantList_runs hk) fun _ _ _ _ => .pure (by simp)
  · rw [hk]
    exact .bind (typeList_runs hk) fun _ _ _ _ => .pure (by simp)
  · rw [hk]
    exact .bind (variableList_runs hk) fun _ _ _ _ => .pure (by simp)
  · rw [hk]
    refine .bind (procedureDefinition_runs hblock hk) fun p _ _ hp => ?_
    exact .pure (by simpa using hp.1)

theorem blockOver_runs {statement : KindSet → Reader Statement} {scope : Nat}
    (hstatement : ∀ r (t : ReaderState),
      Runs n E L (statement r) (fun a u => a.Proper L ∧ u.Waits r) t) :
    Runs n E L (blockOver statement block scope recover)
      (fun b t => b.Proper L ∧ t.Waits recover) s := by
  refine .attempt (fun l hl => ⟨hl, trivial, hl, .inr trivial⟩) fun l t _ _ _ => ?_
  refine .bind (.whileIn (P := fun found => ∀ p ∈ found, p.Proper L) (by simp) ?_)
    fun found _ _ hfound => ?_
  · intro found u hfound _ hin
    refine .bind (declaration_runs hblock hin) fun p _ _ hp => ?_
    cases p with
    | none => exact .pure hfound
    | some p => exact .pure (by simpa using ⟨hp.1 p rfl, hfound⟩)
  · refine .bind (compoundStatement_runs hstatement) fun body _ _ hbody => .pure ?_
    refine ⟨hbody.1.1.location, Procedure.allProper_iff.mpr ?_, hbody.1⟩
    simpa using hfound

end

/-- Blocks that nest too deeply end the run; all others are read. -/
theorem blockWithin_runs (hdeep : AdmitsTooDeep E) (k : Nat) :
    ∀ (scope : Nat) (recover : KindSet) (s : ReaderState),
      Runs n E L (blockWithin k scope recover) (fun b t => b.Proper L ∧ t.Waits recover) s := by
  induction k with
  | zero => exact fun _ _ _ => .tooDeep hdeep
  | succ k ih => exact fun _ _ _ => blockOver_runs ih (statementWithin_runs hdeep k)

/-! ### Programs -/

theorem program_runs (hdeep : AdmitsTooDeep E) (hmain : n ≤ SymbolTable.mainIndex) :
    Runs n E L (program maxDepth recover) (fun p t => p.Proper L ∧ t.Waits recover) s := by
  refine .bind (.inScope (P := fun b t => b.Proper L ∧ (t.kind ∈ recover ∨ t.kind = .endOfFile))
    hmain fun scope t _ => ?_) fun block _ _ hblock => ?_
  · refine .attempt (fun l hl => ⟨hl, trivial, hl, .inr trivial⟩) fun _ _ _ _ _ => ?_
    exact (blockWithin_runs hdeep maxDepth scope recover _).post fun _ _ _ h => h.1
  · exact .pure ⟨⟨hblock.1.location, hblock.1⟩, hblock.2⟩

theorem wholeProgram_runs (hdeep : AdmitsTooDeep E) (maxDepth : Nat)
    (hmain : n ≤ SymbolTable.mainIndex) :
    Runs n E L (wholeProgram maxDepth)
      (fun p t => p.Proper L ∧ t.stream.head.kind = .endOfFile) s := by
  refine .bind .note fun _ _ _ _ => .bind (program_runs hdeep hmain) fun p t _ hp => ?_
  refine .look fun _ => .bind .note fun _ u _ hu => .pure ⟨hp.1, ?_⟩
  rw [hu]
  exact hp.2.elim KindSet.mem_braces.mp id

end PlZero.Grammar
