/-
  PlZero/Proofs/Contract/Statements.lean
  ======================================
  **The frame of statements.**  Every rule returns a proper statement and stops at a token
  that its caller waits for.  Only statements that nest deeper than the readers go end the
  run.
-/
import PlZero.Grammar.Statements
import PlZero.Proofs.Contract.Expressions

namespace PlZero.Grammar

open Reader

variable {n : Nat} {E : Abort → Stream → Prop} {L : Location → Prop} {recover : KindSet}
  {s : ReaderState}

theorem Starts.mem_statement {k : Kind} (h : k ∈ Starts.statement) :
    k = .identifier ∨ k = .kwWhile ∨ k = .kwIf ∨ k = .kwRead ∨ k = .kwWrite ∨ k = .kwCall ∨
      k = .kwBegin ∨ k = .kwSkip ∨ k = .kwDo := by
  simpa [Starts.statement] using h

/-! ### Assignments -/

theorem length_padded {α : Type} (filler : α) (n : Nat) (xs : List α) :
    (padded filler n xs).length = max n xs.length := by
  simp only [padded, List.length_append, List.length_replicate]
  omega

theorem mem_padded {α : Type} {filler x : α} {n : Nat} {xs : List α}
    (h : x ∈ padded filler n xs) : x ∈ xs ∨ x = filler :=
  (List.mem_append.mp h).imp_right fun h => (List.mem_replicate.mp h).2

/-- Sides that are padded to the same length. -/
theorem balanced_padded {l : Location} {targets values : List Expression} (hl : L l)
    (htargets : targets ≠ [] ∧ ∀ e ∈ targets, e.IsTarget L)
    (hvalues : values ≠ [] ∧ ∀ e ∈ values, e.Proper L) :
    Balanced L (padded (.error l) values.length targets)
      (padded (.error l) targets.length values) where
  length_eq := by rw [length_padded, length_padded, Nat.max_comm]
  nonempty := List.append_ne_nil_of_left_ne_nil htargets.1 _
  targets := by
    intro e he
    rcases mem_padded he with he | rfl
    · exact htargets.2 e he
    · exact hl
  values := by
    refine .inr fun e he => ?_
    rcases mem_padded he with he | rfl
    · exact hvalues.2 e he
    · exact hl

/-- An assignment of one value to one target. -/
theorem balanced_single {target value : Expression} (ht : target.IsTarget L)
    (hv : (∃ l, L l ∧ value = .read l) ∨ value.Proper L) : Balanced L [target] [value] where
  length_eq := rfl
  nonempty := List.cons_ne_nil _ _
  targets := by simpa using ht
  values := by
    rcases hv with ⟨l, hl, rfl⟩ | hv
    · exact .inl ⟨l, hl, rfl⟩
    · exact .inr (by simpa using hv)

theorem assignment_runs :
    Runs n E L (assignment recover) (fun a t => a.Proper L ∧ t.Waits recover) s := by
  refine .attempt (fun l hl => ⟨hl, balanced_single hl (.inr hl)⟩) fun l t _ _ _ => ?_
  refine .bind (.separated (fun _ _ => .demand) fun _ _ => lvalue_runs.post fun _ _ _ h => h.1)
    fun targets u _ htargets => .look fun hu => ?_
  refine .bind .demand fun _ _ _ _ => ?_
  refine .bind (.separated (fun _ _ => .demand) fun _ _ => condition_runs.post fun _ _ _ h => h.1)
    fun values _ _ hvalues => ?_
  refine .bind (.reportUnless hu.within.head) fun _ _ _ _ => .look fun hv => ?_
  exact .pure ⟨hu.within.head, balanced_padded hv.within.head htargets hvalues⟩

/-! ### Simple statements -/

theorem readStatement_runs (hk : s.stream.head.kind = .kwRead) :
    Runs n E L (readStatement recover) (fun a t => a.Proper L ∧ t.Waits recover) s := by
  refine .certainly (KindSet.mem_braces.mpr hk) fun l t hl _ hk => ?_
  refine .bind (.expect (KindSet.mem_braces.mp hk)) fun _ _ _ _ => ?_
  refine .bind lvalue_runs fun target _ _ htarget => ?_
  exact .pure ⟨hl, balanced_single htarget.1 (.inl ⟨l, hl, rfl⟩)⟩

theorem writeStatement_runs (hk : s.stream.head.kind = .kwWrite) :
    Runs n E L (writeStatement recover) (fun a t => a.Proper L ∧ t.Waits recover) s := by
  refine .certainly (KindSet.mem_braces.mpr hk) fun l t hl _ hk => ?_
  refine .bind (.expect (KindSet.mem_braces.mp hk)) fun _ _ _ _ => ?_
  exact .bind expression_runs fun value _ _ hvalue => .pure ⟨hl, hvalue.1⟩

theorem nameAndParens_runs : Runs n E L (nameAndParens recover) (fun _ _ => True) s :=
  .bind .demand fun _ _ _ _ => .bind .demand fun _ _ _ _ => .demand

theorem calledName_runs : Runs n E L calledName (fun _ _ => True) s := by
  refine .look fun _ => ?_
  by_cases hident : s.stream.head.kind = .identifier
  · rw [if_pos (Stream.headIs_iff.mpr hident)]
    have h : Runs n E L (name >>= pure) (fun _ _ => True) s :=
      .name hident fun _ => .pure trivial
    rwa [bind_pure] at h
  · rw [if_neg (mt Stream.headIs_iff.mp hident)]
    exact .pure trivial

theorem callStatement_runs (hk : s.stream.head.kind = .kwCall) :
    Runs n E L (callStatement recover) (fun a t => a.Proper L ∧ t.Waits recover) s := by
  refine .certainly (KindSet.mem_braces.mpr hk) fun l t hl _ hk => ?_
  refine .bind (.expect (KindSet.mem_braces.mp hk)) fun _ _ _ _ => ?_
  refine .bind calledName_runs fun _ _ _ _ => .bind nameAndParens_runs fun _ _ _ _ => ?_
  exact .look fun _ => .pure hl

theorem skipStatement_runs (hk : s.stream.head.kind = .kwSkip) :
    Runs n E L (skipStatement recover) (fun a t => a.Proper L ∧ t.Waits recover) s := by
  refine .certainly (KindSet.mem_braces.mpr hk) fun l t hl _ hk => ?_
  exact .bind (.expect (KindSet.mem_braces.mp hk)) fun _ _ _ _ => .pure hl

/-! ### Statements that hold statements -/

section

variable {statement : KindSet → Reader Statement}
  (hstatement : ∀ r (t : ReaderState),
    Runs n E L (statement r) (fun a u => a.Proper L ∧ u.Waits r) t)
include hstatement

theorem whileStatement_runs (hk : s.stream.head.kind = .kwWhile) :
    Runs n E L (whileStatement statement recover)
      (fun a t => a.Proper L ∧ t.Waits recover) s := by
  refine .certainly (KindSet.mem_braces.mpr hk) fun l t hl _ hk => ?_
  refine .bind (.expect (KindSet.mem_braces.mp hk)) fun _ _ _ _ => ?_
  refine .bind condition_runs fun test _ _ htest => .bind .demand fun _ _ _ _ => ?_
  exact .bind (hstatement _ _) fun body _ _ hbody => .pure ⟨hl, htest.1, hbody.1⟩

theorem ifStatement_runs (hk : s.stream.head.kind = .kwIf) :
    Runs n E L (ifStatement statement recover) (fun a t => a.Proper L ∧ t.Waits recover) s := by
  refine .certainly (KindSet.mem_braces.mpr hk) fun l t hl _ hk => ?_
  refine .bind (.expect (KindSet.mem_braces.mp hk)) fun _ _ _ _ => ?_
  refine .bind condition_runs fun test _ _ htest => .bind .demand fun _ _ _ _ => ?_
  refine .bind (hstatement _ _) fun thenBranch _ _ hthen => .bind .demand fun _ _ _ _ => ?_
  refine .bind (hstatement _ _) fun elseBranch _ _ helse => ?_
  exact .pure ⟨hl, htest.1, hthen.1, helse.1⟩

theorem statementList_runs :
    Runs n E L (statementList statement recover)
      (fun a t => (a.Proper L ∧ a.IsList) ∧ t.Waits recover) s := by
  refine .attempt (fun l hl => ⟨⟨hl, trivial⟩, trivial⟩) fun l t hl _ _ => ?_
  refine .bind (.separated (fun _ hk => .expect hk) fun _ _ => (hstatement _ _).post
    fun _ _ _ h => h.1) fun statements _ _ hstatements => ?_
  exact .pure ⟨⟨hl, Statement.allProper_iff.mpr hstatements.2⟩, trivial⟩

theorem compoundStatement_runs :
    Runs n E L (compoundStatement statement recover)
      (fun a t => (a.Proper L ∧ (a.IsList ∨ a.IsError)) ∧ t.Waits recover) s := by
  refine .attempt (fun l hl => ⟨hl, .inr trivial⟩) fun l t hl _ hk => ?_
  refine .bind (.expect (KindSet.mem_braces.mp hk)) fun _ _ _ _ => ?_
  refine .bind (statementList_runs hstatement) fun list _ _ hlist => ?_
  exact .bind .demand fun _ _ _ _ => .pure ⟨hlist.1.1, .inl hlist.1.2⟩

theorem doBranch_runs :
    Runs n E L (doBranch statement recover) (fun b t => b.Proper L ∧ t.Waits recover) s := by
  refine .attempt (fun l hl => ⟨hl, hl, ⟨hl, trivial⟩, trivial⟩) fun l t hl _ _ => ?_
  refine .bind condition_runs fun test _ _ htest => .bind .demand fun _ _ _ _ => ?_
  refine .bind (statementList_runs hstatement) fun body u _ hbody => .look fun _ => ?_
  by_cases hexit : u.stream.head.kind = .kwExit
  · rw [if_pos (Stream.headIs_iff.mpr hexit)]
    exact .bind (.expect hexit) fun _ _ _ _ => .pure ⟨hl, htest.1, hbody.1⟩
  · rw [if_neg (mt Stream.headIs_iff.mp hexit)]
    exact .pure ⟨hl, htest.1, hbody.1⟩

theorem doStatement_runs (hk : s.stream.head.kind = .kwDo) :
    Runs n E L (doStatement statement recover) (fun a t => a.Proper L ∧ t.Waits recover) s := by
  refine .certainly (KindSet.mem_braces.mpr hk) fun l t hl _ hk => ?_
  refine .bind (.expect (KindSet.mem_braces.mp hk)) fun _ _ _ _ => ?_
  refine .bind (.separated (fun _ hk => .expect hk) fun _ _ => (doBranch_runs hstatement).post
    fun _ _ _ h => h.1) fun branches _ _ hbranches => ?_
  refine .bind .demand fun _ _ _ _ => .pure ⟨hl, hbranches.1, ?_⟩
  exact Branch.allProper_iff.mpr hbranches.2

theorem statementOver_runs :
    Runs n E L (statementOver statement recover)
      (fun a t => a.Proper L ∧ t.Waits recover) s := by
  refine .attempt (fun l hl => hl) fun l t _ _ hk => .look fun _ => ?_
  rcases Starts.mem_statement hk with hk | hk | hk | hk | hk | hk | hk | hk | hk
  · rw [hk]
    exact assignment_runs.post fun _ _ _ h => h.1
  · rw [hk]
    exact (whileStatement_runs hstatement hk).post fun _ _ _ h => h.1
  · rw [hk]
    exact (ifStatement_runs hstatement hk).post fun _ _ _ h => h.1
  · rw [hk]
    exact (readStatement_runs hk).post fun _ _ _ h => h.1
  · rw [hk]
    exact (writeStatement_runs hk).post fun _ _ _ h => h.1
  · rw [hk]
    exact (callStatement_runs hk).post fun _ _ _ h => h.1
  · rw [hk]
    exact (compoundStatement_runs hstatement).post fun _ _ _ h => h.1.1
  · rw [hk]
    exact (skipStatement_runs hk).post fun _ _ _ h => h.1
  · rw [hk]
    exact (doStatement_runs hstatement hk).post fun _ _ _ h => h.1

end

/-- Statements that nest too deeply end the run; all others are read. -/
theorem statementWithin_runs (hdeep : AdmitsTooDeep E) (k : Nat) :
    ∀ (recover : KindSet) (s : ReaderState),
      Runs n E L (statementWithin k recover) (fun a t => a.Proper L ∧ t.Waits recover) s := by
  induction k with
  | zero => exact fun _ _ => .tooDeep hdeep
  | succ k ih => exact fun _ _ => statementOver_runs ih

end PlZero.Grammar
