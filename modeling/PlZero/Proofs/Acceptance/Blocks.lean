/-
  PlZero/Proofs/Acceptance/Blocks.lean
  ====================================
  **Blocks that are read without a complaint** are derived by the grammar, and so are whole
  programs.
-/
import PlZero.Proofs.Acceptance.Declarations
import PlZero.Proofs.Acceptance.Statements
import PlZero.Proofs.Contract.Blocks

namespace PlZero.Grammar

open Reader

variable {recover : KindSet} {s : ReaderState} {maxDepth : Nat}

theorem detachedProcedure_reads {x : String} {l : Location} :
    Reads (detachedProcedure x l) (fun _ ts => ts = []) s := by
  refine .look ((Reads.setSymbols.bind fun _ _ _ => .pure).mono ?_)
  rintro _ _ ⟨_, _, _, rfl, rfl, rfl⟩
  rfl

/-- Declaring a procedure takes no token. -/
theorem procedureEntry_reads : Reads procedureEntry (fun _ ts => ts = []) s := by
  refine .look (.look ?_)
  by_cases hident : s.stream.head.kind = .identifier
  · rw [if_pos (Stream.headIs_iff.mpr hident)]
    refine .name hident fun x => .look ?_
    refine (Reads.declared.bind (B := fun _ _ ts => ts = []) fun added t _ => ?_).mono ?_
    · cases added with
      | some entry => exact .pure
      | none => exact detachedProcedure_reads
    · rintro _ _ ⟨_, _, _, rfl, rfl, rfl⟩
      rfl
  · rw [if_neg (mt Stream.headIs_iff.mp hident)]
    exact detachedProcedure_reads

theorem procedureHeader_reads (hk : s.stream.head.kind = .kwProcedure) :
    Reads (procedureHeader recover) (fun _ ts => ∃ (keyword : Derivation.TokenOf .kwProcedure)
      (name : Derivation.TokenOf .identifier) (opening : Derivation.TokenOf .leftParen)
      (closing : Derivation.TokenOf .rightParen),
      ts = [keyword.val, name.val, opening.val, closing.val]) s := by
  refine .certainly (KindSet.mem_braces.mpr hk) fun l t _ hk => ?_
  refine ((Reads.expect (KindSet.mem_braces.mp hk) (by decide)).bind fun _ _ _ =>
    procedureEntry_reads.bind fun _ _ _ => nameAndParens_reads.bind
      fun _ _ _ => .pure).mono ?_
  rintro _ _ ⟨_, _, _, ⟨keyword, rfl⟩, ⟨_, _, _, rfl, ⟨_, _, _, ⟨name, opening, closing, rfl⟩,
    rfl, rfl⟩, rfl⟩, rfl⟩
  exact ⟨keyword, name, opening, closing, rfl⟩

section

variable {block : Nat → KindSet → Reader Block}
  (hblock : ∀ scope r (t : ReaderState), t.nesting = 0 → Reads (block scope r) (fun _ ts =>
    ∃ c : Derivation.Block, c.nesting ≤ maxNesting ∧ ts = c.tokens) t)
  (h : s.nesting = 0)
include hblock h

theorem procedureDefinition_reads (hk : s.stream.head.kind = .kwProcedure) :
    Reads (procedureDefinition block recover) (fun _ ts =>
      ∃ c : Derivation.Declaration, c.nesting ≤ maxNesting ∧ ts = c.tokens) s := by
  refine .certainly (KindSet.mem_braces.mpr hk) fun l t ht hk => ?_
  have h₀ : t.nesting = 0 := ht.trans h
  refine ((procedureHeader_reads (KindSet.mem_braces.mp hk)).bind fun entry u hu =>
    (Reads.inScope fun scope v hv => (Reads.demand (by decide)).bind fun _ w hw =>
      hblock scope _ w (by rw [hw, hv, hu, h₀])).bind fun _ _ _ =>
        (Reads.demand (by decide)).bind fun _ _ _ => .pure).mono ?_
  rintro _ _ ⟨_, _, _, ⟨keyword, name, opening, closing, rfl⟩, ⟨_, _, _,
    ⟨_, _, _, ⟨sign, rfl⟩, ⟨c, hc, rfl⟩, rfl⟩, ⟨_, _, _, ⟨semicolon, rfl⟩, rfl, rfl⟩, rfl⟩, rfl⟩
  exact ⟨.procedure keyword name opening closing sign c semicolon, hc,
    by simp [Derivation.Declaration.tokens]⟩

theorem declaration_reads (hk : s.stream.head.kind ∈ Starts.declaration) :
    Reads (declaration block recover) (fun _ ts =>
      ∃ c : Derivation.Declaration, c.nesting ≤ maxNesting ∧ ts = c.tokens) s := by
  refine .certainly hk fun l t ht hk => .look ?_
  have h₀ : t.nesting = 0 := ht.trans h
  rcases Starts.mem_declaration hk with hk | hk | hk | hk
  · rw [hk]
    refine ((constantList_reads h₀ hk).bind fun _ _ _ => .pure).mono ?_
    rintro _ _ ⟨_, _, _, ⟨d, hd, rfl⟩, rfl, rfl⟩
    exact ⟨.constantList d, Derivation.most_le hd, by simp [Derivation.Declaration.tokens]⟩
  · rw [hk]
    refine ((typeList_reads h₀ hk).bind fun _ _ _ => .pure).mono ?_
    rintro _ _ ⟨_, _, _, ⟨d, hd, rfl⟩, rfl, rfl⟩
    exact ⟨.typeList d, Derivation.most_le hd, by simp [Derivation.Declaration.tokens]⟩
  · rw [hk]
    refine ((variableList_reads hk).bind fun _ _ _ => .pure).mono ?_
    rintro _ _ ⟨_, _, _, ⟨d, rfl⟩, rfl, rfl⟩
    exact ⟨.variableList d, Nat.zero_le _, by simp [Derivation.Declaration.tokens]⟩
  · rw [hk]
    refine ((procedureDefinition_reads hblock h₀ hk).bind fun _ _ _ => .pure).mono ?_
    rintro _ _ ⟨_, _, _, ⟨c, hc, rfl⟩, rfl, rfl⟩
    exact ⟨c, hc, by simp⟩

theorem blockOver_reads {statement : KindSet → Reader Statement} {scope : Nat}
    (hstatement : ∀ r (t : ReaderState), t.nesting = 0 → Reads (statement r) (fun _ ts =>
      ∃ c : Derivation.Statement, c.nesting ≤ maxNesting ∧ ts = c.tokens) t) :
    Reads (blockOver statement block scope recover) (fun _ ts =>
      ∃ c : Derivation.Block, c.nesting ≤ maxNesting ∧ ts = c.tokens) s := by
  refine .attempt fun l t ht _ => ?_
  have h₀ : t.nesting = 0 := ht.trans h
  refine ((Reads.whileIn (P := fun c : Derivation.Declaration => c.nesting ≤ maxNesting)
    (T := Derivation.Declaration.tokens) fun found u hu hin => ?_).bind fun _ v hv =>
      (compoundStatement_reads hstatement (by rw [hv, h₀])).bind fun _ _ _ => .pure).mono ?_
  · refine ((declaration_reads hblock (hu.trans h₀) hin).bind (B := fun _ _ ts => ts = [])
      fun p _ _ => ?_).mono ?_
    · cases p <;> exact .pure
    · rintro _ _ ⟨_, _, _, ⟨c, hc, rfl⟩, rfl, rfl⟩
      exact ⟨c, hc, by simp⟩
  · rintro _ _ ⟨_, _, _, ⟨declarations, hdeclarations, rfl⟩, ⟨_, _, _, ⟨body, hbody, rfl⟩,
      rfl, rfl⟩, rfl⟩
    refine ⟨.mk declarations body, ?_, ?_⟩
    · rw [Derivation.Block.nesting, Derivation.Declaration.nestingAll_eq]
      exact Nat.max_le.mpr ⟨Derivation.most_le hdeclarations, hbody⟩
    · rw [Derivation.Block.tokens, Derivation.Declaration.tokensAll_eq, List.append_nil]

end

theorem blockWithin_reads (k : Nat) : ∀ (scope : Nat) (recover : KindSet) (s : ReaderState),
    s.nesting = 0 → Reads (blockWithin k scope recover) (fun _ ts =>
      ∃ c : Derivation.Block, c.nesting ≤ maxNesting ∧ ts = c.tokens) s := by
  induction k with
  | zero => exact fun _ _ _ _ => .tooDeep
  | succ k ih => exact fun _ _ _ h => blockOver_reads ih h (statementWithin_reads k)

/-- A program that is read without a complaint is derived by the grammar. -/
theorem wholeProgram_reads (maxDepth : Nat) (h : s.nesting = 0) :
    Reads (wholeProgram maxDepth) (fun _ ts =>
    ∃ c : Derivation.Block, c.nesting ≤ maxNesting ∧ ts = c.tokens) s := by
  have hprogram : ∀ (r : KindSet) (t : ReaderState), t.nesting = 0 → Reads (program maxDepth r)
      (fun _ ts => ∃ c : Derivation.Block, c.nesting ≤ maxNesting ∧ ts = c.tokens) t := by
    intro r t ht
    refine ((Reads.inScope fun scope u hu => .attempt fun _ v hv _ =>
      blockWithin_reads maxDepth scope r v (by rw [hv, hu, ht])).bind fun _ _ _ => .pure).mono ?_
    rintro _ _ ⟨_, _, _, ⟨c, hc, rfl⟩, rfl, rfl⟩
    exact ⟨c, hc, by simp⟩
  refine (Reads.note.bind fun _ t ht => (hprogram _ t (ht.trans h)).bind
    (B := fun _ _ ts => ts = []) fun p u _ => .look ?_).mono ?_
  · refine (Reads.note.bind fun _ _ _ => .pure).mono ?_
    rintro _ _ ⟨_, _, _, rfl, rfl, rfl⟩
    rfl
  · rintro _ _ ⟨_, _, _, rfl, ⟨_, _, _, ⟨c, hc, rfl⟩, rfl, rfl⟩, rfl⟩
    exact ⟨c, hc, by simp⟩

end PlZero.Grammar
