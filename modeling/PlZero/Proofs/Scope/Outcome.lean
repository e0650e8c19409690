/-
  PlZero/Proofs/Scope/Outcome.lean
  ================================
  **Scopes, procedures and blocks of a program that was read.**  They correspond to each other
  one to one, with any errors in the program: every block has a scope of its own, every scope
  but the predefined one belongs to a procedure, and every procedure has a scope, those that
  are nameless or declared twice as well, and the one that stands for the program.
-/
import PlZero.Proofs.Compilation.Stages
import PlZero.Proofs.Scope.Readers

namespace PlZero

open Grammar Reader SymbolTable

variable {maxDepth : Nat}

/-- The table in which the outermost block is read. -/
def SymbolTable.opened : SymbolTable := (initial.enter mainIndex).2

theorem opened_entries : opened.entries.toList = [
    ⟨"integer", .unknown, 0, 0, .type (.scalar "integer")⟩,
    ⟨"boolean", .unknown, 0, 1, .type (.scalar "boolean")⟩,
    ⟨"false", .unknown, 0, 2, .constant (.number .unknown 0 0) (some 0)⟩,
    ⟨"true", .unknown, 0, 3, .constant (.number .unknown 0 1) (some 1)⟩,
    ⟨mainName, .unknown, 0, 4, .procedure (some 1)⟩] := rfl

theorem opened_houses : opened.Houses mainIndex 1 := ⟨_, _, rfl, rfl, rfl, rfl⟩

/-- What is predefined is in the predefined scope. -/
theorem opened_inScope {i : Nat} {e : Entry} (h : opened.entries[i]? = some e) :
    e.meaning.InScope e.scope := by
  have hall : ∀ e ∈ opened.entries.toList, e.meaning.InScope e.scope := by
    simp [opened_entries, Meaning.InScope, TypeExpr.InScope, Constant.InScope]
  have hmem : e ∈ opened.entries := Array.mem_of_getElem? h
  exact hall e (by simpa using hmem)

/-- The only predefined procedure is the one that stands for the program. -/
theorem opened_procedure {k : Nat} {e : Entry} {scope : Option Nat}
    (h : opened.entries[k]? = some e) (hmeaning : e.meaning = .procedure scope) :
    k = mainIndex := by
  rw [← Array.getElem?_toList, opened_entries] at h
  rcases k with _ | _ | _ | _ | _ | k
  · cases h
    cases hmeaning
  · cases h
    cases hmeaning
  · cases h
    cases hmeaning
  · cases h
    cases hmeaning
  · rfl
  · cases h

/-! ### Programs -/

/-- What a program leaves that is read in the table that it begins with. -/
structure ProgramRead (b : Block) (t : SymbolTable) : Prop where
  scope : b.scope = 1
  registered : opened.Extends t
  numbered : b.preorder.map Block.scope = List.range' 1 (t.scopes.size - 1)
  blocks : ∀ x ∈ b.preorder,
    (∀ p ∈ x.procedures, t.Declares x.scope p) ∧ x.body.InScope x.scope
  entries : ∀ (i : Nat) (e : Entry), t.entries[i]? = some e → e.meaning.InScope e.scope
  owned : ∀ i, 0 < i → i < t.scopes.size → ∃ k, t.Houses k i
  housed : ∀ (k : Nat) (e : Entry) scope, t.entries[k]? = some e →
    e.meaning = .procedure scope → ∃ i, t.Houses k i

theorem programRead_of_block {b : Block} {t u : SymbolTable} (h : BlockRead opened b t)
    (hu : t.leave = some u) : ProgramRead b u := by
  obtain ⟨hscope, hregistered, hbody⟩ := h
  have henclosing : t.enclosing = [0] := hregistered.enclosing
  obtain rfl : { t with current := 0, enclosing := [] } = u := by
    unfold leave at hu
    rw [henclosing] at hu
    exact Option.some.inj hu
  have hscopes : opened.scopes.size = 2 := rfl
  have hlarger := hregistered.extended.scopeCount
  have hmain : t.Houses mainIndex 1 := opened_houses.mono hregistered.extended
  obtain ⟨l, scope, procedures, body⟩ := b
  obtain rfl : scope = 1 := hscope
  refine ⟨rfl, ⟨?_, ?_, ?_, ?_⟩, ?_, ?_, ?_, ?_, ?_⟩
  · exact hregistered.extended.scopes
  · exact hregistered.extended.entries
  · exact hregistered.extended.scopeCount
  · exact hregistered.extended.entryCount
  · have hlength : t.scopes.size - 1 = (t.scopes.size - opened.scopes.size) + 1 := by omega
    rw [Block.preorder, List.map_cons, hlength, List.range'_succ]
    exact congrArg _ hregistered.numbered
  · intro x hx
    rw [Block.preorder] at hx
    rcases List.mem_cons.mp hx with rfl | hx
    · exact ⟨hregistered.declared, hbody⟩
    · exact hregistered.inside x hx
  · intro i e he
    by_cases hi : i < opened.entries.size
    · have hopened := hregistered.extended.entries i _ (Array.getElem?_eq_getElem hi)
      obtain rfl := Option.some.inj (hopened.symm.trans he)
      exact opened_inScope (Array.getElem?_eq_getElem hi)
    · exact hregistered.entries i e (Nat.le_of_not_lt hi) he
  · intro i hpos hi
    by_cases hone : i = 1
    · subst hone
      exact ⟨mainIndex, hmain⟩
    · exact hregistered.owned i (by omega) hi
  · intro k e scope he hmeaning
    by_cases hk : k < opened.entries.size
    · have hopened := hregistered.extended.entries k _ (Array.getElem?_eq_getElem hk)
      obtain rfl := Option.some.inj (hopened.symm.trans he)
      obtain rfl := opened_procedure (Array.getElem?_eq_getElem hk) hmeaning
      exact ⟨1, hmain⟩
    · exact hregistered.housed k e scope (Nat.le_of_not_lt hk) he hmeaning

theorem program_leaves {recover : KindSet} :
    Leaves initial (program maxDepth recover) fun p t => ProgramRead p.block t := by
  have hblock : Leaves initial (inScope mainIndex fun scope =>
      attempt .program recover (fun l => .mk l scope [] (.error l)) fun _ =>
        blockWithin maxDepth scope recover) ProgramRead := by
    apply Leaves.inScope
    have hread : Leaves opened (attempt .program recover
        (fun l => .mk l opened.current [] (.error l)) fun _ =>
          blockWithin maxDepth opened.current recover) (BlockRead opened) := by
      apply Leaves.attempt
      · intro l
        exact ⟨rfl, .refl opened, trivial⟩
      · intro l
        exact blockWithin_leaves maxDepth recover opened
    exact hread.post fun b t hb u hu => programRead_of_block hb hu
  exact hblock.bind fun b t hb => .pure hb

theorem wholeProgram_leaves (maxDepth : Nat) :
    Leaves initial (wholeProgram maxDepth) fun p t => ProgramRead p.block t := by
  apply Leaves.still .note
  intro _
  apply program_leaves.bind
  intro p t hp
  apply Leaves.look
  intro errors
  exact .still .note fun _ => .pure hp

/-- On any input whose reading comes to an end, the scopes other than the predefined one are
    those of the blocks, numbered in the order in which the blocks begin, and those of the
    procedures, each of which owns the scope that it names.  The procedures of a block are
    recorded as the tree says, and every scope number in a body and in what an entry stands
    for is that of the scope in which it was read. -/
theorem parse_scopes {scans : List Scan} {j : Journal} {p : Parsed}
    (h : parse maxDepth scans j = .ok p) :
    p.program.block.preorder.map Block.scope = List.range' 1 (p.symbols.scopes.size - 1) ∧
    (∀ i, 0 < i → i < p.symbols.scopes.size → ∃! k, p.symbols.Houses k i) ∧
    (∀ (k : Nat) (e : Entry) scope, p.symbols.entries[k]? = some e →
      e.meaning = .procedure scope → ∃! i, p.symbols.Houses k i) ∧
    (∀ k i, p.symbols.Houses k i → 0 < i ∧ i < p.symbols.scopes.size) ∧
    (∃ e, p.symbols.entries[mainIndex]? = some e ∧ e.name = mainName ∧
      p.symbols.Houses mainIndex p.program.block.scope) ∧
    (∀ b ∈ p.program.block.preorder, ∀ d ∈ b.procedures, p.symbols.Declares b.scope d) ∧
    (∀ b ∈ p.program.block.preorder, b.body.InScope b.scope) ∧
    ∀ (i : Nat) (e : Entry), p.symbols.entries[i]? = some e → e.meaning.InScope e.scope := by
  have hread : ProgramRead p.program.block p.symbols := by
    obtain ⟨stream, s, -, hm, hsymbols, -⟩ := parse_ok h
    have hleaves := wholeProgram_leaves maxDepth ⟨stream, .initial, 0⟩ rfl
    unfold Ends at hleaves
    rw [hm] at hleaves
    rw [hsymbols]
    exact hleaves
  generalize p.symbols = t at hread ⊢
  refine ⟨hread.numbered, ?_, ?_, ?_, ?_, ?_, ?_, hread.entries⟩
  · intro i hpos hi
    obtain ⟨k, hk⟩ := hread.owned i hpos hi
    exact ⟨k, hk, fun k' hk' => hk'.unique_left hk⟩
  · intro k e scope he hmeaning
    obtain ⟨i, hi⟩ := hread.housed k e scope he hmeaning
    exact ⟨i, hi, fun i' hi' => hi'.unique_right hi⟩
  · intro k i hhouses
    obtain ⟨-, s, -, -, hs, howner⟩ := hhouses
    refine ⟨Nat.pos_of_ne_zero ?_, (Array.getElem?_eq_some_iff.mp hs).1⟩
    -- nothing owns the predefined scope
    rintro rfl
    obtain ⟨names, hzero⟩ := hread.registered.scopes 0 ⟨0, none, none, 0, _⟩ rfl
    rw [hs] at hzero
    obtain rfl := Option.some.inj hzero
    cases howner
  · refine ⟨_, hread.registered.entries mainIndex _ rfl, rfl, ?_⟩
    rw [hread.scope]
    exact opened_houses.mono hread.registered
  · exact fun b hb => (hread.blocks b hb).1
  · exact fun b hb => (hread.blocks b hb).2

/-- The hypothesis of `parse_scopes` holds of a program that declares a procedure twice, the
    second time with a nameless procedure inside. -/
theorem parse_scopes_twice :
    let source := "procedure p() = begin skip end; procedure p() = procedure () = begin x := y " ++
      "end; begin call q() end; begin call p() end"
    ∃ p, parse 1000 (scan source.toList "a.pl0") [] = .ok p ∧
      p.program.block.preorder.map Block.scope = [1, 2, 3, 4] ∧
      ∃! k, p.symbols.Houses k 4 := by
  intro source
  have hsize : ((parse 1000 (scan source.toList "a.pl0") []).map
      fun p => p.symbols.scopes.size).toOption = some 5 := by decide +kernel
  cases hp : parse 1000 (scan source.toList "a.pl0") [] with
  | error e =>
    rw [hp] at hsize
    cases hsize
  | ok p =>
    rw [hp] at hsize
    have hcount : p.symbols.scopes.size = 5 := Option.some.inj hsize
    obtain ⟨hnumbered, howned, -⟩ := parse_scopes hp
    rw [hcount] at hnumbered howned
    exact ⟨p, rfl, hnumbered, howned 4 (by decide) (by decide)⟩

end PlZero
