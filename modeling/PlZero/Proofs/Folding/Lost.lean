/-
  PlZero/Proofs/Folding/Lost.lean
  ===============================
  **Constants that stand for a placeholder.**  A constant is lost if there is a placeholder
  behind its signs, or a name that refers to a lost constant.  It has no value then
  (`Lost.value`).  Where two tables match but for placeholders in the one, every constant of it
  that is not lost has the value that it has in the other (`Matched.value`).
-/
import PlZero.Proofs.Derivation.Redrawn
import PlZero.Proofs.Folding.Stored

namespace PlZero.SymbolTable

variable {R : Nat → Constant → Constant → Prop} {t t' : SymbolTable} {k : Nat} {e e' : Entry}

/-- The constant of an entry stands for a placeholder, be it by way of names that referred to
    other constants when it was declared. -/
inductive Lost (t : SymbolTable) : Nat → Prop
  | placeholder {k : Nat} {e : Entry} {tree : Constant} {value : Option Int} {l : Location}
      (entry : t.entries[k]? = some e) (meaning : e.meaning = .constant tree value)
      (base : tree.base = .error l e.scope) : Lost t k
  | name {k i : Nat} {e : Entry} {tree : Constant} {value : Option Int} {l : Location}
      {name : String} (entry : t.entries[k]? = some e) (meaning : e.meaning = .constant tree value)
      (base : tree.base = .named l e.scope name)
      (refers : (t.before k).lookupIndex e.scope name = some i) (lost : Lost t i) : Lost t k

/-- A constant that is lost has no value. -/
theorem Lost.value (hfolded : t.Folded) (h : t.Lost k) (he : t.entries[k]? = some e) :
    e.value? = none := by
  induction h generalizing e with
  | placeholder entry meaning base =>
    obtain rfl := Option.some.inj (entry.symm.trans he)
    have hvalue := (hfolded _ _ _ _ entry meaning).folded
    rw [base] at hvalue
    simpa [Entry.value?, meaning, baseValue] using hvalue
  | @name k i e₀ tree value l name entry meaning base refers lost ih =>
    obtain rfl := Option.some.inj (entry.symm.trans he)
    have hvalue := (hfolded _ _ _ _ entry meaning).folded
    have hnone : (t.before k).baseValue e₀.scope (.named l e₀.scope name) = none := by
      rw [baseValue, lookupIn, refers, Option.bind_some, before_entries]
      split
      · cases hx : t.entries[i]? with
        | none => rfl
        | some x => exact ih hx
      · rfl
    rw [base, hnone] at hvalue
    simpa [Entry.value?, meaning] using hvalue

theorem Matched.before {R : Entry → Entry → Prop} (h : t.Matched R t') (k : Nat) :
    (t.before k).Matched R (t'.before k) := by
  refine ⟨?_, ?_, h.current, h.enclosing⟩
  · unfold SymbolTable.before
    rw [h.scopes]
  · simpa [SymbolTable.before] using List.forall₂_take k h.entries

/-- A name stood for the same value when a constant was declared, unless it referred to an entry
    that has another value. -/
theorem Matched.value_before {R : Entry → Entry → Prop} (h : t.Matched R t') {scope : Nat}
    {name : String} (hvalue : ∀ i x x', i < k → (t.before k).lookupIndex scope name = some i →
      t.entries[i]? = some x → t'.entries[i]? = some x' → x.value? = x'.value?) :
    ((t.before k).lookupIn scope name).bind Entry.value? =
      ((t'.before k).lookupIn scope name).bind Entry.value? := by
  unfold SymbolTable.lookupIn
  rw [← (h.before k).lookupIndex]
  cases hi : (t.before k).lookupIndex scope name with
  | none => rfl
  | some i =>
    rw [Option.bind_some, Option.bind_some, before_entries, before_entries]
    split
    · rename_i hlt
      have hentry := h.entry i
      have hsame := fun x x' => hvalue i x x' hlt hi
      generalize t.entries[i]? = found at hentry hsame ⊢
      generalize t'.entries[i]? = found' at hentry hsame ⊢
      cases hentry with
      | none => rfl
      | some _ => exact hsame _ _ rfl rfl
    · rfl

/-- Where the trees of constants differ in placeholders alone, a constant that is not lost has
    its value in both tables. -/
theorem Matched.value (hR : ∀ scope c c', R scope c c' → c = c' ∨ ∃ l, c.base = .error l scope)
    (hfolded : t.Folded) (hfolded' : t'.Folded) (h : t.Matched (Entry.Redrawn R) t') :
    ∀ {k : Nat} {e e' : Entry}, t.entries[k]? = some e → t'.entries[k]? = some e' →
      ¬t.Lost k → e.value? = e'.value? := by
  intro k
  induction k using Nat.strongRecOn with
  | ind k ih =>
    intro e e' he he' hlost
    have hentry := h.entry k
    rw [he, he', Option.rel_some_some] at hentry
    have hmeaning := hentry.meaning
    generalize hm : e.meaning = m at hmeaning
    generalize hm' : e'.meaning = m' at hmeaning
    cases hmeaning with
    | same => simp only [Entry.value?, hm, hm']
    | subrange lower upper => simp only [Entry.value?, hm, hm']
    | @constant c c' tree value value' =>
      rcases hR e.scope c c' tree with rfl | ⟨l, hplaceholder⟩
      · obtain ⟨-, hwritten, hvalue⟩ := hfolded k e c value he hm
        obtain ⟨-, -, hvalue'⟩ := hfolded' k e' c value' he' hm'
        simp only [Entry.value?, hm, hm', hvalue, hvalue', ← hentry.scope]
        congr 1
        rcases hwritten.base_cases with ⟨l, v, hbase⟩ | ⟨l, name, hbase⟩ | ⟨l, hbase⟩
        · rw [hbase]
          rfl
        · rw [hbase]
          apply h.value_before
          exact fun i x x' hlt hi hx hx' =>
            ih i hlt hx hx' fun hlostx => hlost (.name he hm hbase hi hlostx)
        · rw [hbase]
          rfl
      · exact absurd (.placeholder he hm hplaceholder) hlost

end PlZero.SymbolTable
