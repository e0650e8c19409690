/-
  PlZero/Proofs/Acceptance/Declarations.lean
  ==========================================
  **Declarations that are read without a complaint** are derived by the grammar, and their
  constants have no more signs than the nesting allows.
-/
import PlZero.Proofs.Acceptance.Expressions
import PlZero.Proofs.Contract.Declarations

namespace PlZero.Grammar

open Reader

variable {N : Nat} {recover : KindSet} {s : ReaderState}

/-! ### Constants -/

theorem constantOver_reads {operand : KindSet → Reader Constant}
    (hoperand : ∀ r (t : ReaderState), t.nesting = N + 1 → N + 1 ≤ maxNesting →
      Reads (operand r) (fun _ ts => ∃ c : Derivation.Constant,
        N + 1 + c.nesting ≤ maxNesting ∧ ts = c.tokens) t)
    (hle : N ≤ maxNesting) (hN : s.nesting = N) : Reads (constantOver operand recover)
      (fun _ ts => ∃ c : Derivation.Constant,
        N + c.nesting ≤ maxNesting ∧ ts = c.tokens) s := by
  refine .look (.attempt fun l t ht hk => .look ?_)
  rcases Starts.mem_constant hk with hk | hk | hk
  · rw [hk]
    refine .name hk fun x => ?_
    refine ((Reads.expect hk (by decide)).bind fun _ _ _ => .pure).mono ?_
    rintro _ _ ⟨_, _, _, ⟨name, rfl⟩, rfl, rfl⟩
    exact ⟨.name name, hle, rfl⟩
  · rw [hk]
    refine .number hk fun x => ?_
    refine ((Reads.expect hk (by decide)).bind fun _ _ _ => .pure).mono ?_
    rintro _ _ ⟨_, _, _, ⟨number, rfl⟩, rfl, rfl⟩
    exact ⟨.number number, hle, rfl⟩
  · rw [hk]
    refine ((Reads.expect hk (by decide)).bind (B := fun _ _ ts =>
      ∃ c : Derivation.Constant, N + 1 + c.nesting ≤ maxNesting ∧ ts = c.tokens)
      fun _ u hu => .look ?_).mono ?_
    · by_cases hlimit : maxNesting ≤ u.nesting
      · rw [if_pos (decide_eq_true hlimit)]
        refine (Reads.report.bind fun _ _ _ => Reads.skipTo.bind fun _ _ _ => .pure).mono ?_
        rintro _ _ ⟨_, _, _, h, _⟩
        exact h.elim
      · rw [if_neg (by simpa using hlimit)]
        have hu' : u.nesting = N := by rw [hu, ht, hN]
        refine ((Reads.deeper fun v hv => hoperand _ v (by rw [hv, hu']) (by omega)).bind
          fun _ _ _ => .pure).mono ?_
        rintro _ _ ⟨_, _, _, ⟨c, hc, rfl⟩, rfl, rfl⟩
        exact ⟨c, hc, by simp⟩
    · rintro _ _ ⟨_, _, _, ⟨sign, rfl⟩, ⟨c, hc, rfl⟩, rfl⟩
      exact ⟨.negated sign c, by rw [Derivation.Constant.nesting]; omega, rfl⟩

theorem constantWithin_reads (k : Nat) : ∀ (recover : KindSet) (s : ReaderState) (N : Nat),
    s.nesting = N → N ≤ maxNesting → Reads (constantWithin k recover) (fun _ ts =>
      ∃ c : Derivation.Constant, N + c.nesting ≤ maxNesting ∧ ts = c.tokens) s := by
  induction k with
  | zero => exact fun _ _ _ _ _ => .tooDeep
  | succ k ih =>
    intro recover s N hN hle
    exact constantOver_reads (fun r t ht hle' => ih r t (N + 1) ht hle') hle hN

theorem constant_reads (h : s.nesting = 0) : Reads (constant recover)
    (fun _ ts => ∃ c : Derivation.Constant, c.nesting ≤ maxNesting ∧ ts = c.tokens) s :=
  (constantOver_reads (N := 0) (fun r t ht hle => constantWithin_reads maxNesting r t 1 ht hle)
    (Nat.zero_le _) h).mono fun _ _ ⟨c, hc, hts⟩ => ⟨c, by omega, hts⟩

/-! ### Definitions -/

section

variable {β γ : Type} {r : Rule} {sign keyword : Kind} {tokens : γ → List Token}
  {P : γ → Prop}

theorem definition_reads {follow : KindSet} {meaning : KindSet → Reader β}
    {declare : String → Location → β → Reader Unit} (hstart : r.starts = {.identifier})
    (hsign : sign ≠ .endOfFile)
    (hmeaning : ∀ k (t : ReaderState), t.nesting = s.nesting →
      Reads (meaning k) (fun _ ts => ∃ c, P c ∧ ts = tokens c) t)
    (hdeclare : ∀ x l m (t : ReaderState), Reads (declare x l m) (fun _ ts => ts = []) t) :
    Reads (definition r sign follow meaning declare recover) (fun _ ts =>
      ∃ d : Derivation.Definition sign γ, P d.meaning ∧ ts = d.tokens tokens) s := by
  refine .attempt fun l t ht hk => ?_
  have hident : t.stream.head.kind = .identifier := KindSet.mem_braces.mp (hstart ▸ hk)
  refine .name hident fun x => .look ?_
  refine ((Reads.expect hident (by decide)).bind fun _ u hu => (Reads.demand hsign).bind
    fun _ v hv => (hmeaning _ v (by rw [hv, hu, ht])).bind fun m w hw =>
      (hdeclare x _ m w).bind fun _ _ _ => .demand (by decide)).mono ?_
  rintro _ _ ⟨_, _, _, ⟨name, rfl⟩, ⟨_, _, _, ⟨sign, rfl⟩, ⟨_, _, _, ⟨c, hc, rfl⟩,
    ⟨_, _, _, rfl, ⟨semicolon, rfl⟩, rfl⟩, rfl⟩, rfl⟩, rfl⟩
  exact ⟨⟨name, sign, c, semicolon⟩, hc, by simp [Derivation.Definition.tokens]⟩

theorem definitionList_reads {item : KindSet → Reader Unit} (hstart : r.starts = {keyword})
    (hkeyword : keyword ≠ .endOfFile)
    (hitem : ∀ k (t : ReaderState), t.nesting = s.nesting → Reads (item k) (fun _ ts =>
      ∃ d : Derivation.Definition sign γ, P d.meaning ∧ ts = d.tokens tokens) t)
    (hk : s.stream.head.kind = keyword) :
    Reads (definitionList r keyword item recover) (fun _ ts =>
      ∃ d : Derivation.Definitions keyword sign γ,
        (∀ x ∈ d.all, P x.meaning) ∧ ts = d.tokens tokens) s := by
  refine .certainly (by rw [hstart]; simpa using hk) fun l t ht hk => ?_
  have hkeyword' : t.stream.head.kind = keyword := KindSet.mem_braces.mp (hstart ▸ hk)
  refine ((Reads.expect hkeyword' hkeyword).bind fun _ u hu =>
    (hitem _ u (hu.trans ht)).bind fun _ v hv =>
      Reads.whileIn fun _ w hw _ => hitem _ w (by rw [hw, hv, hu, ht])).mono ?_
  rintro _ _ ⟨_, _, _, ⟨keyword, rfl⟩, ⟨_, _, _, ⟨first, hfirst, rfl⟩, ⟨more, hmore, rfl⟩,
    rfl⟩, rfl⟩
  refine ⟨⟨keyword, first, more⟩, ?_, rfl⟩
  intro x hx
  rcases List.mem_cons.mp hx with rfl | hx
  · exact hfirst
  · exact hmore x hx

end

theorem declareConstant_reads {x : String} {l : Location} {tree : Constant} :
    Reads (declareConstant x l tree) (fun _ ts => ts = []) s := by
  refine .look ?_
  cases s.symbols.declareConstant x l tree with
  | error node => exact fun _ => trivial
  | ok outcome =>
    refine (Reads.declared.bind fun _ _ _ => .pure).mono ?_
    rintro _ _ ⟨_, _, _, rfl, rfl, rfl⟩
    rfl

theorem constantDefinition_reads (h : s.nesting = 0) : Reads (constantDefinition recover)
    (fun _ ts => ∃ d : Derivation.Definition .equals Derivation.Constant,
      d.meaning.nesting ≤ maxNesting ∧ ts = d.tokens Derivation.Constant.tokens) s :=
  definition_reads rfl (by decide) (fun _ _ ht => constant_reads (by rw [ht, h]))
    fun _ _ _ _ => declareConstant_reads

theorem constantList_reads (h : s.nesting = 0) (hk : s.stream.head.kind = .kwConst) :
    Reads (constantList recover) (fun _ ts =>
      ∃ d : Derivation.Definitions .kwConst .equals Derivation.Constant,
        (∀ x ∈ d.all, x.meaning.nesting ≤ maxNesting) ∧
          ts = d.tokens Derivation.Constant.tokens) s :=
  definitionList_reads (P := fun c : Derivation.Constant => c.nesting ≤ maxNesting) rfl (by decide)
    (fun _ _ ht => constantDefinition_reads (by rw [ht, h])) hk

/-! ### Types -/

theorem typeIdentifier_reads : Reads (typeIdentifier recover)
    (fun _ ts => ∃ t : Derivation.TokenOf .identifier, ts = [t.val]) s := by
  refine .attempt fun l t _ hk => ?_
  have hident : t.stream.head.kind = .identifier := KindSet.mem_braces.mp hk
  refine .name hident fun x => .look (.look ?_)
  refine ((Reads.expect hident (by decide)).bind fun _ _ _ => .pure).mono ?_
  rintro _ _ ⟨_, _, _, ⟨name, rfl⟩, rfl, rfl⟩
  exact ⟨name, rfl⟩

theorem typeExpr_reads (h : s.nesting = 0) : Reads (typeExpr recover)
    (fun _ ts => ∃ c : Derivation.TypeForm, c.nesting ≤ maxNesting ∧ ts = c.tokens) s := by
  refine .attempt fun l t ht hk => .look ?_
  rcases Starts.mem_type hk with hk | hk
  · rw [hk]
    refine typeIdentifier_reads.mono ?_
    rintro _ _ ⟨name, rfl⟩
    exact ⟨.name name, Nat.zero_le _, rfl⟩
  · rw [hk]
    refine Reads.attempt fun l u hu hk => ?_
    have h₀ : u.nesting = 0 := by rw [hu, ht, h]
    refine ((Reads.expect (KindSet.mem_braces.mp hk) (by decide)).bind fun _ v hv =>
      (constant_reads (hv.trans h₀)).bind fun lower w hw =>
        (Reads.demand (by decide)).bind fun _ x hx =>
          (constant_reads (by rw [hx, hw, hv, h₀])).bind fun upper _ _ =>
            (Reads.demand (by decide)).bind fun _ _ _ => .pure).mono ?_
    rintro _ _ ⟨_, _, _, ⟨opening, rfl⟩, ⟨_, _, _, ⟨lower, hlower, rfl⟩, ⟨_, _, _, ⟨range, rfl⟩,
      ⟨_, _, _, ⟨upper, hupper, rfl⟩, ⟨_, _, _, ⟨closing, rfl⟩, rfl, rfl⟩, rfl⟩, rfl⟩, rfl⟩, rfl⟩
    refine ⟨.subrange opening lower range upper closing, ?_, ?_⟩
    · rw [Derivation.TypeForm.nesting]
      omega
    · simp [Derivation.TypeForm.tokens]

theorem typeDefinition_reads (h : s.nesting = 0) : Reads (typeDefinition recover)
    (fun _ ts => ∃ d : Derivation.Definition .equals Derivation.TypeForm,
      d.meaning.nesting ≤ maxNesting ∧ ts = d.tokens Derivation.TypeForm.tokens) s := by
  refine definition_reads rfl (by decide) (fun _ _ ht => typeExpr_reads (by rw [ht, h]))
    fun _ _ _ _ => .look ?_
  refine (Reads.declared.bind fun _ _ _ => .pure).mono ?_
  rintro _ _ ⟨_, _, _, rfl, rfl, rfl⟩
  rfl

theorem typeList_reads (h : s.nesting = 0) (hk : s.stream.head.kind = .kwType) :
    Reads (typeList recover) (fun _ ts =>
      ∃ d : Derivation.Definitions .kwType .equals Derivation.TypeForm,
        (∀ x ∈ d.all, x.meaning.nesting ≤ maxNesting) ∧
          ts = d.tokens Derivation.TypeForm.tokens) s :=
  definitionList_reads (P := fun c : Derivation.TypeForm => c.nesting ≤ maxNesting) rfl (by decide)
    (fun _ _ ht => typeDefinition_reads (by rw [ht, h])) hk

/-! ### Variables -/

theorem variableDeclaration_reads : Reads (variableDeclaration recover)
    (fun _ ts => ∃ d : Derivation.Definition .colon (Derivation.TokenOf .identifier),
      True ∧ ts = d.tokens fun t => [t.val]) s := by
  refine definition_reads (P := fun _ => True) rfl (by decide) (fun _ _ _ => ?_)
    fun _ _ _ _ => .look ?_
  · refine typeIdentifier_reads.mono ?_
    rintro _ _ ⟨name, rfl⟩
    exact ⟨name, trivial, rfl⟩
  · refine (Reads.declared.bind fun _ _ _ => .pure).mono ?_
    rintro _ _ ⟨_, _, _, rfl, rfl, rfl⟩
    rfl

theorem variableList_reads (hk : s.stream.head.kind = .kwVar) :
    Reads (variableList recover) (fun _ ts =>
      ∃ d : Derivation.Definitions .kwVar .colon (Derivation.TokenOf .identifier),
        ts = d.tokens fun t => [t.val]) s := by
  refine (definitionList_reads (P := fun _ => True) rfl (by decide)
    (fun _ _ _ => variableDeclaration_reads) hk).mono ?_
  rintro _ _ ⟨d, -, rfl⟩
  exact ⟨d, rfl⟩

end PlZero.Grammar
