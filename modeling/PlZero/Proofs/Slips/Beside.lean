/-
  PlZero/Proofs/Slips/Beside.lean
  ===============================
  **Two runs through a script.**  One run reads the tokens that were meant, and the other those
  that were typed.  `Beside` relates two states that stand at the same place of the script: as
  many rules and parentheses are open, the tables are alike, and what was reported in the second
  is what was reported in the first and one diagnostic for each slip that was passed.

  The second run stands before strays, or before the next token as it was typed (`At`).  It gets
  from one to the other wherever it looks for the token that was meant (`Careful.settle`).
-/
import PlZero.Grammar.Reading
import PlZero.Proofs.Reading.Ends
import PlZero.Proofs.Scope.Alike
import PlZero.Proofs.Slips.Strays

namespace PlZero

variable {D : Draft} {lead : Lead} {stroke stroke' : Stroke} {script : List Stroke} {K : KindSet}
  {s s' : ReaderState} {v v' : Stream}

/-! ### Accounts -/

/-- What is told of the slips that are passed, where those of a script are still ahead. -/
def Draft.Accounted (D : Draft) (script : List Stroke) (ds ds' : List Diagnostic) : Prop :=
  ∃ told, told.reverse ++ Slip.ofScript script = D.slips ∧ Told D.level told ds ds'

theorem Told.slips {level : Location → Location → Prop} {xs told : List Slip}
    {ds ds' found : List Diagnostic} (h : Told level told ds ds')
    (hfound : List.Forall₂ Slip.Reported xs found) : Told level (xs ++ told) ds (found ++ ds') := by
  induction hfound with
  | nil => exact h
  | cons hx _ ih => exact ih.slip hx

/-- Slips that are reported when they are passed, latest first. -/
theorem Draft.Accounted.passed {xs : List Slip} {more : List Stroke}
    {ds ds' found : List Diagnostic} (h : D.Accounted script ds ds')
    (hscript : Slip.ofScript script = xs ++ Slip.ofScript more)
    (hfound : List.Forall₂ Slip.Reported xs.reverse found) :
    D.Accounted more ds (found ++ ds') := by
  obtain ⟨told, hall, htold⟩ := h
  refine ⟨xs.reverse ++ told, ?_, htold.slips hfound⟩
  rw [← hall, hscript, List.reverse_append, List.reverse_reverse, List.append_assoc]

theorem reverse_ofStrays (strays : List Token) :
    (Slip.ofStrays strays).reverse = Slip.ofStrays strays := by
  cases strays <;> rfl

/-! ### Steps of a script -/

/-- The script begins with a token before which no strays stand and whose kind is in a set. -/
def At (K : KindSet) (script : List Stroke) : Prop :=
  ∃ stroke ∈ script.head?, stroke.strays = [] ∧ stroke.meant.kind ∈ K

theorem at_cons : At K (stroke :: script) ↔ stroke.strays = [] ∧ stroke.meant.kind ∈ K := by
  simp [At]

/-- A token as it was typed, if it was typed as it was meant and no strays stand before it. -/
theorem Draft.Forgives.exact {next : Option Stroke} (h : D.Forgives lead next stroke)
    (hstrays : stroke.strays = []) (hassign : stroke.meant.kind ≠ .assign)
    (hlead : lead ≠ .head) : stroke = .plain [] stroke.meant := by
  cases stroke with
  | plain strays t =>
    obtain rfl : strays = [] := hstrays
    rfl
  | mistyped m t => exact absurd h.1 hassign
  | dropped m => exact absurd h.2.1 hlead

/-- What was typed behind a token where a token of a kind in `S` must stand, and no strays. -/
theorem Draft.Careful.typed_next {S : KindSet} (h : D.Careful lead (stroke :: script))
    (hfollows : lead.Follows ((stroke :: script).map Stroke.meant))
    (hafter : lead.after stroke.meant.kind = .nothing) (hne : stroke.meant.kind ≠ .endOfFile)
    (hstrays : ∀ next ∈ script.head?, next.strays = []) (hS : .assign ∉ S)
    (hnext : ∀ t ∈ (script.map Stroke.meant).head?, t.kind ∈ S) :
    ∃ u us, script.flatMap Stroke.typed = u :: us ∧ u.kind ∈ S := by
  obtain ⟨-, -, -, hbehind⟩ := hfollows
  obtain ⟨-, hmore⟩ := h
  rw [if_neg hne, hafter] at hbehind
  rw [hafter] at hmore
  cases script with
  | nil => exact hbehind.elim
  | cons next more =>
    have hkind : next.meant.kind ∈ S := hnext _ rfl
    have hplain := hmore.1.exact (hstrays next rfl) (fun hk => hS (hk ▸ hkind)) nofun
    refine ⟨next.meant, more.flatMap Stroke.typed, ?_, hkind⟩
    rw [List.flatMap_cons, hplain]
    rfl

/-- Where the `=` behind the head of a procedure was not typed, its block stands there. -/
theorem Draft.Careful.typed_block {m : Token} (h : D.Careful lead (.dropped m :: script))
    (hfollows : lead.Follows ((Stroke.dropped m :: script).map Stroke.meant)) :
    ∃ u us, script.flatMap Stroke.typed = u :: us ∧ u.kind ∈ Starts.block := by
  obtain ⟨hequals, hlead, hstrays⟩ := h.1
  have hkind : (Stroke.dropped m).meant.kind = .equals := hequals
  refine h.typed_next hfollows ?_ ?_ hstrays (by decide) (hfollows.2.2.1 hlead hequals)
  · rw [hkind, hlead]
    rfl
  · rw [hkind]
    decide

/-- Where `:=` was mistyped, a condition stands behind. -/
theorem Draft.Careful.typed_value {m t : Token} (h : D.Careful lead (.mistyped m t :: script))
    (hfollows : lead.Follows ((Stroke.mistyped m t :: script).map Stroke.meant)) :
    ∃ u us, script.flatMap Stroke.typed = u :: us ∧ u.kind ∈ Starts.condition := by
  obtain ⟨hassign, -, -, hstrays⟩ := h.1
  have hkind : (Stroke.mistyped m t).meant.kind = .assign := hassign
  refine h.typed_next hfollows ?_ ?_ hstrays (by decide) (hfollows.2.1 hassign)
  · rw [hkind]
    cases lead <;> rfl
  · rw [hkind]
    decide

/-- How the strays before a token are passed: what was typed begins with them, and goes on with
    a token of a kind in `K`, which is the one that was meant, or stands in its place. -/
structure Passage (D : Draft) (lead : Lead) (K : KindSet) (script : List Stroke)
    (stroke : Stroke) (strays : List Token) (t : Token) (us : List Token)
    (stroke' : Stroke) : Prop where
  typed : (stroke :: script).flatMap Stroke.typed = strays ++ t :: us
  illegal : ∀ u ∈ strays, u.kind = .illegal
  kind : t.kind ∈ K
  behind : (stroke' :: script).flatMap Stroke.typed = t :: us
  meant : stroke'.meant = stroke.meant
  clear : stroke'.strays = []
  forgiven : D.Forgives lead script.head? stroke'
  slips : Slip.ofScript (stroke :: script) =
    Slip.ofStrays strays ++ Slip.ofScript (stroke' :: script)

theorem Draft.Careful.settle (h : D.Careful lead (stroke :: script))
    (hfollows : lead.Follows ((stroke :: script).map Stroke.meant)) (hk : stroke.meant.kind ∈ K)
    (hassign : .assign ∈ K → .equals ∈ K)
    (hhead : lead = .head → .equals ∈ K → ∀ k ∈ Starts.block, k ∈ K) :
    ∃ strays t us stroke', Passage D lead K script stroke strays t us stroke' := by
  obtain ⟨hforgiven, hmore⟩ := h
  have hnone : ∀ u ∈ ([] : List Token), u.kind = .illegal := fun _ hu => absurd hu List.not_mem_nil
  cases stroke with
  | plain strays t =>
    refine ⟨strays, t, script.flatMap Stroke.typed, .plain [] t, ?_, hforgiven.1, hk, rfl, rfl, rfl,
      Draft.forgives_exact, rfl⟩
    simp [Stroke.typed]
  | mistyped m t =>
    have hkind : t.kind ∈ K := hforgiven.2.1 ▸ hassign (hforgiven.1 ▸ hk)
    exact ⟨[], t, script.flatMap Stroke.typed, .mistyped m t, rfl, hnone, hkind, rfl, rfl, rfl,
      hforgiven, rfl⟩
  | dropped m =>
    obtain ⟨u, us, htyped, hu⟩ := Draft.Careful.typed_block ⟨hforgiven, hmore⟩ hfollows
    have hequals : .equals ∈ K := hforgiven.1 ▸ hk
    exact ⟨[], u, us, .dropped m, htyped, hnone, hhead hforgiven.2.1 hequals _ hu, htyped, rfl,
      rfl, hforgiven, rfl⟩

/-- What was typed does not come to an end before the script does. -/
theorem Draft.Careful.typed_ne_nil (h : D.Careful lead script)
    (hfollows : lead.Follows (script.map Stroke.meant)) : script.flatMap Stroke.typed ≠ [] := by
  cases script with
  | nil => exact hfollows.elim
  | cons stroke more =>
    cases stroke with
    | plain strays t => simp [Stroke.typed]
    | mistyped m t => simp [Stroke.typed]
    | dropped m =>
      obtain ⟨u, us, htyped, -⟩ := h.typed_block hfollows
      rw [List.flatMap_cons, htyped]
      exact List.cons_ne_nil _ _

/-! ### States -/

/-- Two states at one place of a script. -/
structure Beside (D : Draft) (lead : Lead) (script : List Stroke) (s s' : ReaderState) :
    Prop where
  follows : lead.Follows (script.map Stroke.meant)
  careful : D.Careful lead script
  meant : s.stream.Holds (script.map Stroke.meant)
  typed : s'.stream.Holds (script.flatMap Stroke.typed)
  rules : s'.stream.rules = s.stream.rules
  symbols : s.symbols.Alike D.near s'.symbols
  nesting : s'.nesting = s.nesting
  told : D.Accounted script s.stream.reports s'.stream.reports

/-- The script of two states has a first token, which is the head of the first. -/
theorem Beside.cons (h : Beside D lead script s s') :
    ∃ stroke more, script = stroke :: more ∧ s.stream.head = stroke.meant := by
  cases script with
  | nil => exact h.follows.elim
  | cons stroke more => exact ⟨stroke, more, rfl, h.meant.head⟩

/-- A rule is opened, or closed, in both runs. -/
theorem Beside.opened (h : Beside D lead script s s') (rule : String) : Beside D lead script
    (s.withStream (s.stream.opened rule)) (s'.withStream (s'.stream.opened rule)) :=
  ⟨h.follows, h.careful, h.meant, h.typed, congrArg (rule :: ·) h.rules, h.symbols, h.nesting,
    h.told⟩

theorem Beside.closed (h : Beside D lead script s s') (rule : String) : Beside D lead script
    (s.withStream (s.stream.closed rule)) (s'.withStream (s'.stream.closed rule)) :=
  ⟨h.follows, h.careful, h.meant, h.typed, congrArg List.tail h.rules, h.symbols, h.nesting,
    h.told⟩

/-- The second run passes strays. -/
theorem Beside.over {strays us : List Token} {t : Token}
    (h : Beside D lead (stroke :: script) s s')
    (hpassage : Passage D lead K script stroke strays t us stroke')
    (hover : Stream.Over strays (t :: us) s'.stream v) :
    Beside D lead (stroke' :: script) s (s'.withStream v) where
  follows := by
    rw [List.map_cons, hpassage.meant]
    exact h.follows
  careful := by
    refine ⟨hpassage.forgiven, ?_⟩
    rw [hpassage.meant]
    exact h.careful.2
  meant := by
    rw [List.map_cons, hpassage.meant]
    exact h.meant
  typed := by
    rw [hpassage.behind]
    exact hover.holds
  rules := hover.rules.trans h.rules
  symbols := h.symbols
  nesting := h.nesting
  told := by
    obtain ⟨found, hreports, hfound⟩ := hover.reports
    show D.Accounted (stroke' :: script) s.stream.reports v.reports
    rw [hreports]
    exact h.told.passed hpassage.slips (by rwa [reverse_ofStrays])

/-- The first run takes a token, and the second what was typed for it, which is reported if it is
    something else. -/
theorem Beside.took (xs : List Slip) (found : List Diagnostic)
    (h : Beside D lead (stroke :: script) s s') (hne : stroke.meant.kind ≠ .endOfFile)
    (htyped : v.Holds (script.flatMap Stroke.typed)) (hrules : v.rules = s'.stream.rules)
    (hslips : Slip.ofScript (stroke :: script) = xs ++ Slip.ofScript script)
    (hreports : v.reports = found ++ s'.stream.reports)
    (hfound : List.Forall₂ Slip.Reported xs.reverse found) :
    Beside D (lead.after stroke.meant.kind) script (s.withStream s.stream.consumed)
      (s'.withStream v) where
  follows := by
    obtain ⟨-, -, -, hbehind⟩ := h.follows
    rwa [if_neg hne] at hbehind
  careful := h.careful.2
  meant := by
    obtain ⟨-, -, -, hbehind⟩ := h.follows
    rw [if_neg hne] at hbehind
    have hmeant := h.meant
    rw [List.map_cons] at hmeant
    cases script with
    | nil => exact hbehind.elim
    | cons next more => exact hmeant.consumed hne
  typed := htyped
  rules := by
    show v.rules = s.stream.consumed.rules
    rw [hrules, h.rules, Stream.rules_consumed]
  symbols := h.symbols
  nesting := h.nesting
  told := by
    show D.Accounted script s.stream.consumed.reports v.reports
    rw [Stream.reports_consumed h.meant.faultless, hreports]
    exact h.told.passed hslips hfound

/-- Both runs take a token that was typed as it was meant. -/
theorem Beside.consumed {t : Token} (h : Beside D lead (.plain [] t :: script) s s')
    (hne : t.kind ≠ .endOfFile) :
    Beside D (lead.after t.kind) script (s.withStream s.stream.consumed)
      (s'.withStream s'.stream.consumed) := by
  have hbehind : if t.kind = .endOfFile then _ else (lead.after t.kind).Follows _ :=
    h.follows.2.2.2
  rw [if_neg hne] at hbehind
  have htyped : s'.stream.consumed.Holds (script.flatMap Stroke.typed) := by
    have hnil := h.careful.2.typed_ne_nil hbehind
    have hholds : s'.stream.Holds (t :: script.flatMap Stroke.typed) := h.typed
    cases hscript : script.flatMap Stroke.typed with
    | nil => exact absurd hscript hnil
    | cons u us =>
      rw [hscript] at hholds
      exact hholds.consumed hne
  have hreports := Stream.reports_consumed h.typed.faultless
  exact h.took [] [] hne htyped (Stream.rules_consumed _) rfl hreports .nil

/-! ### A token that is asked for -/

section

variable {t : Token} {k : Kind} (follow : KindSet)

/-- The token that is asked for stands in both runs. -/
theorem Beside.demand_here (h : Beside D lead (.plain [] t :: script) s s') (ht : t.kind = k)
    (hk : k ≠ .endOfFile) : ∃ b v, Stream.demand k follow s'.stream = .ok b v ∧
      Beside D (lead.after k) script (s.withStream s.stream.consumed) (s'.withStream v) := by
  subst ht
  have hhead : s'.stream.head = t := h.typed.head
  refine ⟨true, _, ?_, h.consumed hk⟩
  rw [Stream.demand_here follow (congrArg Token.kind hhead)]
  exact Stream.bind_of_ok (Stream.consume_eq h.typed.clear)

/-- The token that is asked for stands behind strays. -/
theorem Beside.demand_over (h : Beside D lead (stroke :: script) s s')
    (hkind : stroke.meant.kind = k) (hk : k ≠ .endOfFile) (hassign : k ≠ .assign)
    (hillegal : k ≠ .illegal) (hlead : lead ≠ .head) (hfollow : .illegal ∉ follow) :
    ∃ b v, Stream.demand k follow s'.stream = .ok b v ∧
      Beside D (lead.after k) script (s.withStream s.stream.consumed) (s'.withStream v) := by
  subst hkind
  obtain ⟨strays, t, us, stroke', hpassage⟩ := h.careful.settle (K := {stroke.meant.kind}) h.follows
    (KindSet.mem_braces.mpr rfl) (fun hin => absurd (KindSet.mem_braces.mp hin).symm hassign)
    fun hhead => absurd hhead hlead
  obtain ⟨v, hrun, hover⟩ := Stream.demand_over (hpassage.typed ▸ h.typed) hpassage.illegal hfollow
    hillegal (KindSet.mem_braces.mp hpassage.kind)
  have hbeside := h.over hpassage hover
  have hplain := hpassage.forgiven.exact hpassage.clear (hpassage.meant ▸ hassign) hlead
  rw [hplain, hpassage.meant] at hbeside
  exact ⟨true, _, hrun, hbeside.consumed hk⟩

/-- What was typed for the token that is asked for is passed, and what goes on behind it. -/
theorem Beside.demand_instead {u : Token} {us : List Token}
    (h : Beside D lead (stroke :: script) s s') (hkind : stroke.meant.kind = k)
    (hk : k ≠ .endOfFile)
    (htyped : ∀ x ∈ stroke.typed, x.kind ∉ follow ∪ .singleton k ∧ x.kind ≠ .endOfFile)
    (hnext : script.flatMap Stroke.typed = u :: us) (hu : u.kind ∈ follow) (hfollow : k ∉ follow)
    (hslips : Slip.ofScript (stroke :: script) =
      ⟨s'.stream.head.location, some k⟩ :: Slip.ofScript script) :
    ∃ b v, Stream.demand k follow s'.stream = .ok b v ∧
      Beside D (lead.after k) script (s.withStream s.stream.consumed) (s'.withStream v) := by
  subst hkind
  have hholds := h.typed
  rw [List.flatMap_cons, hnext] at hholds
  obtain ⟨v, hrun, hv, hrules, hreports⟩ := Stream.demand_instead hholds htyped hu hfollow
  have hreported : Slip.Reported ⟨s'.stream.head.location, some stroke.meant.kind⟩
      ⟨.error, .expecting stroke.meant.kind, s'.stream.head.location⟩ := by
    refine ⟨rfl, rfl, rfl, ?_⟩
    rintro k ⟨⟩
    rfl
  exact ⟨false, v, hrun,
    h.took [_] [_] hk (hnext ▸ hv) hrules hslips hreports (.cons hreported .nil)⟩

end

end PlZero
