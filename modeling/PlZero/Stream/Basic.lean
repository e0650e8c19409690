/-
  PlZero/Stream/Basic.lean
  ========================
  **The token stream**: one token of lookahead, the rules being read, and panic-mode
  recovery.

  Every grammar rule is bracketed by `beginRule` and `endRule`.  `beginRule` looks
  whether the head token can start the rule; if not, it reports one error and skips
  to a token that can start the rule, which then goes on, or that the caller is
  waiting for, and the rule is abandoned.  `endRule` looks whether the head token
  can follow the rule and otherwise skips to one that can.  Nothing skips past the
  end of the input, so recovery ends.

  Asking for a token without having looked at it is a fault of the caller, not of
  the program: it is a broken assertion and ends the run.
-/
import PlZero.Journal
import PlZero.Token.Scan

namespace PlZero

/-- Why reading ends before the end of the input: a fatal diagnostic, a digit run
    too long to read, rules nested beyond the limit, or a constant that cannot be
    folded. -/
inductive Abort
  | fatal (problem : Problem) (location : Location)
  | longDigitRun (digits : Nat)
  | tooDeep
  | unfoldable (why : Unfoldable)
  deriving DecidableEq, Repr, Inhabited

/-- A stream of tokens: the head token, what is to be scanned after it, the rules
    being read, innermost first, and what has happened. -/
structure Stream where
  head : Token
  rest : List Scan
  rules : List String
  journal : Journal
  deriving DecidableEq, Repr, Inhabited

/-- An operation on a token stream, which may end the run. -/
abbrev StreamM := EStateM Abort Stream

namespace Stream

/-- The diagnostics that a token with a fault brings into a journal. -/
def reported (t : Token) (fault : Option Problem) (j : Journal) : Journal :=
  match fault with
  | none => j
  | some p => .report ⟨.error, p, t.location⟩ :: j

/-- The journal after a fatal diagnostic. -/
def fatally (p : Problem) (l : Location) (j : Journal) : Journal :=
  .note (.fatal l p.message) :: .report ⟨.fatal, p, l⟩ :: j

/-- A stream at its first token, or why there is none. -/
def start (scans : List Scan) (journal : Journal) : Except (Abort × Journal) Stream :=
  match scans with
  | [] =>
    let p : Problem := .broken .noTokens
    .error (.fatal p .unknown, fatally p .unknown journal)
  | .overlong n :: _ => .error (.longDigitRun n, journal)
  | .token t fault :: rest => .ok ⟨t, rest, [], reported t fault journal⟩

/-- The number of rules being read. -/
def depth (s : Stream) : Nat := s.rules.length

/-- Adds a diagnostic to the record of a stream. -/
def report (s : Stream) (p : Problem) (l : Location) : Stream :=
  { s with journal := .report ⟨.error, p, l⟩ :: s.journal }

/-- Adds a trace step to the record of a stream. -/
def trace (s : Stream) (a : Action) : Stream :=
  { s with journal := .trace s.depth a :: s.journal }

/-! ### Looking at the head -/

/-- Whether the head token is of a kind. -/
def headIs (s : Stream) (k : Kind) : Bool := s.head.kind == k

/-- Whether the kind of the head token belongs to a set. -/
def headIn (s : Stream) (kinds : KindSet) : Bool := kinds.contains s.head.kind

/-- Records a fatal diagnostic and ends the run. -/
def fatal {α : Type} (p : Problem) (l : Location) : StreamM α := fun s =>
  .error (.fatal p l) { s with journal := fatally p l s.journal }

/-- Ends the run unless a condition holds. -/
def check (condition : Bool) (a : Assertion) (l : Location) : StreamM Unit :=
  if condition then pure () else fatal (.broken a) l

/-- The payload of the head token, which has to be an identifier. -/
def name : StreamM Payload := do
  let s ← get
  check (s.headIs .identifier) (.identifierExpected s.head) s.head.location
  return s.head.payload

/-- The payload of the head token, which has to be a number. -/
def number : StreamM Payload := do
  let s ← get
  check (s.headIs .number) (.numberExpected s.head) s.head.location
  return s.head.payload

/-! ### Consuming tokens -/

/-- Moves on to the next token.  The end of the input stays the head.  Where the
    tokens run out, the end of the input stands at the last of them. -/
def advance : StreamM Unit := fun s =>
  if s.headIs .endOfFile then .ok () s
  else match s.rest with
    | [] => .ok () { s with head := .endOfFile s.head.location }
    | .overlong n :: _ => .error (.longDigitRun n) { s with rest := [] }
    | .token t fault :: rest =>
      .ok () { s with head := t, rest := rest, journal := reported t fault s.journal }

/-- Consumes the head token. -/
def consume : StreamM Unit := do
  modify fun s => s.trace (.matched s.head)
  advance

/-- Skips tokens of kinds outside `find`, up to the end of the input; `rest` is what
    is to be scanned after the head. -/
def skipOver (find : KindSet) (rules : List String) :
    Token → List Scan → Journal → EStateM.Result Abort Stream Unit
  | head, rest, journal =>
    if find.contains head.kind || head.kind == .endOfFile then
      .ok () ⟨head, rest, rules, journal⟩
    else
      let skipping : Journal := .trace rules.length (.skipped head) :: journal
      match rest with
      | [] => .ok () ⟨.endOfFile head.location, [], rules, skipping⟩
      | .overlong n :: _ => .error (.longDigitRun n) ⟨head, [], rules, skipping⟩
      | .token t fault :: rest' => skipOver find rules t rest' (reported t fault skipping)
  termination_by structural _ rest => rest

/-- Skips tokens until the kind of the head belongs to a set or the input ends. -/
def skipTo (find : KindSet) : StreamM Unit := fun s =>
  skipOver find s.rules s.head s.rest s.journal

/-- Consumes a token of a kind, which the caller has to have looked at. -/
def expect (k : Kind) : StreamM Unit := do
  let s ← get
  check (s.headIs k) (.kindExpected k s.head) s.head.location
  consume

/-- Consumes a token of a kind if there is one.  If not, reports that, skips to a
    token of this kind or in `follow`, and consumes it if it is of this kind.  Tells
    whether a token of the kind was consumed. -/
def demand (k : Kind) (follow : KindSet) : StreamM Bool := do
  if (← get).headIs k then
    consume
    return true
  else
    modify fun s => s.report (.expecting k) s.head.location
    skipTo (follow ∪ .singleton k)
    if (← get).headIs k then
      modify fun s => s.trace (.resynchronised k)
      consume
      return true
    else
      return false

/-! ### Rule brackets -/

/-- Enters a rule. -/
def pushRule (rule : String) : StreamM Unit :=
  modify fun s => let t := s.trace (.opened rule); { t with rules := rule :: t.rules }

/-- Enters a rule whose start the caller has looked at. -/
def beginCertain (rule : String) (starts : KindSet) : StreamM Unit := do
  let s ← get
  check (s.headIn starts) (.startExpected rule s.head) s.head.location
  pushRule rule

/-- Enters a rule, or abandons it if its start cannot be found before a token that
    the caller is waiting for.  Tells whether the rule was entered. -/
def beginRule (rule : String) (starts recover : KindSet) : StreamM Bool := do
  if (← get).headIn starts then
    pushRule rule
    return true
  else
    modify fun s => s.report (.cannotStart rule s.head) s.head.location
    skipTo (starts ∪ recover)
    if (← get).headIn starts then
      pushRule rule
      return true
    else
      modify fun s => s.trace (.abandoned rule)
      return false

/-- Leaves a rule, which has to be the innermost one, and makes sure that the head
    token can follow it. -/
def endRule (rule : String) (recover : KindSet) : StreamM Unit := do
  let innermost := (← get).rules.head?
  modify fun s => { s with rules := s.rules.tail }
  let s ← get
  check (innermost == some rule) (.ruleMismatch rule innermost) s.head.location
  modify fun s => s.trace (.closed rule)
  if (← get).headIn recover then
    pure ()
  else
    modify fun s => s.report (.cannotFollow s.head rule) s.head.location
    skipTo recover

/-- Consumes tokens through the parenthesis that closes `openCount + 1` open ones, or to
    the end of the input; `rest` is what is to be scanned after the head. -/
def closeOver (rules : List String) (openCount : Nat) :
    Token → List Scan → Journal → EStateM.Result Abort Stream Unit
  | head, rest, journal =>
    if head.kind == .endOfFile then .ok () ⟨head, rest, rules, journal⟩
    else
      let matching : Journal := .trace rules.length (.matched head) :: journal
      match rest with
      | [] => .ok () ⟨.endOfFile head.location, [], rules, matching⟩
      | .overlong n :: _ => .error (.longDigitRun n) ⟨head, [], rules, matching⟩
      | .token t fault :: rest' =>
        let journal' := reported t fault matching
        if head.kind == .leftParen then closeOver rules (openCount + 1) t rest' journal'
        else if head.kind == .rightParen then
          match openCount with
          | 0 => .ok () ⟨t, rest', rules, journal'⟩
          | n + 1 => closeOver rules n t rest' journal'
        else closeOver rules openCount t rest' journal'
  termination_by structural _ rest => rest

/-- Consumes tokens through the one that closes a parenthesis consumed before. -/
def skipParenthesised : StreamM Unit := fun s =>
  closeOver s.rules 0 s.head s.rest s.journal

end Stream

end PlZero
