/-
  PlZero/Stream/Session.lean
  ==========================
  **A token stream with its collector.**  An operation on the stream leaves events
  behind; the collector takes them in as soon as the operation is over.  An operation
  that ends the run leaves a session that can go on.

  `Stream.Request` lists what can be asked of a stream, one step at a time.
-/
import PlZero.Diagnostic.Collector
import PlZero.Stream.Basic

namespace PlZero

/-- The failure that the end of a run is; `fatal` is what its fatal diagnostic made it
    fail with. -/
def Abort.failure (a : Abort) (fatal : Option Failure) : Failure :=
  match a with
  | .fatal p l => fatal.getD (.fatal p.message (some l) "")
  | .longDigitRun digits => .longDigitRun digits
  | .tooDeep => .programTooDeep
  | .unfoldable why => why.failure

namespace Stream

/-- What can be asked of a stream.  The kind that is asked for with `follow` may be missing, and
    so may the start of a rule that is begun with `recover`. -/
inductive Request
  | token
  | depth
  | name
  | number
  | headIs (kind : Kind)
  | headIn (kinds : KindSet)
  | take (kind : Kind) (follow : Option KindSet)
  | skipTo (kinds : KindSet)
  | begin (rule : String) (starts : KindSet) (recover : Option KindSet)
  | close (rule : String) (recover : KindSet)
  deriving DecidableEq, Repr

/-- What a stream answers. -/
inductive Answer
  | done
  | token (head : Token)
  | depth (rules : Nat)
  | payload (p : Payload)
  | truth (holds : Bool)
  deriving DecidableEq, Repr

/-- Answers a request. -/
def ask : Request → StreamM Answer
  | .token => return .token (← get).head
  | .depth => return .depth (← get).depth
  | .name => return .payload (← Stream.name)
  | .number => return .payload (← Stream.number)
  | .headIs k => return .truth ((← get).headIs k)
  | .headIn kinds => return .truth ((← get).headIn kinds)
  | .take k none => do
    expect k
    return .truth true
  | .take k (some follow) => return .truth (← demand k follow)
  | .skipTo find => do
    Stream.skipTo find
    return .done
  | .begin rule starts none => do
    beginCertain rule starts
    return .truth true
  | .begin rule starts (some recover) => return .truth (← beginRule rule starts recover)
  | .close rule recover => do
    endRule rule recover
    return .done

end Stream

/-- A token stream whose events the collector has taken in. -/
structure Session where
  stream : Stream
  collector : Collector
  deriving Inhabited

namespace Session

/-- A session at the first token of scans, or why there is none and what the collector
    holds then. -/
def start (scans : List Scan) (collector : Collector) : Except (Failure × Collector) Session :=
  match Stream.start scans [] with
  | .ok stream =>
    .ok ⟨{ stream with journal := [] }, (collector.absorbAll stream.journal).1⟩
  | .error (a, journal) =>
    let (after, fatal) := collector.absorbAll journal
    .error (a.failure fatal, after)

/-- Does an operation on the stream and lets the collector take in what happened. -/
def perform {α : Type} (s : Session) (op : StreamM α) : Except Failure α × Session :=
  let (outcome, stream) : Except Abort α × Stream :=
    match op s.stream with
    | .ok a t => (.ok a, t)
    | .error e t => (.error e, t)
  let (collector, fatal) := s.collector.absorbAll stream.journal
  (outcome.mapError fun a => a.failure fatal, ⟨{ stream with journal := [] }, collector⟩)

/-- The same session with an empty output. -/
def withoutOutput (s : Session) : Session := { s with collector := s.collector.withoutOutput }

end Session

end PlZero
