/-
  PlZero/Proofs/Stream/Closure.lean
  =================================
  **Nothing but the end of the input is behind the end.**  The closure of scans ends at the first
  token that ends the input.  If there is none, the end of the input stands at the last token.  A
  stream over scans and one over their closure cannot be told apart by asking (`Confined`), since
  after every request the two have the same closure again.

  The end of the input is met in three ways: it is a token of the scans, the scans run out, or it
  is to be consumed.  Each is a case of moving on (`advance_confined`), and everything that a stream
  can be asked is made of that, of looking at the head, and of reporting (`ask_confined`).
-/
import PlZero.Proofs.Stream.Unread
import PlZero.Stream.Session

namespace PlZero

namespace Scan

/-- Scans through the end of the input, which stands at the last token if nothing ends it before.
    Digits too long to read are the last that is scanned. -/
def closure : List Scan → List Scan
  | [] => []
  | .overlong n :: _ => [.overlong n]
  | .token t fault :: rest => .token t fault :: closed t rest

/-- A token that does not end the input. -/
def Inner (x : Scan) : Prop := ∃ t fault, x = .token t fault ∧ t.kind ≠ .endOfFile

theorem closed_closed (head : Token) (rest : List Scan) :
    closed head (closed head rest) = closed head rest := by
  induction rest generalizing head with
  | nil =>
    by_cases hend : head.kind = .endOfFile
    · rw [closed_end hend, closed_end hend]
    · rw [closed_last hend, closed_token hend, closed_end rfl]
  | cons x rest ih =>
    by_cases hend : head.kind = .endOfFile
    · rw [closed_end hend, closed_end hend]
    · cases x with
      | overlong n => rw [closed_overlong hend, closed_overlong hend]
      | token t fault => rw [closed_token hend, closed_token hend, ih]

/-- What is behind the end of the input is left out. -/
theorem closed_cut {head e : Token} {fault : Option Problem} (hend : e.kind = .endOfFile)
    (front behind : List Scan) :
    closed head (front ++ .token e fault :: behind) = closed head (front ++ [.token e fault]) := by
  induction front generalizing head with
  | nil =>
    by_cases hhead : head.kind = .endOfFile
    · rw [closed_end hhead, closed_end hhead]
    · simp only [List.nil_append, closed_token hhead, closed_end hend]
  | cons x front ih =>
    by_cases hhead : head.kind = .endOfFile
    · rw [closed_end hhead, closed_end hhead]
    · cases x with
      | overlong n => simp only [List.cons_append, closed_overlong hhead]
      | token t f => simp only [List.cons_append, closed_token hhead, ih]

/-- Up to a token that has nothing but inner tokens in front of it, all scans stay. -/
theorem closed_append {head t : Token} {fault : Option Problem} {front rest : List Scan}
    (hhead : head.kind ≠ .endOfFile) (hfront : ∀ x ∈ front, Inner x) :
    closed head (front ++ .token t fault :: rest) = front ++ .token t fault :: closed t rest := by
  induction front generalizing head with
  | nil => exact closed_token hhead
  | cons x front ih =>
    obtain ⟨⟨u, f, rfl, hu⟩, hinner⟩ := List.forall_mem_cons.mp hfront
    rw [List.cons_append, closed_token hhead, ih hu hinner, List.cons_append]

theorem closure_append {t : Token} {fault : Option Problem} {front rest : List Scan}
    (hfront : ∀ x ∈ front, Inner x) :
    closure (front ++ .token t fault :: rest) = front ++ .token t fault :: closed t rest := by
  cases front with
  | nil => rfl
  | cons x front =>
    obtain ⟨⟨u, f, rfl, hu⟩, hinner⟩ := List.forall_mem_cons.mp hfront
    exact congrArg (_ :: ·) (closed_append hu hinner)

theorem closure_cut {e : Token} {fault : Option Problem} (hend : e.kind = .endOfFile)
    (front behind : List Scan) :
    closure (front ++ .token e fault :: behind) = closure (front ++ [.token e fault]) := by
  rcases front with _ | ⟨⟨t, f⟩ | n, front⟩
  · exact congrArg (_ :: ·) ((closed_end hend).trans (closed_end hend).symm)
  · exact congrArg (_ :: ·) (closed_cut hend front behind)
  · rfl

end Scan

namespace Stream

variable {s s' u : Stream} {find kinds starts recover : KindSet} {k : Kind} {rule : String}

/-- The stream without anything behind the end of the input. -/
def closure (s : Stream) : Stream := { s with rest := Scan.closed s.head s.rest }

/-- What an operation comes to, as far as it can be told. -/
def sealed {α : Type} : EStateM.Result Abort Stream α → EStateM.Result Abort Stream α
  | .ok x u => .ok x u.closure
  | .error a u => .error a u.closure

/-- The stream that an operation leaves, whether it returns or not. -/
def left {α : Type} : EStateM.Result Abort Stream α → Stream
  | .ok _ u => u
  | .error _ u => u

/-- An operation that neither notices what is behind the end of the input nor gets there. -/
structure Confined {α : Type} (m : StreamM α) : Prop where
  unaware : ∀ s s', s'.closure = s.closure → sealed (m s') = sealed (m s)
  stays : ∀ s, s.head.kind = .endOfFile → (left (m s)).head = s.head

theorem closure_closure (s : Stream) : s.closure.closure = s.closure := by
  unfold closure
  rw [Scan.closed_closed]

/-- Streams with one closure differ in nothing but the scans behind the head. -/
theorem same_of_closure (h : s'.closure = s.closure) :
    s'.head = s.head ∧ s'.rules = s.rules ∧ s'.journal = s.journal := by
  simp only [closure, Stream.mk.injEq] at h
  exact ⟨h.1, h.2.2⟩

section

variable {α β : Type} {m : StreamM α} {f : α → StreamM β}

/-- Two runs that come to the same go on to the same. -/
theorem sealed_bind (hm : sealed (m s') = sealed (m s))
    (hf : ∀ x t t', m s = .ok x t → t'.closure = t.closure → sealed (f x t') = sealed (f x t)) :
    sealed ((m >>= f) s') = sealed ((m >>= f) s) := by
  simp only [Bind.bind, EStateM.bind]
  cases hs : m s with
  | ok x t =>
    cases hs' : m s' with
    | ok x' t' =>
      rw [hs, hs'] at hm
      injection hm with hx ht
      subst hx
      exact hf _ t t' hs ht
    | error a' t' =>
      rw [hs, hs'] at hm
      cases hm
  | error a t =>
    cases hs' : m s' with
    | ok x' t' =>
      rw [hs, hs'] at hm
      cases hm
    | error a' t' =>
      rw [hs, hs'] at hm
      injection hm with ha ht
      exact congrArg₂ EStateM.Result.error ha ht

/-- It is enough to do the same on a stream and on its closure. -/
theorem unaware_of_closure (h : ∀ s, sealed (m s.closure) = sealed (m s)) (s s' : Stream)
    (hs : s'.closure = s.closure) : sealed (m s') = sealed (m s) := by
  rw [← h s', hs, h s]

theorem Confined.pure (x : α) : Confined (pure x) where
  unaware := fun _ _ h => congrArg (EStateM.Result.ok x) h
  stays := fun _ _ => rfl

theorem Confined.bind (hm : Confined m) (hf : ∀ x, Confined (f x)) : Confined (m >>= f) where
  unaware := fun s s' h =>
    sealed_bind (hm.unaware s s' h) fun x t t' _ => (hf x).unaware t t'
  stays := by
    intro s hend
    have hstays := hm.stays s hend
    simp only [Bind.bind, EStateM.bind]
    cases hs : m s with
    | ok x t =>
      rw [hs] at hstays
      exact ((hf x).stays t (hstays ▸ hend)).trans hstays
    | error a t =>
      rw [hs] at hstays
      exact hstays

/-- Looking at anything but what is behind the head. -/
theorem Confined.look {f : Stream → StreamM β}
    (hsame : ∀ s rest, f { s with rest := rest } = f s) (hf : ∀ s, Confined (f s)) :
    Confined (get >>= f) where
  unaware := by
    intro s s' h
    have hfs : f s' = f s := by
      rw [← hsame s' (Scan.closed s'.head s'.rest), ← hsame s (Scan.closed s.head s.rest)]
      exact congrArg f h
    show sealed (f s' s') = sealed (f s s)
    rw [hfs]
    exact (hf s).unaware s s' h
  stays := fun s hend => (hf s).stays s hend

/-- Changing anything but the tokens. -/
theorem Confined.modify {g : Stream → Stream} (hg : ∀ s, (g s).closure = g s.closure)
    (hhead : ∀ s, (g s).head = s.head) : Confined (modify g : StreamM Unit) where
  unaware := by
    intro s s' h
    have hsame : (g s').closure = (g s).closure := by rw [hg, hg, h]
    exact congrArg (EStateM.Result.ok ()) hsame
  stays := fun s _ => hhead s

end

/-! ### What a stream can be asked -/

/-- The end of the input may be a token of the scans, and it may stand where the scans run out. -/
theorem advance_confined : Confined advance := by
  refine ⟨unaware_of_closure fun s => ?_, fun s hend => by rw [advance_end hend]; rfl⟩
  by_cases hend : s.head.kind = .endOfFile
  · rw [advance_end hend, advance_end (s := s.closure) hend]
    exact congrArg (EStateM.Result.ok ()) (closure_closure s)
  · rcases hrest : s.rest with _ | ⟨⟨t, fault⟩ | n, rest⟩
    · have hclosed : s.closure.rest = [.token (.endOfFile s.head.location) none] := by
        rw [closure, hrest, Scan.closed_last hend]
      rw [advance_last hend hrest, advance_token (s := s.closure) hend hclosed]
      simp only [sealed, closure, hrest, reported]
    · have hclosed : s.closure.rest = .token t fault :: Scan.closed t rest := by
        rw [closure, hrest, Scan.closed_token hend]
      rw [advance_token hend hrest, advance_token (s := s.closure) hend hclosed]
      simp only [sealed, closure, Scan.closed_closed]
    · have hclosed : s.closure.rest = [.overlong n] := by
        rw [closure, hrest, Scan.closed_overlong hend]
      rw [advance_overlong hend hrest, advance_overlong (s := s.closure) hend hclosed]
      rfl

theorem fatal_confined {α : Type} (p : Problem) (l : Location) :
    Confined (fatal p l : StreamM α) := by
  refine ⟨unaware_of_closure fun s => ?_, fun _ _ => rfl⟩
  simp only [fatal, sealed, closure, Scan.closed_closed]

theorem check_confined (c : Bool) (a : Assertion) (l : Location) : Confined (check c a l) := by
  cases c with
  | true => exact .pure ()
  | false => exact fatal_confined _ _

theorem name_confined : Confined name :=
  .look (fun _ _ => rfl) fun _ => .bind (check_confined _ _ _) fun _ => .pure _

theorem number_confined : Confined number :=
  .look (fun _ _ => rfl) fun _ => .bind (check_confined _ _ _) fun _ => .pure _

theorem consume_confined : Confined consume :=
  .bind (.modify (fun _ => rfl) fun _ => rfl) fun _ => advance_confined

theorem expect_confined : Confined (expect k) :=
  .look (fun _ _ => rfl) fun _ => .bind (check_confined _ _ _) fun _ => consume_confined

theorem skipTo_confined : Confined (skipTo find) := by
  refine ⟨fun s => ?_, fun s hend => by rw [skipTo_stop (.inr hend)]; rfl⟩
  induction s using skipping_induction find with
  | stops s hstop =>
    intro s' h
    have hhead := (same_of_closure h).1
    rw [skipTo_stop hstop, skipTo_stop (hhead ▸ hstop)]
    exact congrArg (EStateM.Result.ok ()) h
  | goes s hout hne ih =>
    intro s' h
    have hhead := (same_of_closure h).1
    have htrace : (s'.trace (.skipped s'.head)).closure = (s.trace (.skipped s.head)).closure :=
      congrArg (fun t => t.trace (.skipped t.head)) h
    rw [skipTo_step hout hne, skipTo_step (hhead ▸ hout) (hhead ▸ hne)]
    refine sealed_bind (advance_confined.unaware _ _ htrace) fun _ t t' hadvance ht => ?_
    obtain rfl : t = s.skipped := advance_ok hadvance
    exact ih t' ht

theorem demand_confined {follow : KindSet} : Confined (demand k follow) := by
  refine .look (fun _ _ => rfl) fun s => ?_
  split
  · exact consume_confined.bind fun _ => .pure true
  · refine .bind (.modify (fun _ => rfl) fun _ => rfl) fun _ => skipTo_confined.bind fun _ => ?_
    refine .look (fun _ _ => rfl) fun s => ?_
    split
    · refine .bind (.modify (fun _ => rfl) fun _ => rfl) fun _ => ?_
      exact consume_confined.bind fun _ => .pure true
    · exact .pure false

theorem pushRule_confined : Confined (pushRule rule) := .modify (fun _ => rfl) fun _ => rfl

theorem beginCertain_confined : Confined (beginCertain rule starts) :=
  .look (fun _ _ => rfl) fun _ => .bind (check_confined _ _ _) fun _ => pushRule_confined

theorem beginRule_confined : Confined (beginRule rule starts recover) := by
  refine .look (fun _ _ => rfl) fun s => ?_
  split
  · exact pushRule_confined.bind fun _ => .pure true
  · refine .bind (.modify (fun _ => rfl) fun _ => rfl) fun _ => skipTo_confined.bind fun _ => ?_
    refine .look (fun _ _ => rfl) fun s => ?_
    split
    · exact pushRule_confined.bind fun _ => .pure true
    · exact .bind (.modify (fun _ => rfl) fun _ => rfl) fun _ => .pure false

theorem endRule_confined : Confined (endRule rule recover) := by
  refine .look (fun _ _ => rfl) fun s => .bind (.modify (fun _ => rfl) fun _ => rfl) fun _ => ?_
  refine .look (fun _ _ => rfl) fun s => .bind (check_confined _ _ _) fun _ => ?_
  refine .bind (.modify (fun _ => rfl) fun _ => rfl) fun _ => .look (fun _ _ => rfl) fun s => ?_
  split
  · exact .pure ()
  · exact .bind (.modify (fun _ => rfl) fun _ => rfl) fun _ => skipTo_confined

/-- No request notices what is behind the end of the input. -/
theorem ask_confined (request : Request) : Confined (ask request) := by
  cases request with
  | token => exact .look (fun _ _ => rfl) fun _ => .pure _
  | depth => exact .look (fun _ _ => rfl) fun _ => .pure _
  | name => exact name_confined.bind fun _ => .pure _
  | number => exact number_confined.bind fun _ => .pure _
  | headIs k => exact .look (fun _ _ => rfl) fun _ => .pure _
  | headIn kinds => exact .look (fun _ _ => rfl) fun _ => .pure _
  | take k follow =>
    cases follow with
    | none => exact expect_confined.bind fun _ => .pure _
    | some follow => exact demand_confined.bind fun _ => .pure _
  | skipTo find => exact skipTo_confined.bind fun _ => .pure _
  | begin rule starts recover =>
    cases recover with
    | none => exact beginCertain_confined.bind fun _ => .pure _
    | some recover => exact beginRule_confined.bind fun _ => .pure _
  | close rule recover => exact endRule_confined.bind fun _ => .pure _

end Stream

namespace Session

variable {s s' : Session}

/-! ### Sessions -/

/-- What there is to see when a request was answered. -/
structure Seen where
  outcome : Except Failure Stream.Answer
  head : Token
  rules : List String
  collector : Collector

/-- The session after a request, whatever came of it. -/
def after (s : Session) (request : Stream.Request) : Session :=
  (s.perform (Stream.ask request)).2

def seen (s : Session) (request : Stream.Request) : Seen where
  outcome := (s.perform (Stream.ask request)).1
  head := (s.after request).stream.head
  rules := (s.after request).stream.rules
  collector := (s.after request).collector

/-- What there is to see of requests that are made one after the other. -/
def asked (s : Session) : List Stream.Request → List Seen
  | [] => []
  | request :: more => s.seen request :: (s.after request).asked more

/-- What there is to see of scans: the first token, what its fault did to the collector, and the
    answers to requests. -/
def shown (scans : List Scan) (c : Collector) (requests : List Stream.Request) :
    Except (Failure × Collector) (Token × Collector × List Seen) :=
  (start scans c).map fun s => (s.stream.head, s.collector, s.asked requests)

/-- Sessions that cannot be told apart. -/
structure Alike (s s' : Session) : Prop where
  stream : s'.stream.closure = s.stream.closure
  collector : s'.collector = s.collector

/-- What is done in a session depends on what it comes to, as far as it can be told. -/
theorem perform_confined {α : Type} {m : StreamM α} (hm : Stream.Confined m) (h : Alike s s') :
    (s'.perform m).1 = (s.perform m).1 ∧ Alike (s.perform m).2 (s'.perform m).2 := by
  have hsealed := hm.unaware s.stream s'.stream h.stream
  have hafter : ∀ {t t' : Stream}, t'.closure = t.closure →
      Alike ⟨{ t with journal := [] }, (s.collector.absorbAll t.journal).1⟩
        ⟨{ t' with journal := [] }, (s.collector.absorbAll t'.journal).1⟩ := by
    intro t t' ht
    refine ⟨congrArg (fun u : Stream => { u with journal := [] }) ht, ?_⟩
    rw [(Stream.same_of_closure ht).2.2]
  unfold perform
  rw [h.collector]
  cases hs : m s.stream with
  | ok x t =>
    cases hs' : m s'.stream with
    | ok x' t' =>
      rw [hs, hs'] at hsealed
      injection hsealed with hx ht
      exact ⟨congrArg Except.ok hx, hafter ht⟩
    | error a' t' =>
      rw [hs, hs'] at hsealed
      cases hsealed
  | error a t =>
    cases hs' : m s'.stream with
    | ok x' t' =>
      rw [hs, hs'] at hsealed
      cases hsealed
    | error a' t' =>
      rw [hs, hs'] at hsealed
      injection hsealed with ha ht
      refine ⟨?_, hafter ht⟩
      show Except.error (a'.failure (s.collector.absorbAll t'.journal).2) =
        Except.error (a.failure (s.collector.absorbAll t.journal).2)
      rw [ha, (Stream.same_of_closure ht).2.2]

/-- No request leaves the end of the input. -/
theorem after_stays (request : Stream.Request) (hend : s.stream.head.kind = .endOfFile) :
    (s.after request).stream.head = s.stream.head := by
  have hstays := (Stream.ask_confined request).stays s.stream hend
  unfold after perform
  cases hs : Stream.ask request s.stream <;> rw [hs] at hstays <;> exact hstays

theorem asked_stays (hend : s.stream.head.kind = .endOfFile) (requests : List Stream.Request) :
    ∀ x ∈ s.asked requests, x.head = s.stream.head := by
  induction requests generalizing s with
  | nil => exact List.forall_mem_nil _
  | cons request more ih =>
    have hafter := after_stays request hend
    refine List.forall_mem_cons.mpr ⟨hafter, fun x hx => ?_⟩
    exact (ih (hafter ▸ hend) x hx).trans hafter

/-- By induction on the requests: sessions that cannot be told apart stay so. -/
theorem Alike.asked (h : Alike s s') (requests : List Stream.Request) :
    s'.asked requests = s.asked requests := by
  induction requests generalizing s s' with
  | nil => rfl
  | cons request more ih =>
    obtain ⟨houtcome, hafter⟩ : _ ∧ Alike (s.after request) (s'.after request) :=
      perform_confined (Stream.ask_confined request) h
    obtain ⟨hhead, hrules, -⟩ := Stream.same_of_closure hafter.stream
    have hseen : s'.seen request = s.seen request := by
      simp only [seen, houtcome, hafter.collector, hhead, hrules]
    show _ :: (s'.after request).asked more = _ :: (s.after request).asked more
    rw [hseen, ih hafter]

theorem shown_closure (scans : List Scan) (c : Collector) (requests : List Stream.Request) :
    shown (Scan.closure scans) c requests = shown scans c requests := by
  rcases scans with _ | ⟨⟨t, fault⟩ | n, rest⟩
  · rfl
  · have halike : ∀ j c, Alike ⟨⟨t, rest, [], j⟩, c⟩ ⟨⟨t, Scan.closed t rest, [], j⟩, c⟩ :=
      fun j c => ⟨Stream.closure_closure ⟨t, rest, [], j⟩, rfl⟩
    simp only [shown, start, Scan.closure, Stream.start, Except.map, (halike _ _).asked]
  · rfl

/-- Whatever is asked, scans and their closure look the same: the answers, the head, the rules
    being read, and all that the collector holds and has written.  The closure ends at the first
    end of the input, or has one at the last token if there is none.  So what stands behind the
    first makes no difference, and once the end of the input is the head it stays the head. -/
theorem closure_indistinguishable (c : Collector) (requests : List Stream.Request) :
    (∀ scans, shown (Scan.closure scans) c requests = shown scans c requests) ∧
    (∀ front e fault behind, (∀ x ∈ front, Scan.Inner x) → e.kind = .endOfFile →
      Scan.closure (front ++ .token e fault :: behind) = front ++ [.token e fault]) ∧
    (∀ front last fault, (∀ x ∈ front, Scan.Inner x) → last.kind ≠ .endOfFile →
      Scan.closure (front ++ [.token last fault]) =
        front ++ [.token last fault, .token (.endOfFile last.location) none]) ∧
    (∀ front e fault behind behind', e.kind = .endOfFile →
      shown (front ++ .token e fault :: behind) c requests =
        shown (front ++ .token e fault :: behind') c requests) ∧
    (∀ t fault rest, ∃ s, start (.token t fault :: rest) c = .ok s ∧ s.stream.head = t) ∧
    ∀ s : Session, s.stream.head.kind = .endOfFile →
      ∀ x ∈ s.asked requests, x.head = s.stream.head := by
  refine ⟨fun scans => shown_closure scans c requests, ?_, ?_, ?_, ?_,
    fun s hend => asked_stays hend requests⟩
  · intro front e fault behind hfront hend
    rw [Scan.closure_append hfront, Scan.closed_end hend]
  · intro front last fault hfront hlast
    rw [Scan.closure_append hfront, Scan.closed_last hlast]
  · intro front e fault behind behind' hend
    rw [← shown_closure (front ++ _), ← shown_closure (front ++ .token e fault :: behind'),
      Scan.closure_cut hend front behind, Scan.closure_cut hend front behind']
  · intro t fault rest
    exact ⟨_, rfl, rfl⟩

end Session

end PlZero
