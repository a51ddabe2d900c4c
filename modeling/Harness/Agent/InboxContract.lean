-- SUMMARY: The contract of the durable inbox: replay, identities, accounting of every message, and calls that throw.
import Harness.Agent.InboxReplay

namespace Harness

open scoped List

namespace InboxWorld

/-- The collaborators of a call up to its notifications. -/
def recorder (publication : Publication InboxOp) : Host :=
  ⟨(appendEvent · · publication), fun w _ => w⟩

/-- The worlds calls are made on: from outside, or by an observer of a notification. -/
inductive Reached (seedLength : Nat) : InboxWorld → Prop where
  | create {session inbox} : seedLength ≤ session.log.length →
      Inbox.create (LogEntry.events session.log) seedLength = .ok inbox →
      Reached seedLength { session, inbox }
  | step {w} (op : InboxOp) : Reached seedLength w → op.foreign → Reached seedLength (step w op).2
  | notifying {w} (publication : Publication InboxOp) (target : InboxTarget)
      (start deleteCount : JsNumber) (inserted : List Draft) (discardRemoved : Bool) :
      Reached seedLength w →
      Reached seedLength
        (mutate (recorder publication) w target start deleteCount inserted discardRemoved).2

/-- The recorded splices replay to the lists. -/
def Replays (seedLength : Nat) (events : List SessionEvent) (inbox : Inbox) : Prop :=
  seedLength ≤ events.length ∧ Inbox.create events seedLength = .ok inbox

theorem replays_preserved (seedLength : Nat) : Preserved (Replays seedLength) where
  spliced {events inbox event splice removed inbox'} h hsplice happly := by
    obtain ⟨hseed, hcreate⟩ := h
    refine ⟨hseed.trans (by simp), ?_⟩
    rw [Inbox.create_append hseed hcreate]
    exact Inbox.replay_singleton hsplice happly
  other {events inbox event} h hother := by
    obtain ⟨hseed, hcreate⟩ := h
    refine ⟨hseed.trans (by simp), ?_⟩
    rw [Inbox.create_append hseed hcreate]
    apply Inbox.replay_of_forall_none
    simpa using hother

theorem recorder_recorded (publication : Publication InboxOp) (w : InboxWorld) (payload : Payload) :
    w.Recorded payload ((recorder publication).append w payload) :=
  appendEvent_recorded w payload publication

variable {discardRemoved : Bool} {inserted : List Draft} {publication : Publication InboxOp}
   {start deleteCount : JsNumber} {target : InboxTarget} {w w' : InboxWorld}

/-- Up to its notifications a mutation is one splice or nothing. -/
theorem recorder_outcome {result : Except String (List UserMessage)}
    (h : mutate (recorder publication) w target start deleteCount inserted discardRemoved =
      (result, w')) :
    (w'.events = w.events ∧ w'.inbox = w.inbox ∧ ∀ removed, result = .ok removed → removed = []) ∨
      ∃ removed, result = .ok removed ∧ w.Spliced w' discardRemoved removed := by
  have houtcome := mutate_outcome (recorder_recorded publication) w target start deleteCount
    inserted discardRemoved
  rw [h] at houtcome
  cases houtcome with
  | failed hevents hinbox => exact .inl ⟨hevents, hinbox, by rintro removed ⟨⟩⟩
  | unchanged => exact .inl ⟨rfl, rfl, by rintro removed ⟨⟩; rfl⟩
  | spliced notifications hspliced => exact .inr ⟨_, rfl, hspliced⟩

theorem Reached.replays {seedLength : Nat} {w : InboxWorld} (h : w.Reached seedLength) :
    Replays seedLength w.events w.inbox := by
  induction h with
  | create hseed hcreate => exact ⟨by simpa [events] using hseed, hcreate⟩
  | step op _ hforeign ih => exact step_holds (replays_preserved seedLength) ih op hforeign
  | @notifying w publication target start deleteCount inserted discardRemoved _ ih =>
    cases hmutate : mutate (recorder publication) w target start deleteCount inserted
      discardRemoved with
    | mk result w' =>
    rcases recorder_outcome hmutate with ⟨hevents, hinbox, -⟩ | ⟨removed, -, hspliced⟩
    · rw [hevents, hinbox]
      exact ih
    · exact (replays_preserved seedLength).of_spliced ih hspliced

/-! ## Accounting -/

/-- The ledger of the world's log. -/
def ledger (w : InboxWorld) (seedLength : Nat) : InboxLedger :=
  .ofLog w.events seedLength

/-- What a mutation answers is what the log says it claimed, or discarded. -/
theorem ledger_mutate {seedLength : Nat} (hw : w.Reached seedLength) {removed : List UserMessage}
    (h : mutate (recorder publication) w target start deleteCount inserted discardRemoved =
      (.ok removed, w')) :
    (w'.ledger seedLength).claimed =
      (w.ledger seedLength).claimed ++ (if discardRemoved then [] else removed) ∧
    (w'.ledger seedLength).discarded =
      (w.ledger seedLength).discarded ++ (if discardRemoved then removed else []) := by
  obtain ⟨hseed, hcreate⟩ := hw.replays
  rcases recorder_outcome h with ⟨hevents, -, hnone⟩ | ⟨removed', hremoved, hspliced⟩
  · rw [ledger, ledger, hevents, hnone removed rfl]
    simp
  cases hremoved
  obtain ⟨event, splice, hsplice, hevents, happly, hcanceled⟩ := hspliced.recorded
  have hledger : w'.ledger seedLength = (w.ledger seedLength).enter splice := by
    unfold ledger InboxLedger.ofLog
    rw [hevents, List.drop_append_of_le_length hseed, List.foldl_append]
    simp only [List.foldl_cons, List.foldl_nil, InboxLedger.enterEvent, hsplice]
  have hinbox : (w.ledger seedLength).inbox = w.inbox := InboxLedger.ofLog_inbox hcreate
  rw [hledger, InboxLedger.enter, hinbox, happly]
  simp only [hcanceled]
  cases discardRemoved <;> cases removed <;> simp

/-! ## Calls that throw -/

/-- The first of the two splices of a call that makes two. -/
def firstSplice (w : InboxWorld) : InboxOp → Option (Except String (List UserMessage) × InboxWorld)
  | .clear first _ =>
    some (splice (host first) w .nextStep (indexNumber 0) (indexNumber w.inbox.nextStep.length) [])
  | .claim .nextTurn _ first _ =>
    some (mutate (host first) w .nextStep (indexNumber 0) (indexNumber w.inbox.nextStep.length) []
      false)
  | _ => none

/-- `w'` has the log and the lists of `w`. -/
def Same (w w' : InboxWorld) : Prop := w'.events = w.events ∧ w'.inbox = w.inbox

variable {e : String}

theorem mutate_error
    (h : mutate (host publication) w target start deleteCount inserted discardRemoved =
      (.error e, w')) : w.Same w' := by
  have houtcome := mutate_outcome (host_lawful publication) w target start deleteCount inserted
    discardRemoved
  rw [h] at houtcome
  cases houtcome with
  | failed hevents hinbox => exact ⟨hevents, hinbox⟩

theorem spliceLocated_error {messageId : MessageId}
    (h : spliceLocated (host publication) w messageId inserted = (.error e, w')) : w.Same w' := by
  unfold spliceLocated at h
  split at h
  · cases h
  split at h
  · rename_i hsplice
    cases h
    exact mutate_error hsplice
  · cases h

theorem clear_error {first second : Publication InboxOp} {w : InboxWorld}
    (h : (clear (host first) (host second) w).1 = .error e) :
    w.Same (clear (host first) (host second) w).2 ∨
      ∃ removed w₁, w.firstSplice (.clear first second) = some (.ok removed, w₁) ∧
        w₁.Same (clear (host first) (host second) w).2 := by
  unfold clear at h ⊢
  split at h
  · rename_i hfirst
    exact .inl (mutate_error hfirst)
  rename_i removed w₁ hfirst
  refine .inr ⟨removed, w₁, congrArg some hfirst, ?_⟩
  split at h
  · rename_i hsecond
    exact mutate_error hsecond
  · cases h

theorem claim_error {first second : Publication InboxOp} {w : InboxWorld} {turn : Nat}
    (h : (claim (host first) (host second) w target turn).1 = .error e) :
    w.Same (claim (host first) (host second) w target turn).2 ∨
      ∃ removed w₁, w.firstSplice (.claim target turn first second) = some (.ok removed, w₁) ∧
        w₁.Same (claim (host first) (host second) w target turn).2 := by
  unfold claim at h ⊢
  split at h
  · rename_i hfirst
    exact .inl (mutate_error hfirst)
  rename_i removed w₁ hfirst
  cases target with
  | nextStep => cases h
  | nextTurn =>
    refine .inr ⟨removed, w₁, congrArg some hfirst, ?_⟩
    simp only at h ⊢
    split at h
    · rename_i hsecond
      exact mutate_error hsecond
    · cases h

/-- The reply of a call whose answer is a list of messages threw as the call did. -/
theorem messages_error {result : Except String (List UserMessage)}
    (h : (InboxReply.messages result).error? = some e) : result = .error e := by
  cases result with
  | error e' =>
    cases h
    rfl
  | ok messages => cases h

theorem found_error {result : Except String Bool}
    (h : (InboxReply.found result).error? = some e) : result = .error e := by
  cases result with
  | error e' =>
    cases h
    rfl
  | ok found => cases h

/-- A call that throws changes neither the log nor the lists, or it is the second of
its two splices that threw and the first one stands. -/
theorem step_error {w : InboxWorld} {op : InboxOp} (h : (step w op).1.error? = some e) :
    w.Same (step w op).2 ∨
      ∃ removed w₁, w.firstSplice op = some (.ok removed, w₁) ∧ w₁.Same (step w op).2 := by
  cases op with
  | splice target start deleteCount inserted publication =>
    have hresult : (splice (host publication) w target start deleteCount inserted).1 = .error e :=
      messages_error h
    exact .inl (mutate_error (Prod.ext hresult rfl))
  | append target message publication =>
    have hresult : (append (host publication) w target message).1 = .error e := messages_error h
    exact .inl (mutate_error (Prod.ext hresult rfl))
  | prepend target message publication =>
    have hresult : (prepend (host publication) w target message).1 = .error e := messages_error h
    exact .inl (mutate_error (Prod.ext hresult rfl))
  | replace messageId newMessage publication =>
    have hresult : (replace (host publication) w messageId newMessage).1 = .error e := found_error h
    exact .inl (spliceLocated_error (Prod.ext hresult rfl))
  | remove messageId publication =>
    have hresult : (remove (host publication) w messageId).1 = .error e := found_error h
    exact .inl (spliceLocated_error (Prod.ext hresult rfl))
  | clear first second =>
    have hresult : (clear (host first) (host second) w).1 = .error e := messages_error h
    show w.Same (clear (host first) (host second) w).2 ∨ _
    exact clear_error hresult
  | claim target turn first second =>
    have hresult : (claim (host first) (host second) w target turn).1 = .error e := messages_error h
    exact claim_error hresult
  | record payload publication =>
    have hrecorded := appendEvent_recorded w payload publication
    revert h hrecorded
    simp only [step]
    generalize appendEvent w payload publication = appended
    obtain ⟨result, w'⟩ := appended
    intro h hrecorded
    cases result with
    | error e' => exact .inl hrecorded
    | ok event => cases h
  | session op => cases h

/-! ## The contract -/

/-- An append with no listener around it. -/
def unheard : Publication InboxOp :=
  { time := 0, dispatch := [], veto := none, observers := [], notified := [] }

/-- An append that a listener of its dispatch vetoes. -/
def vetoed : Publication InboxOp := { unheard with veto := some "veto" }

def draft (id : MessageId) : Draft :=
  { message := { id, content := [], source := .user }, lossless := true }

/-- An attached session whose inbox holds one message in each list. -/
def twoPending : InboxWorld :=
  (runOps { session := Session.empty, inbox := .empty }
    [.session .enter, .append .nextStep (draft "step") unheard,
      .append .nextTurn (draft "turn") unheard]).2

end InboxWorld

end Harness
