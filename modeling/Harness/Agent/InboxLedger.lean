-- SUMMARY: What recorded inbox splices account for: unique pending identities, and every inserted message once.
import Harness.Agent.Inbox

namespace Harness

open List

open scoped List

/-! ## The ledger -/

/-- What a replay has seen of each message. A removal that records the outcome
`canceled` discards what it removes; any other removal is a claim. -/
structure InboxLedger where
  inbox : Inbox
  inserted : List UserMessage
  claimed : List UserMessage
  discarded : List UserMessage

namespace InboxLedger

def empty : InboxLedger := { inbox := .empty, inserted := [], claimed := [], discarded := [] }

def enter (ledger : InboxLedger) (splice : InboxSplice) : InboxLedger :=
  match ledger.inbox.apply splice with
  | .error _ => ledger
  | .ok (removed, inbox) =>
    { inbox
      inserted := ledger.inserted ++ splice.inserted
      claimed := ledger.claimed ++ if splice.canceled then [] else removed
      discarded := ledger.discarded ++ if splice.canceled then removed else [] }

def enterEvent (ledger : InboxLedger) (event : SessionEvent) : InboxLedger :=
  match event.data.splice? with
  | none => ledger
  | some splice => ledger.enter splice

def ofLog (events : List SessionEvent) (seedLength : Nat) : InboxLedger :=
  (events.drop seedLength).foldl enterEvent empty

/-- Every inserted message is pending, claimed or discarded, once for each time it
was inserted. -/
def Balanced (ledger : InboxLedger) : Prop :=
  ledger.inserted.Perm (ledger.inbox.pending ++ ledger.claimed ++ ledger.discarded)

end InboxLedger

/-! ## Splices of one list -/

namespace Inbox

/-- The list that a splice of `target` does not touch. -/
def other (inbox : Inbox) : InboxTarget → List UserMessage
  | .nextTurn => inbox.nextStep
  | .nextStep => inbox.nextTurn

theorem pending_perm (inbox : Inbox) (target : InboxTarget) :
    inbox.pending.Perm (inbox.get target ++ inbox.other target) := by
  cases target with
  | nextTurn => exact .refl _
  | nextStep => exact perm_append_comm

theorem pending_set_perm (inbox : Inbox) (target : InboxTarget) (messages : List UserMessage) :
    (inbox.set target messages).pending.Perm (messages ++ inbox.other target) := by
  cases target with
  | nextTurn => exact .refl _
  | nextStep => exact perm_append_comm

theorem firstDuplicate_eq_none {ids : List MessageId} {messages : List UserMessage}
    (h : firstDuplicate ids messages = none) :
    (messages.map (·.id)).Nodup ∧ ∀ message ∈ messages, message.id ∉ ids := by
  induction messages generalizing ids with
  | nil => simp
  | cons message rest ih =>
    simp only [firstDuplicate] at h
    split at h
    · cases h
    rename_i hfresh
    obtain ⟨hnodup, hrest⟩ := ih h
    refine ⟨?_, ?_⟩
    · rw [map_cons, nodup_cons]
      refine ⟨?_, hnodup⟩
      rintro hmem
      obtain ⟨twin, htwin, hid⟩ := mem_map.mp hmem
      exact hrest twin htwin (hid ▸ mem_cons_self)
    · rintro m hm
      rcases mem_cons.mp hm with rfl | hm
      · exact hfresh
      · exact fun hmem => hrest m hm (mem_cons_of_mem _ hmem)

/-! ## What an accepted splice is -/

/-- `splice` removes the `count` messages of its list from `start` on. -/
structure Valid (inbox : Inbox) (splice : InboxSplice) (start count : Nat) : Prop where
  starts : splice.start.asIndex = some start
  counts : (splice.removedCount.getD (.finite (.int 0))).asIndex = some count
  bound : start + count ≤ (inbox.get splice.target).length
  unique : ((inbox.set splice.target
    ((inbox.get splice.target).splice start count splice.inserted)).pending.map (·.id)).Nodup

variable {splice : InboxSplice}

theorem valid_of_validate {inbox : Inbox} {start count : Nat}
    (h : inbox.validate splice = .ok (start, count)) : inbox.Valid splice start count := by
  unfold validate at h
  split at h
  · rename_i s c hstart hcount
    split at h
    · rename_i hbound
      simp only at h
      split at h
      · cases h
      rename_i hfresh
      cases h
      exact ⟨hstart, hcount, hbound, (firstDuplicate_eq_none hfresh).1⟩
    · cases h
  · cases h

variable {inbox inbox' : Inbox} {removed : List UserMessage}

section

variable (h : inbox.apply splice = .ok (removed, inbox'))
include h

/-- What applying a splice takes out and leaves behind. -/
theorem apply_ok :
    ∃ start count, inbox.Valid splice start count ∧
      removed = (inbox.get splice.target).slice start count ∧
      inbox' = inbox.set splice.target
        ((inbox.get splice.target).splice start count splice.inserted) := by
  unfold apply at h
  split at h
  · cases h
  rename_i start count hvalidate
  cases h
  exact ⟨start, count, valid_of_validate hvalidate, rfl, rfl⟩

theorem apply_unique : (inbox'.pending.map (·.id)).Nodup := by
  obtain ⟨start, count, hvalid, -, rfl⟩ := apply_ok h
  exact hvalid.unique

/-- A splice moves messages, it makes none and loses none. -/
theorem apply_perm : (removed ++ inbox'.pending).Perm (splice.inserted ++ inbox.pending) := by
  obtain ⟨start, count, -, rfl, rfl⟩ := apply_ok h
  generalize hlist : inbox.get splice.target = messages
  calc messages.slice start count ++
          (inbox.set splice.target (messages.splice start count splice.inserted)).pending
      ~ messages.slice start count ++
          (messages.splice start count splice.inserted ++ inbox.other splice.target) :=
        (inbox.pending_set_perm _ _).append_left _
    _ = messages.slice start count ++ messages.splice start count splice.inserted ++
          inbox.other splice.target := (append_assoc ..).symm
    _ ~ splice.inserted ++ messages ++ inbox.other splice.target :=
        (List.splice_perm messages splice.inserted start count).append_right _
    _ = splice.inserted ++ (inbox.get splice.target ++ inbox.other splice.target) := by
        rw [hlist, append_assoc]
    _ ~ splice.inserted ++ inbox.pending :=
        (inbox.pending_perm splice.target).symm.append_left _

end

end Inbox

/-! ## Replays -/

namespace Inbox

theorem replay_append (inbox : Inbox) (events more : List SessionEvent) :
    inbox.replay (events ++ more) = (inbox.replay events).bind fun inbox => inbox.replay more := by
  induction events generalizing inbox with
  | nil => rfl
  | cons event rest ih =>
    simp only [cons_append, replay]
    split
    · exact ih inbox
    split
    · rfl
    · exact ih _

variable {events : List SessionEvent} {inbox : Inbox}

/-- A log that grows past its seed replays to the old lists, continued. -/
theorem create_append {seedLength : Nat}
    (hseed : seedLength ≤ events.length) (h : create events seedLength = .ok inbox)
    (more : List SessionEvent) : create (events ++ more) seedLength = inbox.replay more := by
  unfold create at h ⊢
  rw [drop_append_of_le_length hseed, replay_append, h]
  rfl

theorem replay_of_forall_none {more : List SessionEvent}
    (h : ∀ event ∈ more, event.data.splice? = none) : inbox.replay more = .ok inbox := by
  induction more with
  | nil => rfl
  | cons event rest ih =>
    simp only [replay, h event mem_cons_self]
    exact ih fun e he => h e (mem_cons_of_mem _ he)

theorem replay_singleton {inbox inbox' : Inbox} {event : SessionEvent} {splice : InboxSplice}
    {removed : List UserMessage} (hevent : event.data.splice? = some splice)
    (h : inbox.apply splice = .ok (removed, inbox')) : inbox.replay [event] = .ok inbox' := by
  simp only [replay, hevent, h]

/-- A replay keeps the identities apart. -/
theorem replay_unique {inbox inbox' : Inbox}
    (hunique : (inbox.pending.map (·.id)).Nodup) (h : inbox.replay events = .ok inbox') :
    (inbox'.pending.map (·.id)).Nodup := by
  induction events generalizing inbox with
  | nil =>
    cases h
    exact hunique
  | cons event rest ih =>
    simp only [replay] at h
    split at h
    · exact ih hunique h
    split at h
    · cases h
    · rename_i happly
      exact ih (apply_unique happly) h

theorem create_unique {seedLength : Nat}
    (h : create events seedLength = .ok inbox) : (inbox.pending.map (·.id)).Nodup := by
  have hempty : (empty.pending.map (·.id)).Nodup := nodup_nil
  exact replay_unique hempty h

end Inbox

namespace InboxLedger

variable {ledger : InboxLedger}

theorem Balanced.enter (h : ledger.Balanced) (splice : InboxSplice) :
    (ledger.enter splice).Balanced := by
  unfold InboxLedger.enter
  split
  · exact h
  rename_i removed inbox happly
  have hmoved := Inbox.apply_perm happly
  unfold Balanced at h ⊢
  have hinserted : ledger.inserted ++ splice.inserted ~
      removed ++ inbox.pending ++ (ledger.claimed ++ ledger.discarded) := by
    calc ledger.inserted ++ splice.inserted
        ~ ledger.inbox.pending ++ ledger.claimed ++ ledger.discarded ++ splice.inserted :=
          h.append_right _
      _ ~ splice.inserted ++ (ledger.inbox.pending ++ ledger.claimed ++ ledger.discarded) :=
          perm_append_comm
      _ = splice.inserted ++ ledger.inbox.pending ++ (ledger.claimed ++ ledger.discarded) := by
          simp only [append_assoc]
      _ ~ removed ++ inbox.pending ++ (ledger.claimed ++ ledger.discarded) :=
          hmoved.symm.append_right _
  refine hinserted.trans ?_
  rw [append_assoc, append_assoc]
  cases splice.canceled with
  | true =>
    calc removed ++ (inbox.pending ++ (ledger.claimed ++ ledger.discarded))
        ~ inbox.pending ++ (ledger.claimed ++ ledger.discarded) ++ removed :=
          perm_append_comm
      _ = inbox.pending ++ (ledger.claimed ++ [] ++ (ledger.discarded ++ removed)) := by
          simp only [append_assoc, append_nil]
  | false =>
    calc removed ++ (inbox.pending ++ (ledger.claimed ++ ledger.discarded))
        ~ inbox.pending ++ (ledger.claimed ++ ledger.discarded) ++ removed :=
          perm_append_comm
      _ = inbox.pending ++ (ledger.claimed ++ (ledger.discarded ++ removed)) := by
          simp only [append_assoc]
      _ ~ inbox.pending ++ (ledger.claimed ++ (removed ++ ledger.discarded)) :=
          (perm_append_comm.append_left _).append_left _
      _ = inbox.pending ++ (ledger.claimed ++ removed ++ (ledger.discarded ++ [])) := by
          simp only [append_assoc, append_nil]

theorem Balanced.enterEvents (h : ledger.Balanced)
    (events : List SessionEvent) : (events.foldl enterEvent ledger).Balanced := by
  induction events generalizing ledger with
  | nil => exact h
  | cons event rest ih =>
    apply ih
    unfold enterEvent
    split
    · exact h
    · exact h.enter _

theorem ofLog_balanced (events : List SessionEvent) (seedLength : Nat) :
    (ofLog events seedLength).Balanced := by
  apply Balanced.enterEvents
  exact .refl _

/-- The ledger follows the lists of the replay. -/
theorem enterEvents_inbox {events : List SessionEvent} {inbox : Inbox}
    (h : ledger.inbox.replay events = .ok inbox) : (events.foldl enterEvent ledger).inbox = inbox := by
  induction events generalizing ledger with
  | nil =>
    cases h
    rfl
  | cons event rest ih =>
    apply ih
    cases hsplice : event.data.splice? with
    | none =>
      simp only [Inbox.replay, hsplice] at h
      simp only [enterEvent, hsplice]
      exact h
    | some splice =>
      cases happly : ledger.inbox.apply splice with
      | error e => simp only [Inbox.replay, hsplice, happly, reduceCtorEq] at h
      | ok outcome =>
        simp only [Inbox.replay, hsplice, happly] at h
        simp only [enterEvent, hsplice, enter, happly]
        exact h

theorem ofLog_inbox {events : List SessionEvent} {seedLength : Nat} {inbox : Inbox}
    (h : Inbox.create events seedLength = .ok inbox) : (ofLog events seedLength).inbox = inbox :=
  enterEvents_inbox h

end InboxLedger

end Harness
