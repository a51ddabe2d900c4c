-- SUMMARY: The session store with its entries, and the nesting of its dispatches as a call stack (`core/session/src/index.ts`).
import Harness.Session.Repair
import Harness.Lib.Transitions

/-!
# The session store

A dispatch hands control to its listeners, and these may call the store again. So there is a
stack of open dispatches: a call from outside or from a listener is a step, and so is the end of
the innermost dispatch. A listener that throws out of an announcement ends it; the listeners of
the other dispatches are contained.
-/

namespace Harness

namespace SessionStore

structure SessionObject where
  object : Nat
  id : JsString
  deriving DecidableEq

/-- All mutable lifecycle state of one exact store entry. -/
structure Entry where
  session : SessionObject
  announced : Bool
  announcing : Bool
  appending : Bool
  detachRequested : Bool
  /-- The entry's single-shot detach capability is unused. -/
  entered : Bool
  deriving DecidableEq

/-- A dispatch that is still running for an entry. -/
inductive Frame where
  /-- `session/created`. An announcement that `create` made is owned by its effect. -/
  | announce (ref : Nat) (owned : Bool)
  /-- The callbacks of `session/event` are being collected; a hook may veto. -/
  | collect (ref : Nat)
  /-- `session/event`. -/
  | publish (ref seq : Nat)
  /-- `session/disposed`. -/
  | dispose (ref : Nat)
  deriving DecidableEq

/-- What listeners and holders of the store get to see. -/
inductive Happening where
  | created (ref : Nat)
  | published (ref seq : Nat)
  | left (ref : Nat)
  | disposed (ref : Nat)
  deriving DecidableEq

structure Store where
  /-- Every entry ever made, by reference. -/
  entries : List Entry
  store : OrderedMap JsString Nat
  attachments : OrderedMap SessionObject Nat
  lengths : OrderedMap SessionObject Nat
  /-- The dispatches that are running, innermost first. -/
  stack : List Frame
  /-- What has happened, newest first. -/
  log : List Happening
  deriving DecidableEq

namespace Store

def init : Store := ⟨[], [], [], [], [], []⟩

/-! ## Leaving -/

variable (s : Store)

/-- `detachEntered`: remove one exact entry, and dispatch its paired disposal. -/
def detachEntered (ref : Nat) : Store :=
  match s.entries[ref]? with
  | none => s
  | some entry =>
    let s := { s with entries := s.entries.set ref { entry with detachRequested := false } }
    if s.store.get? entry.session.id ≠ some ref then s
    else
      let s := { s with
        store := s.store.delete entry.session.id
        attachments := s.attachments.delete entry.session
        log := .left ref :: s.log }
      if entry.announced then
        { s with log := .disposed ref :: s.log, stack := .dispose ref :: s.stack }
      else s

/-- The detach capability of an entry. -/
def detach (ref : Nat) : Store :=
  match s.entries[ref]? with
  | none => s
  | some entry =>
    if !entry.entered then s
    else if entry.announcing || entry.appending then
      -- the dispatch that is running finishes first
      { s with entries := s.entries.set ref { entry with entered := false, detachRequested := true } }
    else
      ({ s with entries := s.entries.set ref { entry with entered := false } } : Store).detachEntered
        ref

/-! ## Entering and announcing -/

def alreadyExists (id : JsString) : JsString :=
  JsString.ofString "session \"" ++ id ++ JsString.ofString "\" already exists"

def alreadyAttached (id : JsString) : JsString :=
  JsString.ofString "session \"" ++ id ++ JsString.ofString "\" is already attached to a store"

def notLive (id : JsString) : JsString :=
  JsString.ofString "session \"" ++ id ++ JsString.ofString "\" is not live in this store"

def alreadyAnnounced (id : JsString) : JsString :=
  JsString.ofString "session \"" ++ id ++ JsString.ofString "\" was already announced"

variable (session : SessionObject)

/-- `enter`: the reference of the new entry stands for its detach capability. -/
def enter : Except JsString Nat × Store :=
  if (s.store.get? session.id).isSome then (.error (alreadyExists session.id), s)
  else if (s.attachments.get? session).isSome then (.error (alreadyAttached session.id), s)
  else
    let ref := s.entries.length
    (.ok ref,
      { s with
        entries := s.entries ++ [⟨session, false, false, false, false, true⟩]
        store := s.store.set session.id ref
        attachments := s.attachments.set session ref })

/-- Return the exact live entry; detached and prepared objects reject. -/
def liveEntryFor : Except JsString (Nat × Entry) :=
  match s.attachments.get? session with
  | none => .error (notLive session.id)
  | some ref =>
    match s.entries[ref]? with
    | none => .error (notLive session.id)
    | some entry =>
      if s.store.get? entry.session.id = some ref then .ok (ref, entry)
      else .error (notLive session.id)

/-- `announce` up to its dispatch. -/
def beginAnnounce (owned : Bool) : Except JsString Unit × Store :=
  match s.liveEntryFor session with
  | .error e => (.error e, s)
  | .ok (ref, entry) =>
    if entry.announced || entry.announcing then (.error (alreadyAnnounced session.id), s)
    else
      (.ok (),
        { s with
          entries := s.entries.set ref { entry with announced := true, announcing := true }
          stack := .announce ref owned :: s.stack
          log := .created ref :: s.log })

/-- The `finally` of an announcement, and behind it the rollback of an effect that owns it. -/
def finishAnnounce (ref : Nat) (owned threw : Bool) : Store :=
  match s.entries[ref]? with
  | none => s
  | some entry =>
    let s := { s with entries := s.entries.set ref { entry with announcing := false } }
    let s := if entry.detachRequested && !entry.appending then s.detachEntered ref else s
    if threw && owned then s.detach ref else s

/-- `create` of a prepared session: enter, then announce in one effect. -/
def create : Except JsString Unit × Store :=
  match s.enter session with
  | (.error e, s) => (.error e, s)
  | (.ok _, s) => s.beginAnnounce session true

/-! ## Appending -/

/-- The event enters the session's log. -/
def push : Store :=
  { s with lengths := s.lengths.set session ((s.lengths.get? session).getD 0 + 1) }

/-- `append` of an acceptable event, up to the hooks that may veto its dispatch. A session object
without an entry has nobody to tell. -/
def append (s : Store) (session : SessionObject) : Except JsString Unit × Store :=
  match s.attachments.get? session with
  | none => (.ok (), s.push session)
  | some ref =>
    match s.entries[ref]? with
    | none => (.ok (), s.push session)
    | some entry =>
      if entry.appending then
        (.error "session append cannot reenter while another append is being published", s)
      else
        (.ok (),
          { s with
            entries := s.entries.set ref { entry with appending := true }
            stack := .collect ref :: s.stack })

/-- The `finally` of an append. -/
def finishAppend (ref : Nat) : Store :=
  match s.entries[ref]? with
  | none => s
  | some entry =>
    let s := { s with entries := s.entries.set ref { entry with appending := false } }
    if entry.detachRequested && !entry.announcing then s.detachEntered ref else s

/-- The callbacks are collected: the event enters the log and its publication begins. -/
def publish (ref : Nat) (rest : List Frame) : Store :=
  match s.entries[ref]? with
  | none => s
  | some entry =>
    let seq := (s.lengths.get? entry.session).getD 0
    let s := s.push entry.session
    { s with stack := .publish ref seq :: rest, log := .published ref seq :: s.log }

/-! ## Steps -/

inductive Action where
  | enter (session : SessionObject)
  | create (session : SessionObject)
  | detach (ref : Nat)
  | announce (session : SessionObject)
  | append (session : SessionObject)
  /-- The callbacks of the innermost `session/event` are collected, or a hook throws. -/
  | collected (vetoed : Bool)
  /-- The listeners of the innermost dispatch are done, or one of them throws. -/
  | finish (threw : Bool)
  deriving DecidableEq

/-- One step. A call that throws changes nothing; its caller goes on. -/
def step : Action → Option Store
  | .enter session => some (s.enter session).2
  | .create session => some (s.create session).2
  | .detach ref => some (s.detach ref)
  | .announce session => some (s.beginAnnounce session false).2
  | .append session => some (s.append session).2
  | .collected vetoed =>
    match s.stack with
    | .collect ref :: rest =>
      if vetoed then some (({ s with stack := rest } : Store).finishAppend ref)
      else some (s.publish ref rest)
    | _ => none
  | .finish threw =>
    match s.stack with
    | .announce ref owned :: rest =>
      some (({ s with stack := rest } : Store).finishAnnounce ref owned threw)
    | .publish ref _ :: rest => some (({ s with stack := rest } : Store).finishAppend ref)
    | .dispose _ :: rest => some { s with stack := rest }
    | _ => none

end Store

end SessionStore

end Harness
