-- SUMMARY: Projection units of `session-projection/src/index.ts`: their fold, their cells, and the checkpoint rows a cold read seeds it from.
import Harness.Session.Types

/-!
# Projection units

A unit folds the events of a session into a state, and shows that state to readers
through its view and its schema. A checkpoint row keeps a state with the sequence number
of the last event folded into it.
-/

namespace Harness.SessionProjections

open List

/-! ## Definitions -/

/-- What a transition returns: the state it was given, by reference, or another one. -/
inductive Applied (S : Type) where
  | same
  | changed (next : S)

/-- The state after a transition from `state`. -/
def Applied.stateFrom {S : Type} (state : S) : Applied S → S
  | .same => state
  | .changed next => next

/-- Whether the reference is another one. -/
def Applied.isChanged {S : Type} : Applied S → Bool
  | .same => false
  | .changed _ => true

/-- One domain's unit, with its states and its values erased to `S` and `V`. The
transition, the view and the schema may throw, which is `none`. -/
structure ProjectionDefinition (S V : Type) where
  key : String
  /-- Validates the output of the view. -/
  schema : V → Option V
  /-- State for the empty log. -/
  init : S
  apply : S → SessionEvent → Option (Applied S)
  view : S → Option V
  stateVersion : Int

variable {S V : Type}

namespace ProjectionDefinition

variable (definition : ProjectionDefinition S V)

/-- The state after one more event. -/
def next (state : S) (event : SessionEvent) : Option S :=
  (definition.apply state event).map (Applied.stateFrom state)

/-- Apply the unit to some events in turn. -/
def applyAll (state : S) (events : List SessionEvent) : Option S :=
  events.foldlM definition.next state

/-- The fold from the initial state. -/
def fold (events : List SessionEvent) : Option S :=
  definition.applyAll definition.init events

/-- The value of a state, as it leaves the host. -/
def value (state : S) : Option V :=
  (definition.view state).bind definition.schema

theorem applyAll_append (state : S) (events events' : List SessionEvent) :
    definition.applyAll state (events ++ events') =
      (definition.applyAll state events).bind fun state => definition.applyAll state events' :=
  foldlM_append

theorem fold_append (events events' : List SessionEvent) :
    definition.fold (events ++ events') =
      (definition.fold events).bind fun state => definition.applyAll state events' :=
  definition.applyAll_append definition.init events events'

theorem fold_concat (events : List SessionEvent) (event : SessionEvent) :
    definition.fold (events ++ [event]) =
      (definition.fold events).bind fun state => definition.next state event := by
  rw [fold_append]
  congr 1
  funext state
  simp [applyAll]

end ProjectionDefinition

/-! ## Cells -/

/-- The sequence number of the last event, `-1` for the empty log. -/
def lastSeq (events : List SessionEvent) : Int :=
  match events.getLast? with
  | none => -1
  | some event => event.seq

/-- Per-session per-unit watermark cache row. -/
structure UnitCell (S : Type) where
  state : S
  /-- Seq of the last event passed through the transition. -/
  observedSeq : Int

/-- Fold one unit from its initial state over `events`. -/
def buildCell (definition : ProjectionDefinition S V) (events : List SessionEvent) :
    Option (UnitCell S) :=
  (definition.fold events).map fun state => { state, observedSeq := lastSeq events }

/-- A log whose sequence numbers count from `base`. -/
def NumberedFrom (base : Nat) (events : List SessionEvent) : Prop :=
  ∀ i (h : i < events.length), events[i].seq = base + i

/-- The sequence number of an event is its place in the log. -/
abbrev Numbered (events : List SessionEvent) : Prop := NumberedFrom 0 events

variable {base : Nat} {events : List SessionEvent}

theorem NumberedFrom.lastSeq (h : NumberedFrom base events) (hne : events ≠ []) :
    lastSeq events = base + events.length - 1 := by
  have hpos : 0 < events.length := length_pos_iff.mpr hne
  have hlast := h (events.length - 1) (by omega)
  rw [SessionProjections.lastSeq, getLast?_eq_getElem?,
    getElem?_eq_getElem (by omega)]
  simp only [hlast]
  omega

theorem Numbered.lastSeq (h : Numbered events) : lastSeq events = (events.length : Int) - 1 := by
  cases events with
  | nil => rfl
  | cons event events =>
    rw [NumberedFrom.lastSeq h (cons_ne_nil _ _)]
    omega

theorem NumberedFrom.concat {event : SessionEvent}
    (h : NumberedFrom base events) (hseq : event.seq = base + events.length) :
    NumberedFrom base (events ++ [event]) := by
  intro i hi
  rw [length_append, length_singleton] at hi
  rcases Nat.lt_or_ge i events.length with hlt | hge
  · rw [getElem_append_left hlt]
    exact h i hlt
  have hi' : i = events.length := by omega
  subst hi'
  simp [hseq]

theorem NumberedFrom.append {events events' : List SessionEvent}
    (h : NumberedFrom base events) (h' : NumberedFrom (base + events.length) events') :
    NumberedFrom base (events ++ events') := by
  intro i hi
  rw [length_append] at hi
  rcases Nat.lt_or_ge i events.length with hlt | hge
  · rw [getElem_append_left hlt]
    exact h i hlt
  · rw [getElem_append_right hge, h']
    omega

theorem Numbered.append {events events' : List SessionEvent} (h : Numbered events)
    (h' : NumberedFrom events.length events') : Numbered (events ++ events') :=
  NumberedFrom.append h (by rw [Nat.zero_add]; exact h')

/-- Whether the events are numbered from `base` on. -/
def numberedFrom (base : Nat) (events : List SessionEvent) : Bool :=
  events.zipIdx.all fun (event, i) => event.seq == base + i

theorem numberedFrom_iff : numberedFrom base events = true ↔ NumberedFrom base events := by
  rw [numberedFrom, all_eq_true]
  constructor
  · intro h i hi
    have hmem : (events[i], i) ∈ events.zipIdx := by
      rw [mem_zipIdx_iff_getElem?]
      exact getElem?_eq_getElem hi
    exact beq_iff_eq.mp (h _ hmem)
  · rintro h ⟨event, i⟩ hmem
    have hget : events[i]? = some event := mem_zipIdx_iff_getElem?.mp hmem
    obtain ⟨hi, hevent⟩ := List.getElem?_eq_some_iff.mp hget
    have hseq : events[i].seq = base + i := h i hi
    rw [hevent] at hseq
    exact beq_iff_eq.mpr hseq

theorem NumberedFrom.drop
    (h : NumberedFrom base events) (n : Nat) : NumberedFrom (base + n) (events.drop n) := by
  intro i hi
  rw [getElem_drop, h]
  omega

theorem NumberedFrom.take
    (h : NumberedFrom base events) (n : Nat) : NumberedFrom base (events.take n) := by
  intro i hi
  rw [getElem_take]
  exact h i (by simp at hi; omega)

end Harness.SessionProjections
