-- SUMMARY: The projection registry of `session-projection/src/index.ts` as a state machine: registrations, lazily built cells, and the drive inside the publication of an append.
import Harness.Projections.Units
import Harness.Lib.Transitions

/-!
# The projection registry

The registry is one observer of every append. An append pushes its event to the log and
then runs the observers in order, each of them contained: what one of them throws ends
that observer only. Observers stand before the registry and after it, and change
listeners run inside its drive; whatever runs there may read, register, or append to
another session, whose publication is then open inside this one.
-/

namespace Harness.SessionProjections

variable {S V Id : Type} [DecidableEq Id]

/-! ## State -/

/-- One live registration: the unit plus its per-session cells. `place` is the place of
its insertion in the map, which no later insertion shares. -/
structure Registration (S V Id : Type) where
  place : Nat
  definition : ProjectionDefinition S V
  cells : Id → Option (UnitCell S)
  /-- Live registrants sharing this unit. -/
  refs : Nat

/-- How far the observers of an event have come. -/
inductive Phase where
  /-- The observers before the registry run. -/
  | before
  /-- The drive has passed the registrations placed below `cursor`; `notifying` while the
  change listeners of the last one run. -/
  | driving (cursor : Nat) (notifying : Bool)
  /-- The drive has returned or thrown; the observers after the registry run. -/
  | after
  deriving DecidableEq

structure Publication (Id : Type) where
  session : Id
  event : SessionEvent
  phase : Phase

structure Registry (S V Id : Type) where
  logs : Id → List SessionEvent
  /-- The registrations in insertion order. -/
  registrations : List (Registration S V Id)
  nextPlace : Nat
  /-- How many change listeners are subscribed. -/
  listeners : Nat
  /-- The open publications, the innermost first. -/
  publications : List (Publication Id)

/-! ## Cells -/

namespace Registration

/-- Hold `cell` for one session. -/
def setCell (registration : Registration S V Id) (id : Id) (cell : UnitCell S) :
    Registration S V Id :=
  { registration with
    cells := fun other => if other = id then some cell else registration.cells other }

/-- The cell of a session, built over `events` where there is none. -/
def cellOver (registration : Registration S V Id) (id : Id) (events : List SessionEvent) :
    Option (UnitCell S) :=
  match registration.cells id with
  | some cell => some cell
  | none => buildCell registration.definition events

end Registration

/-- One read over every registration: `cellFor` for each in turn, then `read` of its
cell. What throws ends the read, and the cells built by then stay. -/
def readAll {β : Type} (read : ProjectionDefinition S V → UnitCell S → Option β) (id : Id)
    (events : List SessionEvent) :
    List (Registration S V Id) → List (Registration S V Id) × Option (List (String × β))
  | [] => ([], some [])
  | registration :: rest =>
    match registration.cellOver id events with
    | none => (registration :: rest, none)
    | some cell =>
      let built := registration.setCell id cell
      match read registration.definition cell with
      | none => (built :: rest, none)
      | some value =>
        let (rest, values) := readAll read id events rest
        (built :: rest, values.map fun values => (registration.definition.key, value) :: values)

/-! ## Rows and snapshots -/

/-- One consistent read cut over every registered unit for one session. -/
structure ProjectionSnapshot (V : Type) where
  asOfSeq : Int
  values : List (String × V)

structure ProjectionCheckpointRow (S : Type) where
  ver : Int
  seq : Int
  val : S

abbrev ProjectionCheckpoint (S : Type) := List (String × ProjectionCheckpointRow S)

/-- The value of a cell in a snapshot. -/
def readValue (definition : ProjectionDefinition S V) (cell : UnitCell S) : Option V :=
  definition.value cell.state

def readRow (definition : ProjectionDefinition S V) (cell : UnitCell S) :
    Option (ProjectionCheckpointRow S) :=
  some { ver := definition.stateVersion, seq := cell.observedSeq, val := cell.state }

namespace Registry

variable (r : Registry S V Id)

/-- The values of every registered unit for one session, and the registry with the cells
the read has built. -/
def snapshot (id : Id) : Option (ProjectionSnapshot V) × Registry S V Id :=
  let (registrations, values) := readAll readValue id (r.logs id) r.registrations
  (values.map fun values => { asOfSeq := ((r.logs id).length : Int) - 1, values },
    { r with registrations })

/-- The rows of every registered unit for one session. -/
def checkpoint (id : Id) : Option (ProjectionCheckpoint S) × Registry S V Id :=
  let (registrations, rows) := readAll readRow id (r.logs id) r.registrations
  (rows, { r with registrations })

/-! ## Registration -/

/-- `Number.isSafeInteger(v) && v >= 0`. -/
def validVersion (version : Int) : Bool := decide (0 ≤ version ∧ version ≤ 9007199254740991)

/-- Register a unit, or count one more registrant of its key. Nothing where it throws. -/
def register (definition : ProjectionDefinition S V) : Option (Registry S V Id) :=
  if !validVersion definition.stateVersion then none
  else
    match r.registrations.find? (·.definition.key = definition.key) with
    | none =>
      some { r with
        registrations := r.registrations ++
          [{ place := r.nextPlace, definition, cells := fun _ => none, refs := 1 }]
        nextPlace := r.nextPlace + 1 }
    | some existing =>
      if existing.definition.stateVersion != definition.stateVersion then none
      else
        some { r with
          registrations := r.registrations.map fun registration =>
            if registration.place = existing.place then
              { registration with refs := registration.refs + 1 }
            else registration }

/-- The disposer of one registrant of `key`: the last one out removes the key. -/
def dispose (key : String) : Registry S V Id :=
  { r with
    registrations := r.registrations.filterMap fun registration =>
      if registration.definition.key = key then
        if registration.refs ≤ 1 then none
        else some { registration with refs := registration.refs - 1 }
      else some registration }

/-! ## Publication -/

/-- Whether code outside the registry runs: between publications, in an observer, or in a
change listener. -/
def foreignRuns : Bool :=
  match r.publications with
  | [] => true
  | publication :: _ =>
    match publication.phase with
    | .before => true
    | .driving _ notifying => notifying
    | .after => true

/-- Push the event and open its publication. An append to a session in publication throws
before the log changes, and so does a candidate the session does not number next. -/
def append (id : Id) (event : SessionEvent) : Option (Registry S V Id) :=
  if r.publications.any (·.session = id) || event.seq != (r.logs id).length then none
  else
    some { r with
      logs := fun other => if other = id then r.logs id ++ [event] else r.logs other
      publications := { session := id, event, phase := .before } :: r.publications }

/-- The first registration at or behind the cursor: how a live iteration of a map goes
on after insertions and deletions. -/
def nextUnit (cursor : Nat) : Option (Registration S V Id) :=
  r.registrations.find? fun registration => decide (cursor ≤ registration.place)

/-- The registrations with the cell of one session replaced in one of them. -/
def withCell (place : Nat) (id : Id) (cell : UnitCell S) : List (Registration S V Id) :=
  r.registrations.map fun registration =>
    if registration.place = place then registration.setCell id cell else registration

/-- One turn of the drive's loop: the cell the unit is left with, if any, and whether the
change listeners are to be notified, which is `none` where the turn throws. -/
def unitTurn (listeners : Nat) (registration : Registration S V Id) (id : Id)
    (events : List SessionEvent) (event : SessionEvent) : Option (UnitCell S) × Option Bool :=
  let definition := registration.definition
  -- late build mid-stream: the history before this event
  match registration.cellOver id (events.take event.seq) with
  | none => (none, none)
  | some cell =>
    match definition.apply cell.state event with
    | none => (some cell, none)
    | some applied =>
      let next := applied.stateFrom cell.state
      let driven : UnitCell S := { state := next, observedSeq := event.seq }
      if applied.isChanged && decide (0 < listeners) then
        (some driven, (definition.value next).map fun _ => true)
      else (some driven, some false)

/-- The drive goes on to its next unit: the registrations after that turn, and how far the
drive is then. -/
def driveUnit (publication : Publication Id) (cursor : Nat) : List (Registration S V Id) × Phase :=
  match r.nextUnit cursor with
  | none => (r.registrations, .after)
  | some registration =>
    let id := publication.session
    let (cell, notify) := unitTurn r.listeners registration id (r.logs id) publication.event
    (match cell with
      | none => r.registrations
      | some cell => r.withCell registration.place id cell,
     match notify with
      | none => .after
      | some notifying => .driving (registration.place + 1) notifying)

/-- One action of the program around the registry, or of the publication in progress. -/
inductive Action (S V Id : Type) where
  | register (definition : ProjectionDefinition S V)
  | dispose (key : String)
  | subscribe
  | unsubscribe
  | snapshot (id : Id)
  | checkpoint (id : Id)
  | append (id : Id) (event : SessionEvent)
  /-- The registry's turn among the observers comes. -/
  | drive
  /-- The drive goes on to its next unit, or returns behind the last one. -/
  | driveUnit
  /-- A change listener throws. -/
  | listenerThrows
  /-- The last observer has returned. -/
  | published

/-- Set the phase of the innermost publication. -/
def withPhase (publications : List (Publication Id)) (phase : Phase) : List (Publication Id) :=
  match publications with
  | [] => []
  | publication :: rest => { publication with phase } :: rest

/-- An action of code outside the registry. -/
def foreignStep : Action S V Id → Option (Registry S V Id)
  | .register definition => r.register definition
  | .dispose key => some (r.dispose key)
  | .subscribe => some { r with listeners := r.listeners + 1 }
  | .unsubscribe => some { r with listeners := r.listeners - 1 }
  | .snapshot id => some (r.snapshot id).2
  | .checkpoint id => some (r.checkpoint id).2
  | .append id event => r.append id event
  | _ => none

/-- An action of the innermost publication. -/
def publicationStep (publication : Publication Id)
    (rest : List (Publication Id)) : Action S V Id → Option (Registry S V Id)
  | .drive =>
    if publication.phase = .before then
      some { r with publications := withPhase r.publications (.driving 0 false) }
    else none
  | .driveUnit =>
    match publication.phase with
    | .driving cursor _ =>
      let (registrations, phase) := r.driveUnit publication cursor
      some { r with registrations, publications := withPhase r.publications phase }
    | _ => none
  | .listenerThrows =>
    match publication.phase with
    | .driving _ true => some { r with publications := withPhase r.publications .after }
    | _ => none
  | .published => if publication.phase = .after then some { r with publications := rest } else none
  | _ => none

/-- One action, where it is enabled. -/
def step (act : Action S V Id) : Option (Registry S V Id) :=
  match act with
  | .drive | .driveUnit | .listenerThrows | .published =>
    match r.publications with
    | [] => none
    | publication :: rest => r.publicationStep publication rest act
  | _ => if r.foreignRuns then r.foreignStep act else none

/-- A new registry among sessions that may hold events already. -/
def start (logs : Id → List SessionEvent) : Registry S V Id :=
  { logs, registrations := [], nextPlace := 0, listeners := 0, publications := [] }

end Registry

end Harness.SessionProjections
