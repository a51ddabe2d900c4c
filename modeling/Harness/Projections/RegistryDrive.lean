-- SUMMARY: The invariant of the projection registry in an orderly run: each unit is driven through every event that is not still to come to it.
import Mathlib.Data.List.Nodup
import Harness.Projections.Registry

/-!
# Driving the cells

A cell is built from a log that may hold the event in publication, and a throw in one
unit ends the drive for the units behind it. So a unit is caught up with the log in the
runs in which no read builds or shows its cell ahead of its turn, and no throw takes its
turn away.
-/

namespace Harness.SessionProjections

open List

variable {S V Id : Type} [DecidableEq Id]

/-! ## Orderly runs -/

/-- Whether the drive has still to come to the unit at `place`. -/
def Phase.awaits (place : Nat) : Phase → Bool
  | .before => true
  | .driving cursor _ => decide (cursor ≤ place)
  | .after => false

/-- Whether a read gets as far as the unit at `place`: no unit before it throws. -/
def readReaches {β : Type} (read : ProjectionDefinition S V → UnitCell S → Option β) (id : Id)
    (events : List SessionEvent) (place : Nat) : List (Registration S V Id) → Bool
  | [] => false
  | registration :: rest =>
    registration.place = place ||
      (((registration.cellOver id events).bind (read registration.definition)).isSome &&
        readReaches read id events place rest)

namespace Registry

/-- An event of the session is in publication and has yet to be driven through the unit. -/
def awaiting (r : Registry S V Id) (place : Nat) (id : Id) : Bool :=
  r.publications.any fun publication => publication.session = id && publication.phase.awaits place

/-- Whether the unit has a cell for the session. -/
def hasCell (r : Registry S V Id) (place : Nat) (id : Id) : Bool :=
  r.registrations.any fun registration =>
    registration.place = place && (registration.cells id).isSome

/-- The drive of `publication` is at or before the unit at `place` for session `id`. -/
def drivingBefore (publication : Publication Id) (place : Nat) (id : Id) (cursor : Nat) : Prop :=
  publication.session = id ∧ cursor ≤ place ∧ ∃ notifying, publication.phase = .driving cursor notifying

/-- The condition on one step, for one unit and one session. While an event of the session
is in publication and the drive has not passed the unit, no snapshot comes to the unit, a
checkpoint comes to it only if it has its cell, and no throw ends the drive: none in the
turn of a unit before it or in a listener once the unit has a cell, none in its own
transition. -/
def Orderly (place : Nat) (id : Id) (r : Registry S V Id) : Action S V Id → Prop
  | .snapshot other => other = id → r.awaiting place id = true →
      readReaches readValue id (r.logs id) place r.registrations = false
  | .checkpoint other => other = id → r.awaiting place id = true →
      readReaches readRow id (r.logs id) place r.registrations = true → r.hasCell place id = true
  | .driveUnit => ∀ publication ∈ r.publications.head?, ∀ cursor,
      drivingBefore publication place id cursor →
      ∀ registration ∈ r.nextUnit cursor,
        if registration.place = place then
          ∀ cell, registration.cellOver id ((r.logs id).take publication.event.seq) = some cell →
            (registration.definition.apply cell.state publication.event).isSome
        else
          r.hasCell place id = true →
            (unitTurn r.listeners registration id (r.logs id) publication.event).2.isSome
  | .listenerThrows => ∀ publication ∈ r.publications.head?, ∀ cursor,
      drivingBefore publication place id cursor → r.hasCell place id = false
  | _ => True

end Registry

/-! ## Reads -/

@[simp] theorem Registration.setCell_place (registration : Registration S V Id) (id : Id)
    (cell : UnitCell S) : (registration.setCell id cell).place = registration.place := rfl

theorem Registration.setCell_same (registration : Registration S V Id) (id : Id)
    (cell : UnitCell S) : (registration.setCell id cell).cells id = some cell := by
  simp [Registration.setCell]

theorem Registration.setCell_other (registration : Registration S V Id) {id other : Id}
    (cell : UnitCell S) (h : other ≠ id) :
    (registration.setCell id cell).cells other = registration.cells other := by
  simp [Registration.setCell, h]

section Reads

variable {β : Type} {read : ProjectionDefinition S V → UnitCell S → Option β} {id : Id}
  {events : List SessionEvent}

/-- `after` is one of the registrations, left as it was or with the cell that a read built
on getting there. -/
def LeftByRead (read : ProjectionDefinition S V → UnitCell S → Option β) (id : Id)
    (events : List SessionEvent) (registrations : List (Registration S V Id))
    (after : Registration S V Id) : Prop :=
  ∃ registration ∈ registrations, after = registration ∨
    readReaches read id events registration.place registrations = true ∧
      ∃ cell, registration.cellOver id events = some cell ∧ after = registration.setCell id cell

variable {registrations : List (Registration S V Id)}

theorem LeftByRead.unread {after : Registration S V Id} (hmem : after ∈ registrations) :
    LeftByRead read id events registrations after :=
  ⟨after, hmem, .inl rfl⟩

theorem LeftByRead.first {registration : Registration S V Id} {cell : UnitCell S}
    (rest : List (Registration S V Id)) (hcell : registration.cellOver id events = some cell) :
    LeftByRead read id events (registration :: rest) (registration.setCell id cell) :=
  ⟨registration, mem_cons_self, .inr ⟨by simp [readReaches], cell, hcell, rfl⟩⟩

theorem LeftByRead.behind {registration after : Registration S V Id} {cell : UnitCell S}
    {value : β} {rest : List (Registration S V Id)}
    (hcell : registration.cellOver id events = some cell)
    (hread : read registration.definition cell = some value)
    (h : LeftByRead read id events rest after) :
    LeftByRead read id events (registration :: rest) after := by
  obtain ⟨registration', hmem, hcase⟩ := h
  refine ⟨registration', mem_cons_of_mem _ hmem, ?_⟩
  rcases hcase with heq | ⟨hreach, hbuilt⟩
  · exact .inl heq
  · exact .inr ⟨by simp [readReaches, hcell, hread, hreach], hbuilt⟩

/-- A read changes no registration but for the cell it builds on getting there. -/
theorem mem_readAll {after : Registration S V Id}
    (hmem : after ∈ (readAll read id events registrations).1) :
    LeftByRead read id events registrations after := by
  induction registrations with
  | nil => cases hmem
  | cons registration rest ih =>
    cases hcell : registration.cellOver id events with
    | none =>
      simp only [readAll, hcell] at hmem
      exact .unread hmem
    | some cell =>
      cases hread : read registration.definition cell with
      | none =>
        simp only [readAll, hcell, hread] at hmem
        rcases mem_cons.mp hmem with rfl | hrest
        · exact .first rest hcell
        · exact .unread (mem_cons_of_mem _ hrest)
      | some value =>
        simp only [readAll, hcell, hread] at hmem
        rcases mem_cons.mp hmem with rfl | hrest
        · exact .first rest hcell
        · exact .behind hcell hread (ih hrest)

/-- A read that returns has got to every registration and shows what it read there. -/
theorem readAll_returns {values : List (String × β)}
    (hreturns : (readAll read id events registrations).2 = some values)
    {registration : Registration S V Id} (hmem : registration ∈ registrations) :
    readReaches read id events registration.place registrations = true ∧
      ∃ cell value, registration.cellOver id events = some cell ∧
        read registration.definition cell = some value ∧
        (registration.definition.key, value) ∈ values := by
  induction registrations generalizing values with
  | nil => cases hmem
  | cons first rest ih =>
    cases hcell : first.cellOver id events with
    | none => simp [readAll, hcell] at hreturns
    | some cell =>
      cases hread : read first.definition cell with
      | none => simp [readAll, hcell, hread] at hreturns
      | some value =>
        simp only [readAll, hcell, hread, Option.map_eq_some_iff] at hreturns
        obtain ⟨rest', hrest, rfl⟩ := hreturns
        rcases mem_cons.mp hmem with rfl | hmem
        · exact ⟨by simp [readReaches], cell, value, hcell, hread, mem_cons_self⟩
        obtain ⟨hreach, cell', value', hcell', hread', hmem'⟩ := ih hrest hmem
        refine ⟨?_, cell', value', hcell', hread', mem_cons_of_mem _ hmem'⟩
        simp [readReaches, hcell, hread, hreach]

/-- A read keeps the order of the registrations. -/
theorem readAll_places (registrations : List (Registration S V Id)) :
    (readAll read id events registrations).1.map (·.place) = registrations.map (·.place) := by
  induction registrations with
  | nil => rfl
  | cons registration rest ih =>
    cases hcell : registration.cellOver id events with
    | none => simp [readAll, hcell]
    | some cell =>
      cases hread : read registration.definition cell with
      | none => simp [readAll, hcell, hread]
      | some value => simp [readAll, hcell, hread, ih]

end Reads

/-! ## Caught up -/

namespace Registry

/-- What a unit at `place` has been driven through: the log but for an event it awaits. -/
def driven (r : Registry S V Id) (place : Nat) (id : Id) : List SessionEvent :=
  if r.awaiting place id then (r.logs id).dropLast else r.logs id

/-- The invariant of every run. -/
structure Inv (r : Registry S V Id) : Prop where
  numbered : ∀ id, Numbered (r.logs id)
  ordered : (r.registrations.map (·.place)).Pairwise (· < ·)
  placed : ∀ place ∈ r.registrations.map (·.place), place < r.nextPlace
  last : ∀ publication ∈ r.publications, ∃ before,
    r.logs publication.session = before ++ [publication.event] ∧
      publication.event.seq = before.length
  single : (r.publications.map (·.session)).Nodup

/-- The invariant of an orderly run, for one unit and one session. -/
structure CaughtUp (place : Nat) (id : Id) (r : Registry S V Id) : Prop extends r.Inv where
  cells : ∀ registration ∈ r.registrations, registration.place = place →
    ∀ cell, registration.cells id = some cell →
      registration.definition.fold (r.driven place id) = some cell.state ∧
      cell.observedSeq = ((r.driven place id).length : Int) - 1

variable {r : Registry S V Id} {place : Nat} {id : Id}

omit [DecidableEq Id] in
/-- Two registrations do not share a place. -/
theorem Inv.unique (h : r.Inv) {registration registration' : Registration S V Id}
    (hmem : registration ∈ r.registrations) (hmem' : registration' ∈ r.registrations)
    (hplace : registration.place = registration'.place) : registration = registration' := by
  have hnodup : (r.registrations.map (·.place)).Nodup := h.ordered.imp Nat.ne_of_lt
  exact inj_on_of_nodup_map hnodup hmem hmem' hplace

variable {r' : Registry S V Id}

/-- A unit keeps being caught up while its cell stays and nothing more is driven. -/
theorem CaughtUp.of_kept (h : CaughtUp place id r) (hinv : r'.Inv)
    (hkept : ∀ after ∈ r'.registrations, after.place = place → ∀ cell, after.cells id = some cell →
      ∃ registration ∈ r.registrations, registration.place = place ∧
        registration.definition = after.definition ∧ registration.cells id = some cell)
    (hdriven : r'.driven place id = r.driven place id) : CaughtUp place id r' where
  toInv := hinv
  cells := by
    intro after hmem hplace cell hcell
    obtain ⟨registration, hmem', hplace', hdefinition, hcell'⟩ := hkept after hmem hplace cell hcell
    rw [hdriven, ← hdefinition]
    exact h.cells registration hmem' hplace' cell hcell'

/-- No unit awaits an event of a session that is not in publication. -/
theorem awaiting_of_not_any (h : r.publications.any (·.session = id) = false) :
    r.awaiting place id = false := by
  rw [awaiting, any_eq_false]
  intro publication hmem hawaits
  rw [any_eq_false] at h
  simp only [Bool.and_eq_true] at hawaits
  exact h publication hmem hawaits.1

variable {publication : Publication Id} {rest : List (Publication Id)}

/-- The session of the innermost publication has no other open publication. -/
theorem awaiting_head (hpublications : r.publications = publication :: rest)
    (hsingle : (r.publications.map (·.session)).Nodup) :
    r.awaiting place publication.session = publication.phase.awaits place := by
  rw [hpublications, map_cons, nodup_cons] at hsingle
  have hrest : (rest.any fun other =>
      other.session = publication.session && other.phase.awaits place) = false := by
    rw [any_eq_false]
    intro other hmem hawaits
    simp only [Bool.and_eq_true, decide_eq_true_eq] at hawaits
    exact hsingle.1 (hawaits.1 ▸ mem_map_of_mem hmem)
  rw [awaiting, hpublications, any_cons, hrest]
  simp

/-! ## Registration -/

theorem CaughtUp.register {definition : ProjectionDefinition S V}
    (h : CaughtUp place id r) (hstep : r.register definition = some r') :
    CaughtUp place id r' := by
  unfold Registry.register at hstep
  split at hstep
  · cases hstep
  split at hstep
  · -- a new key
    cases hstep
    refine h.of_kept ?_ ?_ rfl
    · refine { h.toInv with ordered := ?_, placed := ?_ }
      · simp only [map_append, map_cons, map_nil]
        refine pairwise_append.mpr ⟨h.ordered, pairwise_singleton _ _, ?_⟩
        intro before hbefore new hnew
        rw [mem_singleton.mp hnew]
        exact h.placed before hbefore
      · intro place hplace
        simp only [map_append, map_cons, map_nil, mem_append,
          mem_singleton] at hplace
        rcases hplace with hplace | rfl
        · exact Nat.lt_succ_of_lt (h.placed place hplace)
        · exact Nat.lt_succ_self _
    · intro after hmem hplace cell hcell
      rcases mem_append.mp hmem with hmem | hmem
      · exact ⟨after, hmem, hplace, rfl, hcell⟩
      · rw [mem_singleton.mp hmem] at hcell
        cases hcell
  · split at hstep
    · cases hstep
    -- one more registrant
    cases hstep
    rename_i existing _ _
    have hplaces : (r.registrations.map fun registration =>
        if registration.place = existing.place then
          { registration with refs := registration.refs + 1 }
        else registration).map (·.place) = r.registrations.map (·.place) := by
      rw [map_map]
      refine map_congr_left fun registration _ => ?_
      simp only [Function.comp_apply]
      split <;> rfl
    refine h.of_kept ?_ ?_ rfl
    · exact { h.toInv with
        ordered := hplaces ▸ h.ordered
        placed := fun place hplace => h.placed place (hplaces ▸ hplace) }
    intro after hmem hplace cell hcell
    obtain ⟨registration, hmem', rfl⟩ := mem_map.mp hmem
    refine ⟨registration, hmem', ?_⟩
    split at hplace
    · simp_all
    · simp_all

theorem CaughtUp.dispose (h : CaughtUp place id r) (key : String) :
    CaughtUp place id (r.dispose key) := by
  have hkept : ∀ after ∈ (r.dispose key).registrations, ∃ registration ∈ r.registrations,
      registration.place = after.place ∧ registration.definition = after.definition ∧
        registration.cells = after.cells := by
    intro after hmem
    obtain ⟨registration, hmem', hafter⟩ := mem_filterMap.mp hmem
    refine ⟨registration, hmem', ?_⟩
    split at hafter
    · split at hafter
      · cases hafter
      · cases hafter
        exact ⟨rfl, rfl, rfl⟩
    · cases hafter
      exact ⟨rfl, rfl, rfl⟩
  have hplaces : ((r.dispose key).registrations.map (·.place)).Sublist
      (r.registrations.map (·.place)) := by
    simp only [Registry.dispose]
    induction r.registrations with
    | nil => exact List.Sublist.slnil
    | cons registration rest ih =>
      simp only [filterMap_cons]
      split
      · exact ih.trans (sublist_cons_self _ _)
      rename_i after hafter
      have hplace : after.place = registration.place := by
        split at hafter
        · split at hafter
          · cases hafter
          · cases hafter
            rfl
        · cases hafter
          rfl
      rw [map_cons, map_cons, hplace]
      exact ih.cons_cons _
  refine h.of_kept ?_ ?_ rfl
  · exact { h.toInv with
      ordered := h.ordered.sublist hplaces
      placed := fun place hplace => h.placed place (hplaces.subset hplace) }
  · intro after hmem hplace cell hcell
    obtain ⟨registration, hmem', hplace', hdefinition, hcells⟩ := hkept after hmem
    exact ⟨registration, hmem', hplace'.trans hplace, hdefinition, hcells ▸ hcell⟩

/-! ## Reads and appends -/

variable {cell : UnitCell S}

omit [DecidableEq Id] in
/-- A cell built over the first events of the log is their fold. -/
theorem Inv.buildCell (h : r.Inv) {definition : ProjectionDefinition S V} {events : List SessionEvent}
    (hevents : events <+: r.logs id)
    (hcell : SessionProjections.buildCell definition events = some cell) :
    definition.fold events = some cell.state ∧ cell.observedSeq = (events.length : Int) - 1 := by
  obtain ⟨state, hfold, rfl⟩ := Option.map_eq_some_iff.mp hcell
  have hnumbered : Numbered events := by
    rw [prefix_iff_eq_take.mp hevents]
    exact (h.numbered id).take _
  exact ⟨hfold, hnumbered.lastSeq⟩

/-- A read keeps a unit caught up unless it builds the cell of one that awaits an event. -/
theorem CaughtUp.read {β : Type} {read : ProjectionDefinition S V → UnitCell S → Option β}
    {other : Id} (h : CaughtUp place id r)
    (horderly : other = id → r.awaiting place id = true →
      readReaches read id (r.logs id) place r.registrations = true → r.hasCell place id = true) :
    CaughtUp place id
      { r with registrations := (readAll read other (r.logs other) r.registrations).1 } where
  toInv := { h.toInv with
    ordered := (readAll_places r.registrations).symm ▸ h.ordered
    placed := fun place hplace => h.placed place (readAll_places r.registrations ▸ hplace) }
  cells := by
    intro after hmem hplace cell hcell
    obtain ⟨registration, hmem', hcase⟩ := mem_readAll hmem
    rcases hcase with rfl | ⟨hreach, built, hbuilt, rfl⟩
    · exact h.cells after hmem' hplace cell hcell
    by_cases hother : other = id
    · subst hother
      rw [Registration.setCell_same, Option.some.injEq] at hcell
      subst hcell
      rw [Registration.setCell_place] at hplace
      cases hhad : registration.cells other with
      | some had =>
        have hsame : had = built := by
          rw [Registration.cellOver, hhad] at hbuilt
          exact Option.some.inj hbuilt
        exact h.cells registration hmem' hplace built (hsame ▸ hhad)
      | none =>
        have hnocell : r.hasCell place other = false := by
          rw [hasCell, any_eq_false]
          intro registration' hmem'' hhas
          simp only [Bool.and_eq_true, decide_eq_true_eq] at hhas
          have hsame : registration' = registration :=
            h.toInv.unique hmem'' hmem' (hhas.1.trans hplace.symm)
          rw [hsame, hhad] at hhas
          exact Bool.false_ne_true hhas.2
        have hawaits : r.awaiting place other = false := by
          cases hawaits : r.awaiting place other with
          | false => rfl
          | true =>
            have hhas := horderly rfl hawaits (hplace ▸ hreach)
            rw [hnocell] at hhas
            cases hhas
        rw [Registration.cellOver, hhad] at hbuilt
        have hdriven : Registry.driven
            { r with registrations := (readAll read other (r.logs other) r.registrations).1 }
            place other = r.logs other := by
          simp only [driven]
          exact if_neg (by simpa [awaiting] using hawaits)
        rw [hdriven]
        exact h.toInv.buildCell prefix_rfl hbuilt
    · rw [Registration.setCell_other _ _ (Ne.symm hother)] at hcell
      exact h.cells registration hmem' hplace cell hcell

variable {event : SessionEvent}

/-- An append leaves the unit to be driven through the new event. -/
theorem CaughtUp.append {other : Id}
    (h : CaughtUp place id r) (hstep : r.append other event = some r') :
    CaughtUp place id r' := by
  unfold Registry.append at hstep
  split at hstep
  · cases hstep
  rename_i hopen
  cases hstep
  simp only [Bool.or_eq_true, bne_iff_ne, ne_eq, not_or, Bool.not_eq_true, not_not] at hopen
  obtain ⟨hclosed, hseq⟩ := hopen
  have hunnamed : other ∉ r.publications.map (·.session) := by
    intro hmem
    obtain ⟨publication, hmem, hsession⟩ := mem_map.mp hmem
    have := any_eq_false.mp hclosed publication hmem
    simp [hsession] at this
  refine h.of_kept ?_ (fun after hmem hplace cell hcell => ⟨after, hmem, hplace, rfl, hcell⟩) ?_
  · refine { h.toInv with numbered := ?_, last := ?_, single := ?_ }
    · intro id
      by_cases hid : id = other
      · subst hid
        simpa using (h.numbered id).concat (by omega)
      · simpa [hid] using h.numbered id
    · intro publication hmem
      rcases mem_cons.mp hmem with rfl | hmem
      · exact ⟨r.logs other, by simp, hseq⟩
      have hne : publication.session ≠ other := fun heq =>
        hunnamed (heq ▸ mem_map_of_mem hmem)
      simpa [hne] using h.last publication hmem
    · simpa using ⟨by simpa using hunnamed, h.single⟩
  · -- the new event awaits its drive, and no other session notices
    by_cases hid : id = other
    · subst hid
      have hnone : r.awaiting place id = false := awaiting_of_not_any hclosed
      rw [driven, driven, hnone]
      simp [awaiting, Phase.awaits]
    · have hsame : Registry.awaiting
          { r with
            logs := fun session => if session = other then r.logs other ++ [event] else r.logs session
            publications := { session := other, event, phase := .before } :: r.publications }
          place id = r.awaiting place id := by
        simp [awaiting, Ne.symm hid]
      simp [driven, hsame, hid]

/-! ## The drive -/

/-- The innermost publication goes on. A unit stays caught up if its cell stays and it
awaits the event as before, or if it has now been driven through the event. -/
theorem CaughtUp.advance
    {registrations : List (Registration S V Id)} {phase : Phase} (h : CaughtUp place id r)
    (hpublications : r.publications = publication :: rest)
    (hplaces : registrations.map (·.place) = r.registrations.map (·.place))
    (hcells : ∀ after ∈ registrations, after.place = place → ∀ cell, after.cells id = some cell →
      (∃ registration ∈ r.registrations, registration.place = place ∧
        registration.definition = after.definition ∧ registration.cells id = some cell ∧
        (publication.session = id → phase.awaits place = publication.phase.awaits place)) ∨
      (publication.session = id ∧ phase.awaits place = false ∧
        after.definition.fold (r.logs id) = some cell.state ∧
        cell.observedSeq = ((r.logs id).length : Int) - 1)) :
    CaughtUp place id
      { r with registrations, publications := withPhase r.publications phase } := by
  have hsingle := h.single
  have hlast := h.last
  rw [hpublications] at hsingle hlast
  have hinv : Registry.Inv
      { r with registrations, publications := { publication with phase } :: rest } :=
    { numbered := h.numbered
      ordered := hplaces.symm ▸ h.ordered
      placed := fun place hplace => h.placed place (hplaces ▸ hplace)
      last := by
        intro other hmem
        rcases mem_cons.mp hmem with rfl | hmem
        · exact hlast publication mem_cons_self
        · exact hlast other (mem_cons_of_mem _ hmem)
      single := hsingle }
  rw [hpublications, withPhase]
  refine { hinv with cells := ?_ }
  intro after hmem hplace cell hcell
  rcases hcells after hmem hplace cell hcell with
    ⟨registration, hmem', hplace', hdefinition, hcell', hawaits⟩ | ⟨rfl, hawaits, hfold, hseq⟩
  · have hsame : Registry.driven
        { r with registrations, publications := { publication with phase } :: rest } place id =
        r.driven place id := by
      have hawaiting : Registry.awaiting
          { r with registrations, publications := { publication with phase } :: rest } place id =
          r.awaiting place id := by
        simp only [awaiting, hpublications, any_cons]
        by_cases hsession : publication.session = id
        · simp [hsession, hawaits hsession]
        · simp [hsession]
      simp only [driven, hawaiting]
    rw [hsame, ← hdefinition]
    exact h.cells registration hmem' hplace' cell hcell'
  · have hall : Registry.driven
        { r with registrations, publications := { publication with phase } :: rest } place
        publication.session = r.logs publication.session := by
      have hawaiting : Registry.awaiting
          { r with registrations, publications := { publication with phase } :: rest } place
          ({ publication with phase } : Publication Id).session =
          ({ publication with phase } : Publication Id).phase.awaits place :=
        awaiting_head rfl hsingle
      rw [driven, hawaiting, hawaits]
      simp
    rw [hall]
    exact ⟨hfold, hseq⟩

variable {cursor : Nat} {registration : Registration S V Id}

omit [DecidableEq Id] in
/-- The next unit of the drive is the first that it has not passed. -/
theorem nextUnit_some (hordered : (r.registrations.map (·.place)).Pairwise (· < ·))
    (hnext : r.nextUnit cursor = some registration) :
    registration ∈ r.registrations ∧ cursor ≤ registration.place ∧
      ∀ other ∈ r.registrations, cursor ≤ other.place → registration.place ≤ other.place := by
  obtain ⟨hcursor, passed, rest, heq, hpassed⟩ := find?_eq_some_iff_append.mp hnext
  have hrest : ∀ other ∈ rest, registration.place < other.place := by
    rw [heq, map_append, map_cons] at hordered
    have hpair := (pairwise_append.mp hordered).2.1
    intro other hmem
    exact (pairwise_cons.mp hpair).1 _ (mem_map_of_mem hmem)
  refine ⟨by simp [heq], of_decide_eq_true hcursor, ?_⟩
  intro other hmem hother
  rw [heq] at hmem
  rcases mem_append.mp hmem with hmem | hmem
  · have := hpassed other hmem
    simp [hother] at this
  rcases mem_cons.mp hmem with rfl | hmem
  · exact Nat.le_refl _
  · exact Nat.le_of_lt (hrest other hmem)

theorem withCell_places (r : Registry S V Id) (at_ : Nat) (id : Id) (cell : UnitCell S) :
    (r.withCell at_ id cell).map (·.place) = r.registrations.map (·.place) := by
  rw [withCell, map_map]
  refine map_congr_left fun registration _ => ?_
  simp only [Function.comp_apply]
  split <;> rfl

/-- A cell behind the one that is set is the one it was. -/
theorem mem_withCell (id : Id) {at_ : Nat} {session : Id} {set : UnitCell S} {after : Registration S V Id}
    (hmem : after ∈ r.withCell at_ session set) :
    ∃ registration ∈ r.registrations, registration.place = after.place ∧
      registration.definition = after.definition ∧
      if registration.place = at_ ∧ id = session then after.cells id = some set
      else after.cells id = registration.cells id := by
  obtain ⟨registration, hmem', rfl⟩ := mem_map.mp hmem
  refine ⟨registration, hmem', ?_⟩
  by_cases hat : registration.place = at_
  · simp [hat, Registration.setCell]
    split <;> rename_i h <;> simp [h]
  · simp [hat]

omit [DecidableEq Id] in
/-- The cell that a unit's turn leaves, where the turn of its transition does not throw:
the fold of the whole log, from a cell of the log before the event. -/
theorem unitTurn_cell {listeners : Nat} {events before : List SessionEvent}
    (hevents : events = before ++ [event]) (hseq : event.seq = before.length)
    (hcell : ∀ cell, registration.cells id = some cell →
      registration.definition.fold before = some cell.state)
    (happlies : ∀ cell, registration.cellOver id before = some cell →
      (registration.definition.apply cell.state event).isSome)
    (hturn : (unitTurn listeners registration id events event).1 = some cell) :
    registration.definition.fold events = some cell.state ∧
      cell.observedSeq = (events.length : Int) - 1 := by
  have htake : events.take event.seq = before := by simp [hevents, hseq]
  unfold unitTurn at hturn
  rw [htake] at hturn
  split at hturn
  · cases hturn
  rename_i read hread
  have hfold : registration.definition.fold before = some read.state := by
    cases hhad : registration.cells id with
    | some had =>
      rw [Registration.cellOver, hhad, Option.some.injEq] at hread
      exact hread ▸ hcell had hhad
    | none =>
      rw [Registration.cellOver, hhad] at hread
      obtain ⟨state, hstate, rfl⟩ := Option.map_eq_some_iff.mp hread
      exact hstate
  cases happlied : registration.definition.apply read.state event with
  | none =>
    have := happlies read hread
    rw [happlied] at this
    cases this
  | some applied =>
    have hdriven : cell =
        { state := applied.stateFrom read.state, observedSeq := (event.seq : Int) } := by
      simp only [hread, happlied] at hturn
      split at hturn
      · exact (Option.some.inj hturn).symm
      · exact (Option.some.inj hturn).symm
    subst hdriven
    constructor
    · rw [hevents, ProjectionDefinition.fold_concat, hfold]
      simp [ProjectionDefinition.next, happlied]
    · simp [hevents, hseq]

omit [DecidableEq Id] in
/-- A unit has a cell where its registration holds one. -/
theorem hasCell_of_cell
    (hmem : registration ∈ r.registrations) (hplace : registration.place = place)
    (hcell : registration.cells id = some cell) : r.hasCell place id = true :=
  any_eq_true.mpr ⟨registration, hmem, by simp [hplace, hcell]⟩

/-- The registrations after a turn of the drive. -/
theorem driveUnit_places (r : Registry S V Id) (publication : Publication Id) (cursor : Nat) :
    (r.driveUnit publication cursor).1.map (·.place) = r.registrations.map (·.place) := by
  unfold Registry.driveUnit
  split
  · rfl
  simp only
  split
  · rfl
  · exact withCell_places r _ _ _

def phaseAfter (passed : Nat) : Option Bool → Phase
  | none => .after
  | some notifying => .driving (passed + 1) notifying

def registrationsAfter (r : Registry S V Id) (passed : Nat) (id : Id) :
    Option (UnitCell S) → List (Registration S V Id)
  | none => r.registrations
  | some cell => r.withCell passed id cell

theorem driveUnit_some (hnext : r.nextUnit cursor = some registration) :
    r.driveUnit publication cursor =
      (r.registrationsAfter registration.place publication.session
        (unitTurn r.listeners registration publication.session (r.logs publication.session)
          publication.event).1,
       phaseAfter registration.place
        (unitTurn r.listeners registration publication.session (r.logs publication.session)
          publication.event).2) := by
  rw [Registry.driveUnit, hnext]
  simp only [Prod.mk.injEq]
  constructor
  · split <;> rename_i h <;> simp [registrationsAfter, h]
  · split <;> rename_i h <;> simp [phaseAfter, h]

/-- The turn of another unit, or for another session, leaves the cell be. -/
theorem kept_of_other_turn {passed : Nat} {session : Id} {left : Option (UnitCell S)}
    {after : Registration S V Id}
    (hmem : after ∈ r.registrationsAfter passed session left) (hplace : after.place = place)
    (hother : ¬ (passed = place ∧ session = id)) (hcell : after.cells id = some cell) :
    ∃ registration ∈ r.registrations, registration.place = place ∧
      registration.definition = after.definition ∧ registration.cells id = some cell := by
  cases left with
  | none => exact ⟨after, hmem, hplace, rfl, hcell⟩
  | some set =>
    obtain ⟨registration, hmem', hplace', hdefinition, hcells⟩ := mem_withCell id hmem
    have hne : ¬ (registration.place = passed ∧ id = session) := fun h =>
      hother ⟨h.1.symm.trans (hplace'.trans hplace), h.2.symm⟩
    rw [if_neg hne] at hcells
    exact ⟨registration, hmem', hplace'.trans hplace, hdefinition, hcells ▸ hcell⟩

/-- The turn of the unit itself leaves the cell of its transition. -/
theorem cell_of_own_turn (h : r.Inv) {registration after : Registration S V Id}
    {left : Option (UnitCell S)} (hunit : registration ∈ r.registrations)
    (hbuilt : left = none → registration.cells id = none)
    (hmem : after ∈ r.registrationsAfter registration.place id left)
    (hplace : after.place = registration.place) (hcell : after.cells id = some cell) :
    after.definition = registration.definition ∧ left = some cell := by
  cases left with
  | none =>
    have hsame : after = registration := h.unique hmem hunit hplace
    rw [hsame, hbuilt rfl] at hcell
    cases hcell
  | some set =>
    obtain ⟨registration', hmem', hplace', hdefinition, hcells⟩ := mem_withCell id hmem
    have hsame : registration' = registration := h.unique hmem' hunit (hplace'.trans hplace)
    subst hsame
    rw [if_pos ⟨rfl, rfl⟩, hcell] at hcells
    exact ⟨hdefinition.symm, hcells.symm⟩

omit [DecidableEq Id] in
/-- A turn that leaves no cell has found none. -/
theorem unitTurn_none {listeners : Nat} {events : List SessionEvent}
    (hturn : (unitTurn listeners registration id events event).1 = none) :
    registration.cells id = none := by
  cases hhad : registration.cells id with
  | none => rfl
  | some had =>
    simp only [unitTurn, Registration.cellOver, hhad] at hturn
    split at hturn
    · cases hturn
    · split at hturn <;> cases hturn

/-- A turn of the drive keeps a unit caught up, unless a throw takes the event from it. -/
theorem CaughtUp.driveUnit {notifying : Bool} (h : CaughtUp place id r)
    (hpublications : r.publications = publication :: rest)
    (hphase : publication.phase = .driving cursor notifying)
    (horderly : Orderly place id r .driveUnit) :
    CaughtUp place id { r with
      registrations := (r.driveUnit publication cursor).1
      publications := withPhase r.publications (r.driveUnit publication cursor).2 } := by
  have hawaits : publication.phase.awaits place = decide (cursor ≤ place) := by
    rw [hphase]
    rfl
  refine h.advance hpublications (driveUnit_places r publication cursor) ?_
  cases hnext : r.nextUnit cursor with
  | none =>
    -- the drive returns: every unit has been passed
    intro after hmem hplace cell hcell
    simp only [Registry.driveUnit, hnext] at hmem ⊢
    have hpassed : ¬ cursor ≤ place := by
      have := find?_eq_none.mp hnext after hmem
      simpa [hplace] using this
    refine .inl ⟨after, hmem, hplace, rfl, hcell, fun _ => ?_⟩
    rw [hawaits, decide_eq_false hpassed]
    rfl
  | some registration =>
    obtain ⟨hunit, hcursor, hfirst⟩ := nextUnit_some h.ordered hnext
    have hthrows := horderly publication (by simp [hpublications]) cursor
    rw [driveUnit_some hnext]
    intro after hmem hplace cell hcell
    by_cases hown : registration.place = place ∧ publication.session = id
    · -- the turn of the unit itself
      obtain ⟨hat, hsession⟩ := hown
      subst hsession
      have happlies := hthrows ⟨rfl, hat ▸ hcursor, notifying, hphase⟩ registration hnext
      rw [if_pos hat] at happlies
      obtain ⟨hdefinition, hleft⟩ :=
        cell_of_own_turn h.toInv hunit unitTurn_none hmem (hplace.trans hat.symm) hcell
      obtain ⟨before, hevents, hseq⟩ := h.last publication (by simp [hpublications])
      have htake : (r.logs publication.session).take publication.event.seq = before := by
        simp [hevents, hseq]
      have hdriven : r.driven place publication.session = before := by
        rw [driven, awaiting_head hpublications h.single, hawaits, decide_eq_true (hat ▸ hcursor)]
        simp [hevents]
      have hfolded := unitTurn_cell hevents hseq
        (fun had hhad => hdriven ▸ (h.cells registration hunit hat had hhad).1)
        (htake ▸ happlies) hleft
      refine .inr ⟨rfl, ?_, hdefinition ▸ hfolded.1, hfolded.2⟩
      rw [← hat]
      generalize (unitTurn r.listeners registration publication.session _ _).2 = notify
      cases notify with
      | none => rfl
      | some notifying => simp [phaseAfter, Phase.awaits]
    · obtain ⟨registration', hmem', hplace', hdefinition, hcell'⟩ :=
        kept_of_other_turn hmem hplace hown hcell
      refine .inl ⟨registration', hmem', hplace', hdefinition, hcell', fun hsession => ?_⟩
      have hnot : registration.place ≠ place := fun hat => hown ⟨hat, hsession⟩
      rw [hawaits]
      by_cases hpassed : cursor ≤ place
      · -- an earlier unit's turn: the drive goes on to this one
        have hbefore : registration.place < place :=
          Nat.lt_of_le_of_ne (hplace' ▸ hfirst registration' hmem' (hplace' ▸ hpassed)) hnot
        have hreturns := hthrows ⟨hsession, hpassed, notifying, hphase⟩ registration hnext
        rw [if_neg hnot] at hreturns
        obtain ⟨again, hagain⟩ := Option.isSome_iff_exists.mp
          (hreturns (hasCell_of_cell hmem' hplace' hcell'))
        rw [hsession, hagain]
        simp [phaseAfter, Phase.awaits, hpassed, Nat.succ_le_of_lt hbefore]
      · -- a later unit's turn
        generalize (unitTurn r.listeners registration publication.session _ _).2 = notify
        cases notify with
        | none => simp [phaseAfter, Phase.awaits, hpassed]
        | some notifying =>
          have : ¬ registration.place + 1 ≤ place := by omega
          simp [phaseAfter, Phase.awaits, hpassed, this]

/-! ## Runs -/

/-- The publication ends behind the registry's turn. -/
theorem CaughtUp.published
    (h : CaughtUp place id r) (hpublications : r.publications = publication :: rest)
    (hphase : publication.phase = .after) : CaughtUp place id { r with publications := rest } := by
  have hsingle := h.single
  have hlast := h.last
  rw [hpublications] at hsingle hlast
  refine h.of_kept { h.toInv with
      last := fun other hmem => hlast other (mem_cons_of_mem _ hmem)
      single := (nodup_cons.mp hsingle).2 }
    (fun after hmem hplace cell hcell => ⟨after, hmem, hplace, rfl, hcell⟩) ?_
  simp [driven, awaiting, hpublications, hphase, Phase.awaits]

/-- The turn of the registry comes. -/
theorem CaughtUp.drive
    (h : CaughtUp place id r) (hpublications : r.publications = publication :: rest)
    (hphase : publication.phase = .before) :
    CaughtUp place id
      { r with publications := withPhase r.publications (.driving 0 false) } := by
  refine h.advance hpublications rfl ?_
  intro after hmem hplace cell hcell
  refine .inl ⟨after, hmem, hplace, rfl, hcell, fun _ => ?_⟩
  simp [hphase, Phase.awaits]

/-- A listener ends the drive. -/
theorem CaughtUp.listenerThrows (h : CaughtUp place id r)
    (hpublications : r.publications = publication :: rest)
    (hphase : publication.phase = .driving cursor true)
    (horderly : Orderly place id r .listenerThrows) :
    CaughtUp place id { r with publications := withPhase r.publications .after } := by
  refine h.advance hpublications rfl ?_
  intro after hmem hplace cell hcell
  refine .inl ⟨after, hmem, hplace, rfl, hcell, fun hsession => ?_⟩
  by_cases hpassed : cursor ≤ place
  · have hnone := horderly publication (by simp [hpublications]) cursor
      ⟨hsession, hpassed, true, hphase⟩
    rw [hasCell_of_cell hmem hplace hcell] at hnone
    cases hnone
  · simp [hphase, Phase.awaits, hpassed]

theorem CaughtUp.step {act : Action S V Id} (h : CaughtUp place id r)
    (horderly : Orderly place id r act) (hstep : r.step act = some r') :
    CaughtUp place id r' := by
  have hforeign : ∀ {next : Option (Registry S V Id)},
      (if r.foreignRuns then next else none) = some r' → next = some r' := by
    intro next hnext
    split at hnext
    · exact hnext
    · cases hnext
  cases act with
  | register definition => exact h.register (hforeign hstep)
  | dispose key =>
    cases hforeign hstep
    exact h.dispose key
  | subscribe =>
    cases hforeign hstep
    exact h.of_kept { h.toInv with }
      (fun after hmem hplace cell hcell => ⟨after, hmem, hplace, rfl, hcell⟩) rfl
  | unsubscribe =>
    cases hforeign hstep
    exact h.of_kept { h.toInv with }
      (fun after hmem hplace cell hcell => ⟨after, hmem, hplace, rfl, hcell⟩) rfl
  | snapshot other =>
    cases hforeign hstep
    refine h.read fun hother hawaits hreach => ?_
    have hnot := horderly hother hawaits
    rw [hreach] at hnot
    cases hnot
  | checkpoint other =>
    cases hforeign hstep
    exact h.read horderly
  | append other event => exact h.append (hforeign hstep)
  | drive =>
    cases hpublications : r.publications with
    | nil => simp [Registry.step, hpublications] at hstep
    | cons publication rest =>
      simp only [Registry.step, hpublications, publicationStep] at hstep
      split at hstep
      · rename_i hphase
        cases hstep
        exact hpublications ▸ h.drive hpublications hphase
      · cases hstep
  | driveUnit =>
    cases hpublications : r.publications with
    | nil => simp [Registry.step, hpublications] at hstep
    | cons publication rest =>
      simp only [Registry.step, hpublications, publicationStep] at hstep
      split at hstep
      · rename_i cursor notifying hphase
        cases hstep
        exact hpublications ▸ h.driveUnit hpublications hphase horderly
      · cases hstep
  | listenerThrows =>
    cases hpublications : r.publications with
    | nil => simp [Registry.step, hpublications] at hstep
    | cons publication rest =>
      simp only [Registry.step, hpublications, publicationStep] at hstep
      split at hstep
      · rename_i cursor hphase
        cases hstep
        exact hpublications ▸ h.listenerThrows hpublications hphase horderly
      · cases hstep
  | published =>
    cases hpublications : r.publications with
    | nil => simp [Registry.step, hpublications] at hstep
    | cons publication rest =>
      simp only [Registry.step, hpublications, publicationStep] at hstep
      split at hstep
      · rename_i hphase
        cases hstep
        exact h.published hpublications hphase
      · cases hstep

/-- A new registry holds no cell. -/
theorem CaughtUp.start {logs : Id → List SessionEvent} (hlogs : ∀ id, Numbered (logs id)) :
    CaughtUp place id (start logs : Registry S V Id) where
  numbered := hlogs
  ordered := .nil
  placed := by simp [Registry.start]
  last := by simp [Registry.start]
  single := by simp [Registry.start]
  cells := by simp [Registry.start]

end Registry

end Harness.SessionProjections
