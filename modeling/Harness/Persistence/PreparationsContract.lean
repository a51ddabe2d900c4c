-- SUMMARY: One reservation for a session at a time, no write beside it, a bounded table, and stale handles that change nothing.
import Harness.Lib.Splice
import Harness.Lib.Transitions
import Harness.Persistence.Preparations

namespace Harness

open List OrderedMap

variable {SessionId Source CommitState : Type} [DecidableEq SessionId]

/-! ## What the table shows of an entry -/

namespace SessionPreparations

variable {s : SessionPreparations SessionId Source CommitState} {id : SessionId} {entry : Nat}

/-- The session, phase and reservation of an entry. -/
def view (s : SessionPreparations SessionId Source CommitState) (entry : Nat) :
    Option (SessionId × PreparationPhase × Option Nat) :=
  s.heap[entry]?.map fun object => (object.id, object.phase, object.reservation)

omit [DecidableEq SessionId] in
theorem isReady_iff : s.isReady entry = true ↔ ∃ id r, s.view entry = some (id, .ready, r) := by
  unfold isReady phase? view
  cases s.heap[entry]? with
  | none => simp
  | some object => simp [eq_comm]

omit [DecidableEq SessionId] in
theorem isReady_of_view {p : PreparationPhase} {r : Option Nat} (h : s.view entry = some (id, p, r)) :
    s.isReady entry = decide (p = .ready) := by
  unfold isReady phase?
  obtain ⟨object, hobject, heq⟩ := Option.map_eq_some_iff.mp h
  obtain ⟨-, rfl, -⟩ := Prod.mk.injEq .. ▸ heq
  simp [hobject]

theorem current_eq_some (hview : ∃ p r, s.view entry = some (id, p, r))
    (hget : get? s.entries id = some entry) : s.current entry = some id := by
  obtain ⟨p, r, hview⟩ := hview
  obtain ⟨object, hobject, heq⟩ := Option.map_eq_some_iff.mp hview
  obtain rfl : object.id = id := congrArg Prod.fst heq
  simp [current, hobject, hget]

theorem of_current (h : s.current entry = some id) :
    get? s.entries id = some entry ∧ ∃ p r, s.view entry = some (id, p, r) := by
  obtain ⟨hid, hget⟩ := Option.filter_eq_some_iff.mp h
  obtain ⟨object, hobject, rfl⟩ := Option.map_eq_some_iff.mp hid
  exact ⟨by simpa using hget, object.phase, object.reservation, by simp [view, hobject]⟩

omit [DecidableEq SessionId] in
theorem view_update (s : SessionPreparations SessionId Source CommitState) (entry : Nat)
    (f : PreparationEntry SessionId Source → PreparationEntry SessionId Source)
    (g : SessionId × PreparationPhase × Option Nat → SessionId × PreparationPhase × Option Nat)
    (hfg : ∀ object, ((f object).id, (f object).phase, (f object).reservation) =
      g (object.id, object.phase, object.reservation)) (e : Nat) :
    (s.update entry f).view e = if e = entry then (s.view e).map g else s.view e := by
  unfold view update
  rw [getElem?_modify]
  by_cases he : entry = e
  · subst he
    cases s.heap[entry]? with
    | none => simp
    | some object => simp [hfg]
  · have hne : ¬ e = entry := fun h => he h.symm
    simp [he, hne]

omit [DecidableEq SessionId] in
theorem view_update_at {v : SessionId × PreparationPhase × Option Nat} (hview : s.view entry = some v)
    {f : PreparationEntry SessionId Source → PreparationEntry SessionId Source}
    (g : SessionId × PreparationPhase × Option Nat → SessionId × PreparationPhase × Option Nat)
    (hfg : ∀ object, ((f object).id, (f object).phase, (f object).reservation) =
      g (object.id, object.phase, object.reservation)) (e : Nat) :
    (s.update entry f).view e = if e = entry then some (g v) else s.view e := by
  rw [s.view_update entry f g hfg]
  split
  case isTrue heq =>
    rw [heq, hview]
    rfl
  case isFalse => rfl

omit [DecidableEq SessionId] in
/-- Fields the view leaves out. -/
theorem view_update_hidden (s : SessionPreparations SessionId Source CommitState) (entry : Nat)
    (f : PreparationEntry SessionId Source → PreparationEntry SessionId Source)
    (hf : ∀ object, ((f object).id, (f object).phase, (f object).reservation) =
      (object.id, object.phase, object.reservation)) (e : Nat) :
    (s.update entry f).view e = s.view e := by
  rw [s.view_update entry f id hf]
  simp

omit [DecidableEq SessionId] in
@[simp] theorem view_settle (s : SessionPreparations SessionId Source CommitState) (entry e : Nat) :
    (s.settle entry).view e = s.view e :=
  s.view_update_hidden entry ({ · with reservationSettled := none }) (fun _ => rfl) e

omit [DecidableEq SessionId] in
@[simp] theorem entries_settle (s : SessionPreparations SessionId Source CommitState) (entry : Nat) :
    (s.settle entry).entries = s.entries := rfl

/-- Tables with the same entries that show the same. -/
structure Same (s s' : SessionPreparations SessionId Source CommitState) : Prop where
  capacity : s'.capacity = s.capacity
  entries : s'.entries = s.entries
  view : ∀ e, s'.view e = s.view e
  reservations : s'.reservations = s.reservations

omit [DecidableEq SessionId] in
theorem same_update (s : SessionPreparations SessionId Source CommitState) (entry : Nat)
    (f : PreparationEntry SessionId Source → PreparationEntry SessionId Source)
    (hf : ∀ object, ((f object).id, (f object).phase, (f object).reservation) =
      (object.id, object.phase, object.reservation)) : s.Same (s.update entry f) :=
  ⟨rfl, rfl, s.view_update_hidden entry f hf, rfl⟩

omit [DecidableEq SessionId] in
theorem readyCount_congr {s s' : SessionPreparations SessionId Source CommitState}
    (hentries : s'.entries = s.entries) (hview : ∀ e, s'.view e = s.view e) :
    s'.readyCount = s.readyCount := by
  have hready : ∀ e, s'.isReady e = s.isReady e := fun e => by
    rw [Bool.eq_iff_iff, isReady_iff, isReady_iff, hview]
  simp only [readyCount, hentries, hready]

end SessionPreparations

/-! ## The invariant of the table -/

open SessionPreparations

/-- What holds of a table with at most `room` ready entries whose callers hold the
reservations `live` and await the commits `commits` and the reads `loads`. -/
structure TableInv (s : SessionPreparations SessionId Source CommitState) (room : Nat)
    (live : List (Nat × SessionId)) (commits : List (SessionId × Nat)) (loads : List Nat) : Prop where
  nodup : (OrderedMap.keys s.entries).Nodup
  valid : ∀ id e, get? s.entries id = some e → ∃ p r, s.view e = some (id, p, r)
  room : s.readyCount ≤ room
  /-- The reservation of an entry in the table is held by its caller. -/
  reserved : ∀ id e p R, get? s.entries id = some e → s.view e = some (id, p, some R) →
    p = .reserved ∧ (R, id) ∈ live
  holds : ∀ R id, (R, id) ∈ live → ∃ e, get? s.entries id = some e ∧
    s.view e = some (id, .reserved, some R) ∧ s.entryOf R = some e
  committing : ∀ id e, (id, e) ∈ commits → get? s.entries id = some e ∧
    s.view e = some (id, .committing, none)
  commitsNodup : (commits.map Prod.fst).Nodup
  loading : ∀ e ∈ loads, ∃ id, s.view e = some (id, .loading, none)
  loadsNodup : loads.Nodup

namespace TableInv

variable {s s' : SessionPreparations SessionId Source CommitState}
  {live live' : List (Nat × SessionId)} {commits commits' : List (SessionId × Nat)}
  {loads loads' : List Nat} {id : SessionId} {entry room : Nat}

theorem create (capacity : Nat) :
    TableInv (SessionPreparations.create capacity :
      SessionPreparations SessionId Source CommitState) capacity [] [] [] := by
  constructor <;> simp [SessionPreparations.create, readyCount, OrderedMap.keys, get?]

section

variable (h : TableInv s room live commits loads)
include h

theorem same (hsame : s.Same s') : TableInv s' room live commits loads := by
  constructor
  case nodup => rw [hsame.entries]; exact h.nodup
  case valid => simpa only [hsame.entries, hsame.view] using h.valid
  case room =>
    rw [readyCount_congr hsame.entries hsame.view]
    exact h.room
  case reserved => simpa only [hsame.entries, hsame.view] using h.reserved
  case holds => simpa only [hsame.entries, hsame.view, entryOf, hsame.reservations] using h.holds
  case committing => simpa only [hsame.entries, hsame.view] using h.committing
  case commitsNodup => exact h.commitsNodup
  case loading => simpa only [hsame.view] using h.loading
  case loadsNodup => exact h.loadsNodup

theorem weaken (hcommits : commits'.Sublist commits)
    (hloads : loads'.Sublist loads) : TableInv s room live commits' loads' :=
  { h with
    committing := fun id e hmem => h.committing id e (hcommits.subset hmem)
    commitsNodup := h.commitsNodup.sublist (hcommits.map _)
    loading := fun e hmem => h.loading e (hloads.subset hmem)
    loadsNodup := h.loadsNodup.sublist hloads }

theorem perm (hperm : commits'.Perm commits) : TableInv s room live commits' loads :=
  { h with
    committing := fun id e hmem => h.committing id e (hperm.subset hmem)
    commitsNodup := (hperm.map _).nodup_iff.mpr h.commitsNodup }

/-! ### Removals -/

theorem readyCount_delete (hget : get? s.entries id = some entry) :
    s.readyCount = (if s.isReady entry then 1 else 0) +
      ((OrderedMap.delete s.entries id).filter fun e => s.isReady e.2).length := by
  unfold readyCount
  have hperm := (perm_delete h.nodup hget).filter fun e => s.isReady e.2
  rw [hperm.length_eq, filter_cons]
  split
  · simp [Nat.add_comm]
  · simp

end

/-- An entry leaves the table, with all that its session had. -/
theorem delete (h : TableInv s room live commits loads)
    (hget : get? s.entries id = some entry) :
    TableInv { s with entries := OrderedMap.delete s.entries id } room (live.filter (·.2 ≠ id))
      (commits.filter (·.1 ≠ id)) loads := by
  have hother : ∀ id' e, get? (OrderedMap.delete s.entries id) id' = some e →
      id' ≠ id ∧ get? s.entries id' = some e := by
    intro id' e hget'
    rw [get?_delete] at hget'
    split at hget'
    · cases hget'
    · exact ⟨‹_›, hget'⟩
  have hkept : ∀ id' e, id' ≠ id → get? s.entries id' = some e →
      get? (OrderedMap.delete s.entries id) id' = some e := by
    intro id' e hne hget'
    rw [get?_delete, if_neg hne]
    exact hget'
  constructor
  case nodup => exact nodup_delete h.nodup id
  case valid => exact fun id' e hget' => h.valid id' e (hother id' e hget').2
  case room =>
    have hcount := h.readyCount_delete hget
    have hroom := h.room
    rw [hcount] at hroom
    exact Nat.le_trans (Nat.le_add_left _ _) hroom
  case reserved =>
    intro id' e p R hget' hview
    obtain ⟨hne, hget'⟩ := hother id' e hget'
    obtain ⟨hphase, hlive⟩ := h.reserved id' e p R hget' hview
    exact ⟨hphase, mem_filter.mpr ⟨hlive, by simpa using hne⟩⟩
  case holds =>
    intro R id' hmem
    obtain ⟨hlive, hne⟩ := mem_filter.mp hmem
    obtain ⟨e, hget', hrest⟩ := h.holds R id' hlive
    exact ⟨e, hkept id' e (by simpa using hne) hget', hrest⟩
  case committing =>
    intro id' e hmem
    obtain ⟨hcommit, hne⟩ := mem_filter.mp hmem
    obtain ⟨hget', hview⟩ := h.committing id' e hcommit
    exact ⟨hkept id' e (by simpa using hne) hget', hview⟩
  case commitsNodup => exact h.commitsNodup.sublist (List.filter_sublist.map _)
  case loading => exact h.loading
  case loadsNodup => exact h.loadsNodup

theorem remove (h : TableInv s room live commits loads)
    (hget : get? s.entries id = some entry) :
    TableInv (s.remove entry) room (live.filter (·.2 ≠ id)) (commits.filter (·.1 ≠ id)) loads := by
  unfold SessionPreparations.remove
  rw [current_eq_some (h.valid id entry hget) hget]
  exact (h.delete hget).same ⟨rfl, rfl, fun e => view_settle _ entry e, rfl⟩

variable {p : PreparationPhase}

section

variable (h : TableInv s room live commits loads)
include h

/-- Nobody holds a session whose entry is not reserved. -/
theorem not_live
    (hget : get? s.entries id = some entry) {r : Option Nat}
    (hview : s.view entry = some (id, p, r)) (hp : p ≠ .reserved) : ∀ R, (R, id) ∉ live := by
  intro R hmem
  obtain ⟨e, hget', hview', -⟩ := h.holds R id hmem
  obtain rfl := Option.some.inj (hget.symm.trans hget')
  rw [hview] at hview'
  simp only [Option.some.injEq, Prod.mk.injEq, true_and] at hview'
  exact hp hview'.1

/-- Nobody commits a session whose entry is not committing. -/
theorem not_committing
    (hget : get? s.entries id = some entry) {r : Option Nat}
    (hview : s.view entry = some (id, p, r)) (hp : p ≠ .committing) : ∀ e, (id, e) ∉ commits := by
  intro e hmem
  obtain ⟨hget', hview'⟩ := h.committing id e hmem
  obtain rfl := Option.some.inj (hget.symm.trans hget')
  rw [hview] at hview'
  simp only [Option.some.injEq, Prod.mk.injEq, true_and] at hview'
  exact hp hview'.1

/-- Nobody reads an entry that is not loading. -/
theorem not_loading {r : Option Nat}
    (hview : s.view entry = some (id, p, r)) (hp : p ≠ .loading) : entry ∉ loads := by
  intro hmem
  obtain ⟨id', hloading⟩ := h.loading entry hmem
  rw [hview] at hloading
  simp only [Option.some.injEq, Prod.mk.injEq] at hloading
  exact hp hloading.2.1

end

theorem filter_live_of_free (hfree : ∀ R, (R, id) ∉ live) : live.filter (·.2 ≠ id) = live :=
  filter_eq_self.mpr fun x hx => decide_eq_true fun heq => hfree x.1 (heq ▸ hx)

theorem filter_commits_of_free (hfree : ∀ e, (id, e) ∉ commits) : commits.filter (·.1 ≠ id) = commits :=
  filter_eq_self.mpr fun x hx => decide_eq_true fun heq => hfree x.2 (heq ▸ hx)

/-- A ready entry leaves the table. -/
theorem delete_ready (h : TableInv s (room + 1) live commits loads)
    (hget : get? s.entries id = some entry) (hready : s.isReady entry = true) :
    TableInv { s with entries := OrderedMap.delete s.entries id } room live commits loads := by
  have hcount := h.readyCount_delete hget
  rw [hready, if_pos rfl] at hcount
  obtain ⟨p, r, hview⟩ := h.valid id entry hget
  rw [isReady_of_view hview, decide_eq_true_eq] at hready
  subst hready
  have hdelete := h.delete hget
  rw [filter_live_of_free (h.not_live hget hview nofun),
    filter_commits_of_free (h.not_committing hget hview nofun)] at hdelete
  refine { hdelete with room := ?_ }
  have hroom := h.room
  have hle : ((OrderedMap.delete s.entries id).filter fun e => s.isReady e.2).length ≤ room := by
    omega
  exact hle

/-! ### The ready entries -/

/-- An entry moves to the end of the table. -/
theorem move (h : TableInv s room live commits loads)
    (hget : get? s.entries id = some entry) :
    TableInv { s with entries := OrderedMap.set (OrderedMap.delete s.entries id) id entry } room
      live commits loads := by
  have hfresh : id ∉ OrderedMap.keys (OrderedMap.delete s.entries id) := by
    rw [keys_delete]
    simp
  have hset : OrderedMap.set (OrderedMap.delete s.entries id) id entry =
      OrderedMap.delete s.entries id ++ [(id, entry)] := by
    rw [OrderedMap.set, if_neg hfresh]
  have hget? : ∀ id', get? (OrderedMap.set (OrderedMap.delete s.entries id) id entry) id' =
      get? s.entries id' := by
    intro id'
    rw [hset, get?_append_fresh hfresh, get?_delete]
    split
    · rename_i heq
      rw [heq, hget]
    · rfl
  constructor
  case nodup => exact nodup_set (nodup_delete h.nodup id) id entry
  case valid => exact fun id' e hget' => h.valid id' e ((hget? id').symm.trans hget')
  case room =>
    have hcount := h.readyCount_delete hget
    have hroom := h.room
    show (List.filter (fun e : SessionId × Nat => s.isReady e.2) _).length ≤ room
    rw [hset, filter_append, length_append]
    have hlast : (List.filter (fun e : SessionId × Nat => s.isReady e.2) [(id, entry)]).length =
        if s.isReady entry then 1 else 0 := by
      cases hready : s.isReady entry <;> simp [hready]
    rw [hlast]
    omega
  case reserved =>
    exact fun id' e p R hget' => h.reserved id' e p R ((hget? id').symm.trans hget')
  case holds =>
    intro R id' hmem
    obtain ⟨e, hget', hrest⟩ := h.holds R id' hmem
    exact ⟨e, (hget? id').trans hget', hrest⟩
  case committing =>
    intro id' e hmem
    obtain ⟨hget', hview⟩ := h.committing id' e hmem
    exact ⟨(hget? id').trans hget', hview⟩
  case commitsNodup => exact h.commitsNodup
  case loading => exact h.loading
  case loadsNodup => exact h.loadsNodup

/-- `touch` brings the ready entries back to their bound. -/
theorem touch (h : TableInv s (s.capacity + 1) live commits loads)
    (hget : get? s.entries id = some entry) :
    TableInv (s.touch id entry) s.capacity live commits loads := by
  have hmove := h.move hget
  unfold SessionPreparations.touch
  dsimp only
  split
  · rename_i hroom
    exact { hmove with room := hroom }
  rename_i hcrowded
  split
  · rename_i id' entry' hfind
    have hready := find?_some hfind
    refine hmove.delete_ready (get?_of_mem hmove.nodup ?_) hready
    exact mem_of_find?_eq_some hfind
  · rename_i hnone
    have hzero : readyCount { s with
        entries := OrderedMap.set (OrderedMap.delete s.entries id) id entry } = 0 := by
      unfold readyCount
      rw [filter_eq_nil_iff.mpr fun e he => by simpa using find?_eq_none.mp hnone e he]
      rfl
    omega

/-! ### Phases -/

section

variable (h : TableInv s room live commits loads)
include h

section

variable (hget : get? s.entries id = some entry)
include hget

/-- An entry of another session is another entry. -/
theorem ne_of_id_ne {id' : SessionId} {entry' : Nat}
    (hget' : get? s.entries id' = some entry') (hne : id' ≠ id) : entry' ≠ entry := by
  rintro rfl
  obtain ⟨p, r, hview⟩ := h.valid id entry' hget
  obtain ⟨p', r', hview'⟩ := h.valid id' entry' hget'
  rw [hview] at hview'
  exact hne (congrArg Prod.fst (Option.some.inj hview')).symm

/-- An entry that nobody commits or reads takes another phase and reservation. -/
theorem reassign
    {r : Option Nat} (hview : ∀ e, s'.view e = if e = entry then some (id, p, r) else s.view e)
    (hentries : s'.entries = s.entries)
    (hreservations : ∀ R e, s.entryOf R = some e →
      s'.entryOf R = some e)
    (hcommits : ∀ e, (id, e) ∉ commits) (hloads : entry ∉ loads)
    (hsub : ∀ x ∈ live, x.2 ≠ id → x ∈ live') (hr : ∀ R, r = some R → p = .reserved ∧ (R, id) ∈ live')
    (hnew : ∀ x ∈ live', (x ∈ live ∧ x.2 ≠ id) ∨ x.2 = id ∧ p = .reserved ∧ r = some x.1 ∧
      s'.entryOf x.1 = some entry) :
    TableInv s' (room + if p = .ready then 1 else 0) live' commits loads := by
  have hself : s'.view entry = some (id, p, r) := by simpa using hview entry
  have hother : ∀ id' e, id' ≠ id → get? s.entries id' = some e →
      s'.view e = s.view e := by
    intro id' e hne hget'
    rw [hview, if_neg (h.ne_of_id_ne hget hget' hne)]
  have hcases : ∀ id' e, get? s.entries id' = some e →
      (id' = id ∧ e = entry) ∨ id' ≠ id ∧ s'.view e = s.view e := by
    intro id' e hget'
    by_cases heq : id' = id
    · subst heq
      exact .inl ⟨rfl, (Option.some.inj (hget.symm.trans hget')).symm⟩
    · exact .inr ⟨heq, hother id' e heq hget'⟩
  constructor
  case nodup => rw [hentries]; exact h.nodup
  case valid =>
    intro id' e hget'
    rw [hentries] at hget'
    rcases hcases id' e hget' with ⟨rfl, rfl⟩ | ⟨-, heq⟩
    · exact ⟨p, r, hself⟩
    · rw [heq]
      exact h.valid id' e hget'
  case room =>
    have hcount := h.readyCount_delete hget
    have hroom := h.room
    have hrest : (OrderedMap.delete s.entries id).filter (fun e => s'.isReady e.2) =
        (OrderedMap.delete s.entries id).filter (fun e => s.isReady e.2) := by
      refine filter_congr fun e he => ?_
      obtain ⟨hmem, hne⟩ := mem_filter.mp he
      have hsame := hother e.1 e.2 (by simpa using hne) (get?_of_mem h.nodup hmem)
      rw [Bool.eq_iff_iff, isReady_iff, isReady_iff, hsame]
    have hperm := (perm_delete h.nodup hget).filter fun e => s'.isReady e.2
    have hcount' : s'.readyCount = (if s'.isReady entry then 1 else 0) +
        ((OrderedMap.delete s.entries id).filter fun e => s.isReady e.2).length := by
      unfold readyCount
      rw [hentries, hperm.length_eq, filter_cons, hrest]
      split
      · simp [Nat.add_comm]
      · simp
    rw [isReady_of_view hself] at hcount'
    simp only [decide_eq_true_eq] at hcount'
    omega
  case reserved =>
    intro id' e p' R hget' hview'
    rw [hentries] at hget'
    rcases hcases id' e hget' with ⟨rfl, rfl⟩ | ⟨hne, heq⟩
    · rw [hself] at hview'
      simp only [Option.some.injEq, Prod.mk.injEq, true_and] at hview'
      obtain ⟨rfl, hR⟩ := hview'
      exact hr R hR
    · obtain ⟨hp', hmem⟩ := h.reserved id' e p' R hget' (heq ▸ hview')
      exact ⟨hp', hsub _ hmem hne⟩
  case holds =>
    intro R id' hmem
    rcases hnew _ hmem with ⟨hmem, hne⟩ | ⟨rfl, rfl, rfl, hentry⟩
    · obtain ⟨e, hget', hview', hentry⟩ := h.holds R id' hmem
      refine ⟨e, by rw [hentries]; exact hget', ?_, hreservations R e hentry⟩
      rw [hother id' e hne hget']
      exact hview'
    · exact ⟨entry, by rw [hentries]; exact hget, hself, hentry⟩
  case committing =>
    intro id' e hmem
    obtain ⟨hget', hview'⟩ := h.committing id' e hmem
    have hne : id' ≠ id := fun heq => hcommits e (heq ▸ hmem)
    refine ⟨by rw [hentries]; exact hget', ?_⟩
    rw [hother id' e hne hget']
    exact hview'
  case commitsNodup => exact h.commitsNodup
  case loading =>
    intro e hmem
    have hne : e ≠ entry := fun heq => hloads (heq ▸ hmem)
    rw [hview, if_neg hne]
    exact h.loading e hmem
  case loadsNodup => exact h.loadsNodup

/-- An entry that nobody holds, commits or reads takes another phase and has no reservation. -/
theorem rephase (hview : ∀ e, s'.view e = if e = entry then some (id, p, none) else s.view e)
    (hentries : s'.entries = s.entries) (hreservations : s'.reservations = s.reservations)
    (hlive : ∀ R, (R, id) ∉ live) (hcommits : ∀ e, (id, e) ∉ commits) (hloads : entry ∉ loads) :
    TableInv s' (room + if p = .ready then 1 else 0) live commits loads :=
  h.reassign hget hview hentries (fun R e hentry => by rw [entryOf, hreservations]; exact hentry)
    hcommits hloads (fun _ hmem _ => hmem) (fun _ hnone => nomatch hnone)
    fun x hmem => .inl ⟨hmem, fun heq => hlive x.1 (heq ▸ hmem)⟩

end

end

/-- `makeReady` of an entry that nobody holds, commits or reads. -/
theorem makeReady (h : TableInv s s.capacity live commits loads)
    (hget : get? s.entries id = some entry)
    (hview : s.view entry = some (id, p, none)) (hlive : ∀ R, (R, id) ∉ live)
    (hcommits : ∀ e, (id, e) ∉ commits) (hloads : entry ∉ loads) :
    TableInv (s.makeReady entry) s.capacity live commits loads := by
  unfold SessionPreparations.makeReady
  rw [current_eq_some ⟨p, none, hview⟩ hget]
  let ready := (s.update entry ({ · with phase := .ready })).settle entry
  have hview' : ∀ e, ready.view e = if e = entry then some (id, .ready, none) else s.view e :=
    fun e => (view_settle _ _ e).trans
      (view_update_at hview (fun v => (v.1, .ready, v.2.2)) (fun _ => rfl) e)
  exact touch (h.rephase hget hview' rfl rfl hlive hcommits hloads) hget

end TableInv

/-! ## Later tables -/

namespace SessionPreparations

variable {s s' s'' : SessionPreparations SessionId Source CommitState}

/-- The table with a new entry for a session. -/
def inserted (s : SessionPreparations SessionId Source CommitState) (id : SessionId) :
    SessionPreparations SessionId Source CommitState :=
  { s with entries := OrderedMap.set s.entries id s.heap.length, heap := s.heap ++ [.start id] }

theorem entries_inserted {id : SessionId} (hfresh : get? s.entries id = none) :
    (s.inserted id).entries = s.entries ++ [(id, s.heap.length)] := by
  rw [inserted, OrderedMap.set, if_neg (get?_eq_none_iff.mp hfresh)]

theorem get?_inserted {id : SessionId} (hfresh : get? s.entries id = none)
    (id' : SessionId) : get? (s.inserted id).entries id' =
      if id' = id then some s.heap.length else get? s.entries id' := by
  rw [entries_inserted hfresh, get?_append_fresh (get?_eq_none_iff.mp hfresh)]

theorem view_insert (s : SessionPreparations SessionId Source CommitState) (id : SessionId) (e : Nat) :
    (s.inserted id).view e = if e = s.heap.length then some (id, .loading, none) else s.view e := by
  unfold view inserted
  rw [getElem?_append]
  split
  · rename_i hlt
    rw [if_neg (Nat.ne_of_lt hlt)]
  rename_i hge
  split
  · rename_i heq
    simp [heq, PreparationEntry.start]
  rename_i hne
  have hlt : [(.start id : PreparationEntry SessionId Source)].length ≤ e - s.heap.length := by
    rw [length_singleton]
    omega
  rw [getElem?_eq_none hlt, getElem?_eq_none (by omega)]

omit [DecidableEq SessionId] in
theorem view_none_of_length_le {e : Nat} (h : s.heap.length ≤ e) : s.view e = none := by
  unfold view
  rw [getElem?_eq_none h]
  rfl

omit [DecidableEq SessionId] in
theorem lt_of_view {e : Nat} {v : SessionId × PreparationPhase × Option Nat}
    (h : s.view e = some v) : e < s.heap.length := by
  by_contra hge
  rw [view_none_of_length_le (by omega)] at h
  cases h

/-- Entries keep their session, and an entry that left the table does not come back. -/
structure Later (s s' : SessionPreparations SessionId Source CommitState) : Prop where
  capacity : s'.capacity = s.capacity
  length : s.heap.length ≤ s'.heap.length
  ids : ∀ e id, (∃ p r, s.view e = some (id, p, r)) → ∃ p r, s'.view e = some (id, p, r)
  entries : ∀ id e, get? s'.entries id = some e →
    get? s.entries id = some e ∨ s.heap.length ≤ e

theorem Later.refl (s : SessionPreparations SessionId Source CommitState) : s.Later s :=
  ⟨rfl, Nat.le_refl _, fun _ _ h => h, fun _ _ h => .inl h⟩

theorem Later.trans (h : s.Later s') (h' : s'.Later s'') : s.Later s'' where
  capacity := h'.capacity.trans h.capacity
  length := Nat.le_trans h.length h'.length
  ids e id hid := h'.ids e id (h.ids e id hid)
  entries id e hget := by
    rcases h'.entries id e hget with hget | hle
    · exact h.entries id e hget
    · exact .inr (Nat.le_trans h.length hle)

theorem later_update (s : SessionPreparations SessionId Source CommitState) (entry : Nat)
    (f : PreparationEntry SessionId Source → PreparationEntry SessionId Source)
    (hf : ∀ object, (f object).id = object.id) : s.Later (s.update entry f) where
  capacity := rfl
  length := by simp [update]
  ids := by
    rintro e id ⟨p, r, hview⟩
    obtain ⟨object, hobject, heq⟩ := Option.map_eq_some_iff.mp hview
    obtain rfl : object.id = id := congrArg Prod.fst heq
    unfold view update
    rw [getElem?_modify, hobject]
    by_cases he : entry = e
    · simp [he, hf]
    · simp [he]
  entries _ _ h := .inl h

theorem later_settle (s : SessionPreparations SessionId Source CommitState) (entry : Nat) :
    s.Later (s.settle entry) :=
  let h := s.later_update entry ({ · with reservationSettled := none }) fun _ => rfl
  ⟨h.capacity, h.length, h.ids, h.entries⟩

theorem later_delete (s : SessionPreparations SessionId Source CommitState) (id : SessionId) :
    s.Later { s with entries := OrderedMap.delete s.entries id } where
  capacity := rfl
  length := Nat.le_refl _
  ids _ _ h := h
  entries id' e hget := by
    rw [get?_delete] at hget
    split at hget
    · cases hget
    · exact .inl hget

theorem later_insert (s : SessionPreparations SessionId Source CommitState) (id : SessionId)
    (hfresh : get? s.entries id = none) : s.Later (s.inserted id) where
  capacity := rfl
  length := by simp [inserted]
  ids e id' hid := by
    obtain ⟨p, r, hview⟩ := hid
    have hlt := lt_of_view hview
    rw [s.view_insert, if_neg (Nat.ne_of_lt hlt)]
    exact ⟨p, r, hview⟩
  entries id' e hget := by
    rw [get?_inserted hfresh] at hget
    split at hget
    · exact .inr (Nat.le_of_eq (Option.some.inj hget))
    · exact .inl hget

theorem later_touch {id : SessionId} {entry : Nat} (hget : get? s.entries id = some entry) :
    s.Later (s.touch id entry) := by
  have hmove : s.Later { s with
      entries := OrderedMap.set (OrderedMap.delete s.entries id) id entry } := by
    refine ⟨rfl, Nat.le_refl _, fun _ _ h => h, fun id' e hget' => .inl ?_⟩
    have hfresh : id ∉ OrderedMap.keys (OrderedMap.delete s.entries id) := by
      rw [keys_delete]
      simp
    simp only [OrderedMap.set, if_neg hfresh, get?_append_fresh hfresh,
      get?_delete] at hget'
    split at hget'
    · rename_i heq
      rw [heq, hget]
      exact hget'
    · exact hget'
  unfold touch
  dsimp only
  split
  · exact hmove
  split
  · exact hmove.trans (later_delete _ _)
  · exact hmove

theorem later_makeReady (s : SessionPreparations SessionId Source CommitState) (entry : Nat) :
    s.Later (s.makeReady entry) := by
  unfold makeReady
  split
  · rename_i id hcurrent
    have hphase := s.later_update entry ({ · with phase := .ready }) fun _ => rfl
    refine (hphase.trans (later_settle _ entry)).trans (later_touch ?_)
    exact (of_current hcurrent).1
  · exact .refl s

theorem later_remove (s : SessionPreparations SessionId Source CommitState) (entry : Nat) :
    s.Later (s.remove entry) := by
  unfold remove
  split
  · exact (s.later_delete _).trans (later_settle _ entry)
  · exact .refl s

theorem current_eq_none (hget : ∀ id, (∃ p r, s.view entry = some (id, p, r)) →
    get? s.entries id ≠ some entry) : s.current entry = none := by
  by_contra hsome
  obtain ⟨id, hid⟩ := Option.ne_none_iff_exists'.mp hsome
  obtain ⟨hcurrent, hview⟩ := of_current hid
  exact hget id hview hcurrent

omit [DecidableEq SessionId] in
/-- An entry shows one session. -/
theorem view_id {id id' : SessionId} {entry : Nat} (h : ∃ p r, s.view entry = some (id, p, r))
    (h' : ∃ p r, s.view entry = some (id', p, r)) : id' = id := by
  obtain ⟨p, r, hview⟩ := h
  obtain ⟨p', r', hview'⟩ := h'
  rw [hview] at hview'
  exact (congrArg Prod.fst (Option.some.inj hview')).symm

end SessionPreparations

/-! ## Operations -/

namespace TableInv

variable {s : SessionPreparations SessionId Source CommitState} {live : List (Nat × SessionId)}
  {commits commits' : List (SessionId × Nat)} {loads : List Nat}

variable {entry : Nat} {id : SessionId} {p : PreparationPhase} {r : Option Nat}

/-- Nobody holds or commits a session whose entry is loading or ready. -/
theorem free (h : TableInv s s.capacity live commits loads)
    (hget : get? s.entries id = some entry)
    (hview : s.view entry = some (id, p, r)) (hp : p = .ready ∨ p = .loading) :
    (∀ R, (R, id) ∉ live) ∧ ∀ e, (id, e) ∉ commits := by
  rcases hp with rfl | rfl
  all_goals exact ⟨h.not_live hget hview nofun, h.not_committing hget hview nofun⟩

/-- A ready or loading entry leaves the table. -/
theorem remove_free (h : TableInv s s.capacity live commits loads)
    (hget : get? s.entries id = some entry)
    (hview : s.view entry = some (id, p, r)) (hp : p = .ready ∨ p = .loading) :
    TableInv (s.remove entry) s.capacity live commits loads := by
  obtain ⟨hlive, hcommits⟩ := h.free hget hview hp
  have hremove := h.remove hget
  rwa [filter_live_of_free hlive, filter_commits_of_free hcommits] at hremove

theorem remove_absent (hcurrent : s.current entry = none) : s.remove entry = s := by
  simp [SessionPreparations.remove, hcurrent]

/-- A new entry starts loading. -/
theorem insert (h : TableInv s s.capacity live commits loads)
    (hfresh : get? s.entries id = none) :
    TableInv (s.inserted id) s.capacity live commits (loads ++ [s.heap.length]) := by
  have hget := get?_inserted hfresh
  have hview := s.view_insert id
  have hold : ∀ {e v}, s.view e = some v → (s.inserted id).view e = some v := by
    intro e v hv
    rw [hview, if_neg (Nat.ne_of_lt (lt_of_view hv)), hv]
  have hne : ∀ {id' e}, get? s.entries id' = some e → id' ≠ id := by
    rintro id' e hget' rfl
    rw [hfresh] at hget'
    cases hget'
  constructor
  case nodup => exact nodup_set h.nodup id _
  case valid =>
    intro id' e hget'
    rw [hget] at hget'
    split at hget'
    · rename_i heq
      obtain rfl := Option.some.inj hget'
      rw [hview, if_pos rfl, heq]
      exact ⟨_, _, rfl⟩
    · obtain ⟨p, r, hv⟩ := h.valid id' e hget'
      exact ⟨p, r, hold hv⟩
  case room =>
    have hcount : s.readyCount = (s.entries.filter fun e => (s.inserted id).isReady e.2).length := by
      unfold readyCount
      congr 1
      refine filter_congr fun e he => ?_
      obtain ⟨p, r, hv⟩ := h.valid e.1 e.2 (get?_of_mem h.nodup he)
      rw [isReady_of_view hv, isReady_of_view (hold hv)]
    have hroom := h.room
    have hnew : (s.inserted id).isReady s.heap.length = false := by
      rw [isReady_of_view ((hview s.heap.length).trans (if_pos rfl))]
      rfl
    unfold readyCount
    rw [entries_inserted hfresh, filter_append, length_append, ← hcount]
    simpa [hnew] using hroom
  case reserved =>
    intro id' e p R hget' hv
    rw [hget] at hget'
    split at hget'
    · obtain rfl := Option.some.inj hget'
      rw [hview, if_pos rfl] at hv
      simp at hv
    · obtain ⟨p', r', hv'⟩ := h.valid id' e hget'
      have heq := (hold hv').symm.trans hv
      rw [heq] at hv'
      exact h.reserved id' e p R hget' hv'
  case holds =>
    intro R id' hmem
    obtain ⟨e, hget', hv, hentry⟩ := h.holds R id' hmem
    exact ⟨e, by rw [hget, if_neg (hne hget')]; exact hget', hold hv, hentry⟩
  case committing =>
    intro id' e hmem
    obtain ⟨hget', hv⟩ := h.committing id' e hmem
    exact ⟨by rw [hget, if_neg (hne hget')]; exact hget', hold hv⟩
  case commitsNodup => exact h.commitsNodup
  case loading =>
    intro e hmem
    rcases mem_append.mp hmem with hmem | hmem
    · obtain ⟨id', hv⟩ := h.loading e hmem
      exact ⟨id', hold hv⟩
    · rw [mem_singleton.mp hmem]
      exact ⟨id, (hview _).trans (if_pos rfl)⟩
  case loadsNodup =>
    refine nodup_append.mpr ⟨h.loadsNodup, nodup_singleton _, ?_⟩
    rintro e he _ hlast rfl
    obtain ⟨id', hv⟩ := h.loading e he
    exact Nat.lt_irrefl _ (mem_singleton.mp hlast ▸ lt_of_view hv)

theorem loaded (h : TableInv s s.capacity live commits loads) (hload : entry ∈ loads)
    (result : Option Source) :
    TableInv (s.loaded entry result) s.capacity live commits (loads.erase entry) := by
  obtain ⟨id, hview⟩ := h.loading entry hload
  have hrest := h.weaken (.refl commits) (erase_sublist (a := entry))
  have hgone : entry ∉ loads.erase entry := fun hmem =>
    ((List.Nodup.mem_erase_iff h.loadsNodup).mp hmem).1 rfl
  have hcurrent : ∀ id', s.current entry = some id' → get? s.entries id = some entry := by
    intro id' hid'
    obtain ⟨hget, hview'⟩ := of_current hid'
    rwa [view_id ⟨_, _, hview⟩ hview'] at hget
  cases result with
  | some source =>
    refine same ?_ (same_update _ entry ({ · with result := some (some source) }) fun _ => rfl)
    cases hsome : s.current entry with
    | none => exact hrest
    | some id' =>
      have hget := hcurrent id' hsome
      obtain ⟨hlive, hcommits⟩ := hrest.free hget hview (.inr rfl)
      have hsource := s.same_update entry ({ · with source := some source }) fun _ => rfl
      exact makeReady (hrest.same hsource) hget ((hsource.view entry).trans hview) hlive hcommits hgone
  | none =>
    refine same ?_ (same_update _ entry ({ · with result := some none }) fun _ => rfl)
    cases hsome : s.current entry with
    | none => rwa [remove_absent hsome]
    | some id' => exact hrest.remove_free (hcurrent id' hsome) hview (.inr rfl)

theorem inspected (h : TableInv s s.capacity live commits loads) (entry : Nat) (source : Source) :
    TableInv (s.inspected entry source).2 s.capacity live commits loads := by
  unfold SessionPreparations.inspected
  dsimp only
  split
  · rename_i id hcurrent
    split
    · refine touch ?_ (of_current hcurrent).1
      exact { h with room := Nat.le_succ_of_le h.room }
    · exact h
  · exact h

/-- Only a reserved entry has a reservation. -/
theorem unreserved (h : TableInv s s.capacity live commits loads)
    (hget : get? s.entries id = some entry)
    (hview : s.view entry = some (id, p, r)) (hp : p ≠ .reserved) : r = none := by
  cases r with
  | none => rfl
  | some R => exact absurd (h.reserved id entry p R hget hview).1 hp

/-- An entry starts committing. -/
theorem commit (h : TableInv s s.capacity live commits loads)
    (hget : get? s.entries id = some entry)
    (hview : s.view entry = some (id, .ready, r)) (promise next : Nat) :
    TableInv { s.update entry ({ · with phase := .committing, reservationSettled := some promise }) with
      nextPromise := next } s.capacity live (commits ++ [(id, entry)]) loads := by
  obtain ⟨hlive, hcommits⟩ := h.free hget hview (.inl rfl)
  obtain rfl := h.unreserved hget hview (by simp)
  have hloads := h.not_loading hview nofun
  have hview' : ∀ e, view { s.update entry ({ · with
      phase := .committing, reservationSettled := some promise }) with nextPromise := next } e =
        if e = entry then some (id, .committing, none) else s.view e :=
    view_update_at hview (fun v => (v.1, .committing, v.2.2)) fun _ => rfl
  have hphase := h.rephase hget hview' rfl rfl hlive hcommits hloads
  refine { hphase with room := hphase.room, committing := ?_, commitsNodup := ?_ }
  · intro id' e hmem
    rcases mem_append.mp hmem with hmem | hmem
    · exact hphase.committing id' e hmem
    · obtain ⟨rfl, rfl⟩ := Prod.mk.inj (mem_singleton.mp hmem)
      exact ⟨hget, (hview' e).trans (if_pos rfl)⟩
  · rw [map_append]
    refine nodup_append.mpr ⟨h.commitsNodup, nodup_singleton _, ?_⟩
    rintro id' hmem _ hlast rfl
    obtain ⟨⟨id'', e⟩, hcommit, rfl⟩ := mem_map.mp hmem
    obtain rfl : id'' = id := mem_singleton.mp hlast
    exact hcommits e hcommit

/-- What `reserve` reaches from the check of its loop. -/
theorem tryReserve (h : TableInv s s.capacity live commits loads)
    (hid : ∃ p r, s.view entry = some (id, p, r)) :
    TableInv (s.tryReserve entry).2 s.capacity live
      (match (s.tryReserve entry).1 with
        | .committing => commits ++ [(id, entry)]
        | _ => commits) loads ∧ ∀ R, (s.tryReserve entry).1 ≠ .reservation R := by
  unfold SessionPreparations.tryReserve
  cases hsome : s.current entry with
  | none => exact ⟨h, by simp⟩
  | some id' =>
    obtain ⟨hget, hview⟩ := of_current hsome
    obtain rfl := view_id hview hid
    simp only [Option.isSome_some, if_true]
    by_cases hready : s.isReady entry = true
    · simp only [hready, if_true]
      obtain ⟨p, r, hview⟩ := hview
      rw [isReady_of_view hview, decide_eq_true_eq] at hready
      subst hready
      exact ⟨h.commit hget hview _ _, by simp⟩
    · simp only [hready]
      cases s.heap[entry]?.bind (·.reservationSettled) with
      | some promise => exact ⟨h, by simp⟩
      | none => exact ⟨h, by simp⟩

section

variable (h : TableInv s s.capacity live commits loads)
include h

/-- An entry whose commit is done is reserved. -/
theorem reserve (hget : get? s.entries id = some entry)
    (hview : s.view entry = some (id, .committing, none)) (hcommits : ∀ e, (id, e) ∉ commits)
    (source : Source) (state : CommitState) :
    TableInv { s.update entry ({ · with
        phase := .reserved, reservation := some s.reservations.length }) with
      reservations := s.reservations ++ [{ entry, source, state }] } s.capacity
      (live ++ [(s.reservations.length, id)]) commits loads := by
  have hlive := h.not_live hget hview nofun
  have hview' : ∀ e, view { s.update entry ({ · with
      phase := .reserved, reservation := some s.reservations.length }) with
      reservations := s.reservations ++ [{ entry, source, state }] } e =
        if e = entry then some (id, .reserved, some s.reservations.length) else s.view e :=
    view_update_at hview (fun v => (v.1, .reserved, some s.reservations.length)) fun _ => rfl
  have hloads := h.not_loading hview nofun
  refine h.reassign hget hview' rfl ?_ hcommits hloads
    (fun _ hmem _ => mem_append_left _ hmem) ?_ ?_
  · intro R e hentry
    obtain ⟨reservation, hR, rfl⟩ := Option.map_eq_some_iff.mp hentry
    have hlt := (List.getElem?_eq_some_iff.mp hR).1
    unfold entryOf
    rw [getElem?_append_left hlt, hR]
    rfl
  · rintro R hR
    obtain rfl := Option.some.inj hR
    exact ⟨rfl, mem_append_right _ (mem_singleton_self _)⟩
  · intro x hmem
    rcases mem_append.mp hmem with hmem | hmem
    · exact .inl ⟨hmem, fun heq => hlive x.1 (heq ▸ hmem)⟩
    · rw [mem_singleton.mp hmem]
      exact .inr ⟨rfl, rfl, rfl, by simp [entryOf]⟩

/-- The table once a commit is no longer awaited. -/
theorem uncommit (hsub : commits'.Sublist commits) (hmem : (id, entry) ∈ commits) :
    TableInv s s.capacity live commits' loads ∧ get? s.entries id = some entry ∧
      s.view entry = some (id, .committing, none) :=
  ⟨h.weaken hsub (.refl loads), h.committing id entry hmem⟩

/-- The entry of a commit that failed or found nothing. -/
theorem remove_committing (hsub : commits'.Sublist commits)
    (hcommit : s.current entry = none ∨ (id, entry) ∈ commits ∧ ∀ e, (id, e) ∉ commits') :
    TableInv (s.remove entry) s.capacity live commits' loads := by
  rcases hcommit with hcurrent | ⟨hmem, hgone⟩
  · rw [remove_absent hcurrent]
    exact h.weaken hsub (.refl loads)
  obtain ⟨hrest, hget, hview⟩ := h.uncommit hsub hmem
  have hremove := hrest.remove hget
  rwa [filter_live_of_free (hrest.not_live hget hview nofun), filter_commits_of_free hgone]
    at hremove

end

/-- What a commit that settles leads to. -/
theorem committed (h : TableInv s s.capacity live commits loads) (hsub : commits'.Sublist commits)
    (hcommit : s.current entry = none ∨ (id, entry) ∈ commits ∧ ∀ e, (id, e) ∉ commits')
    (aborted : Bool) (result : Option (Option (Source × CommitState))) :
    TableInv (s.committed entry aborted result).2 s.capacity
      (match (s.committed entry aborted result).1 with
        | .reservation R => live ++ [(R, id)]
        | _ => live) commits' loads ∧
      (s.committed entry aborted result).1 ≠ .committing := by
  match result with
  | none => exact ⟨h.remove_committing hsub hcommit, by simp [SessionPreparations.committed]⟩
  | some none => exact ⟨h.remove_committing hsub hcommit, by simp [SessionPreparations.committed]⟩
  | some (some (source, state)) =>
    have hsource := s.same_update entry ({ · with source := some source }) fun _ => rfl
    have hcurrent : (s.update entry ({ · with source := some source })).current entry =
        s.current entry := by
      unfold current update
      simp only [getElem?_modify]
      cases s.heap[entry]? <;> simp
    unfold SessionPreparations.committed
    dsimp only
    rcases hcommit with hnone | ⟨hmem, hgone⟩
    · have hkept := (h.weaken hsub (.refl loads)).same hsource
      cases aborted with
      | true =>
        rw [if_pos rfl, SessionPreparations.makeReady, hcurrent, hnone]
        exact ⟨hkept, by simp⟩
      | false =>
        rw [if_neg (by simp), hcurrent, hnone, if_neg (by simp)]
        exact ⟨hkept, by simp⟩
    · obtain ⟨hrest, hget, hview⟩ := h.uncommit hsub hmem
      have hkept := hrest.same hsource
      have hview' := (hsource.view entry).trans hview
      cases aborted with
      | true =>
        rw [if_pos rfl]
        exact ⟨makeReady hkept hget hview' (hrest.not_live hget hview (by simp)) hgone
          (h.not_loading hview (by simp)), by simp⟩
      | false =>
        rw [if_neg (by simp), hcurrent, current_eq_some ⟨_, _, hview⟩ hget, Option.isSome_some,
          if_pos rfl]
        exact ⟨reserve hkept hget hview' hgone source state, by simp⟩

/-! ### Handles -/

/-- A handle that the table still knows is held by its caller. -/
theorem of_held (h : TableInv s s.capacity live commits loads) {R entry : Nat}
    (hheld : s.held R = some entry) : ∃ id, get? s.entries id = some entry ∧
      s.view entry = some (id, .reserved, some R) ∧ (R, id) ∈ live := by
  obtain ⟨-, hcondition⟩ := Option.filter_eq_some_iff.mp hheld
  simp only [Bool.and_eq_true, beq_iff_eq] at hcondition
  obtain ⟨hsome, hreservation⟩ := hcondition
  obtain ⟨id, hcurrent⟩ := Option.isSome_iff_exists.mp hsome
  obtain ⟨hget, p, r, hview⟩ := of_current hcurrent
  obtain ⟨object, hobject, heq⟩ := Option.map_eq_some_iff.mp hview
  simp only [Prod.mk.injEq] at heq
  obtain ⟨rfl, rfl, rfl⟩ := heq
  rw [hobject, Option.bind_some] at hreservation
  rw [hreservation] at hview
  obtain ⟨hphase, hlive⟩ := h.reserved _ _ _ _ hget hview
  rw [hphase] at hview
  exact ⟨object.id, hget, hview, hlive⟩

variable {R : Nat}

section

variable (h : TableInv s s.capacity live commits loads)
include h

/-- A handle that a caller holds is known to the table. -/
theorem held_of_live (hlive : (R, id) ∈ live) : ∃ entry, s.held R = some entry := by
  obtain ⟨entry, hget, hview, hentry⟩ := h.holds R id hlive
  refine ⟨entry, ?_⟩
  obtain ⟨object, hobject, heq⟩ := Option.map_eq_some_iff.mp hview
  simp only [Prod.mk.injEq] at heq
  unfold held
  rw [hentry, Option.filter_some, current_eq_some ⟨_, _, hview⟩ hget, hobject, Option.bind_some, heq.2.2]
  simp

/-- What is left once the handle of a session is given up: nobody else holds the session. -/
theorem filter_live (hlive : (R, id) ∈ live) : live.filter (·.2 ≠ id) = live.filter (·.1 != R) := by
  refine filter_congr fun x hx => ?_
  obtain ⟨e, hget, hview, hentry⟩ := h.holds R id hlive
  obtain ⟨e', hget', hview', hentry'⟩ := h.holds x.1 x.2 hx
  rw [Bool.eq_iff_iff]
  simp only [ne_eq, decide_not, Bool.not_eq_true', decide_eq_false_iff_not, bne_iff_ne]
  constructor
  · rintro hne rfl
    exact h.ne_of_id_ne hget hget' hne (Option.some.inj (hentry'.symm.trans hentry))
  rintro hne heq
  rw [heq] at hget'
  obtain rfl := Option.some.inj (hget.symm.trans hget')
  rw [hview] at hview'
  simp only [Option.some.injEq, Prod.mk.injEq] at hview'
  exact hne hview'.2.2.symm

/-- The entry of a handle leaves the table. -/
theorem remove_held {R entry : Nat} (hheld : s.held R = some entry) :
    TableInv (s.remove entry) s.capacity (live.filter (·.1 != R)) commits loads := by
  obtain ⟨id, hget, hview, hlive⟩ := h.of_held hheld
  have hremove := h.remove hget
  rwa [h.filter_live hlive, filter_commits_of_free (h.not_committing hget hview nofun)] at hremove

/-- A handle that the table does not know is not held by a caller. -/
theorem filter_stale (hheld : s.held R = none) : live.filter (·.1 != R) = live := by
  refine filter_eq_self.mpr fun x hx => ?_
  simp only [bne_iff_ne]
  rintro rfl
  obtain ⟨entry, hsome⟩ := h.held_of_live hx
  rw [hheld] at hsome
  cases hsome

end

theorem discard (h : TableInv s s.capacity live commits loads) (R : Nat) :
    TableInv (s.discard R) s.capacity (live.filter (·.1 != R)) commits loads := by
  unfold SessionPreparations.discard
  cases hheld : s.held R with
  | none =>
    rw [h.filter_stale hheld]
    exact h
  | some entry => exact h.remove_held hheld

theorem attach {s' : SessionPreparations SessionId Source CommitState}
    (h : TableInv s s.capacity live commits loads) (hattach : s.attach R = .ok s') :
    TableInv s' s.capacity (live.filter (·.1 != R)) commits loads := by
  unfold SessionPreparations.attach at hattach
  cases hheld : s.held R with
  | none =>
    rw [hheld] at hattach
    cases hattach
  | some entry =>
    rw [hheld] at hattach
    cases hattach
    exact h.remove_held hheld

theorem release (h : TableInv s s.capacity live commits loads) (R : Nat) (reusable : Bool) :
    TableInv (s.release R reusable) s.capacity (live.filter (·.1 != R)) commits loads := by
  unfold SessionPreparations.release
  cases hheld : s.held R with
  | none =>
    rw [h.filter_stale hheld]
    exact h
  | some entry =>
    obtain ⟨id, hget, hview, hlive⟩ := h.of_held hheld
    have hphase : s.phase? entry = some .reserved := by
      obtain ⟨object, hobject, heq⟩ := Option.map_eq_some_iff.mp hview
      simp only [Prod.mk.injEq] at heq
      simp [phase?, hobject, heq.2.1]
    dsimp only
    rw [if_pos hphase]
    cases reusable with
    | false => exact h.remove_held hheld
    | true =>
      have hfree := h.not_committing hget hview nofun
      have hloads := h.not_loading hview nofun
      have hview' : ∀ e, (s.update entry ({ · with reservation := none })).view e =
          if e = entry then some (id, .reserved, none) else s.view e :=
        view_update_at hview (fun v => (v.1, v.2.1, none)) fun _ => rfl
      have hgone : ∀ R', (R', id) ∉ live.filter (·.1 != R) := by
        rw [← h.filter_live hlive]
        intro R' hmem
        have hne := (mem_filter.mp hmem).2
        simp at hne
      have hnoLive : ∀ R', (none : Option Nat) = some R' → PreparationPhase.reserved = .reserved ∧
          (R', id) ∈ live.filter (·.1 != R) := fun R' hR' => nomatch hR'
      have hgiven := h.reassign hget hview' rfl (fun _ _ hentry => hentry) hfree hloads ?_ hnoLive ?_
      · exact makeReady hgiven hget ((hview' entry).trans (if_pos rfl)) hgone hfree hloads
      · intro x hx hne
        rw [← h.filter_live hlive]
        exact mem_filter.mpr ⟨hx, by simpa using hne⟩
      · intro x hx
        exact .inl ⟨(mem_filter.mp hx).1, fun heq => hgone x.1 (heq ▸ hx)⟩

/-- What `entryFor` gives. -/
theorem entryFor (h : TableInv s s.capacity live commits loads) (id : SessionId)
    (loadThrows : Bool) :
    TableInv (s.entryFor id loadThrows).2 s.capacity live commits
      (if (s.entryFor id loadThrows).1.2 then loads ++ [(s.entryFor id loadThrows).1.1] else loads) ∧
      s.Later (s.entryFor id loadThrows).2 ∧
      ∃ p r, (s.entryFor id loadThrows).2.view (s.entryFor id loadThrows).1.1 = some (id, p, r) := by
  unfold SessionPreparations.entryFor
  cases hget : get? s.entries id with
  | some entry => exact ⟨h, .refl s, h.valid id entry hget⟩
  | none =>
    have hinsert := h.insert hget
    have hlater := s.later_insert id hget
    have hview := (s.view_insert id s.heap.length).trans (if_pos rfl)
    cases loadThrows with
    | false => exact ⟨hinsert, hlater, _, _, hview⟩
    | true =>
      have hremoved := later_remove (s.inserted id) s.heap.length
      have hupdated := ((s.inserted id).remove s.heap.length).later_update s.heap.length
        ({ · with result := some none }) fun _ => rfl
      refine ⟨?_, (hlater.trans hremoved).trans hupdated,
        hupdated.ids _ _ (hremoved.ids _ _ ⟨_, _, hview⟩)⟩
      refine same ?_ (same_update _ s.heap.length ({ · with result := some none }) fun _ => rfl)
      have hrest := hinsert.weaken (.refl commits) (sublist_append_left loads [s.heap.length])
      exact hrest.remove_free ((get?_inserted hget id).trans (if_pos rfl)) hview (.inr rfl)

/-- A session loses its entry, and its callers what they had of it. -/
theorem invalidate (h : TableInv s s.capacity live commits loads) (id : SessionId) :
    TableInv (s.invalidate id) s.capacity (live.filter (·.2 ≠ id)) (commits.filter (·.1 ≠ id)) loads ∧
      get? (s.invalidate id).entries id = none := by
  unfold SessionPreparations.invalidate
  cases hget : get? s.entries id with
  | some entry =>
    refine ⟨h.remove hget, ?_⟩
    dsimp only
    unfold SessionPreparations.remove
    rw [current_eq_some (h.valid id entry hget) hget, entries_settle, get?_delete, if_pos rfl]
  | none =>
    refine ⟨?_, hget⟩
    have hlive : ∀ R, (R, id) ∉ live := fun R hmem => by
      obtain ⟨e, hget', -⟩ := h.holds R id hmem
      cases hget.symm.trans hget'
    have hcommits : ∀ e, (id, e) ∉ commits := fun e hmem => by
      cases hget.symm.trans (h.committing id e hmem).1
    rwa [filter_live_of_free hlive, filter_commits_of_free hcommits]

theorem discardReady [DecidableEq Source] (h : TableInv s s.capacity live commits loads)
    (id : SessionId) (expected : Source) :
    TableInv (s.discardReady id expected).2 s.capacity live commits loads := by
  unfold SessionPreparations.discardReady
  split
  · rename_i entry hget
    split
    · exact h
    split
    · rename_i hready
      obtain ⟨p, r, hview⟩ := h.valid id entry hget
      rw [isReady_of_view hview, decide_eq_true_eq] at hready
      exact h.remove_free hget hview (.inl hready)
    · exact h
  · exact h

theorem takeReady (h : TableInv s s.capacity live commits loads) (id : SessionId) :
    TableInv (s.takeReady id).2 s.capacity live commits loads := by
  unfold SessionPreparations.takeReady
  split
  · rename_i entry hget
    split
    · rename_i source hready hsource
      obtain ⟨p, r, hview⟩ := h.valid id entry hget
      rw [isReady_of_view hview, decide_eq_true_eq] at hready
      exact h.remove_free hget hview (.inl hready)
    · exact h
  · exact h

end TableInv

/-! ## Interleavings -/

namespace PreparationsWorld

variable {w w' : PreparationsWorld SessionId Source CommitState}

/-- The commit that a call awaits, when its session was not invalidated since. -/
def commit? (call : Call SessionId) : Option (SessionId × Nat) :=
  if call.await = .commit false then some (call.id, call.entry) else none

/-- The commits whose session was not invalidated since they started. -/
def commits (w : PreparationsWorld SessionId Source CommitState) : List (SessionId × Nat) :=
  w.calls.filterMap commit?

/-- What holds at any time. -/
structure Inv (w : PreparationsWorld SessionId Source CommitState) (capacity : Nat) : Prop where
  bound : w.table.capacity = capacity
  table : TableInv w.table w.table.capacity w.live w.commits w.loads
  called : ∀ call ∈ w.calls, ∃ p r, w.table.view call.entry = some (call.id, p, r)
  invalidated : ∀ call ∈ w.calls, call.await = .commit true →
    get? w.table.entries call.id ≠ some call.entry

variable {capacity : Nat}

theorem Inv.create (capacity : Nat) :
    (create capacity : PreparationsWorld SessionId Source CommitState).Inv capacity :=
  ⟨rfl, .create capacity, by simp [PreparationsWorld.create], by simp [PreparationsWorld.create]⟩

variable {call : Call SessionId} {table : SessionPreparations SessionId Source CommitState}

/-- A call stays what it is while the table goes on. -/
theorem Inv.kept (h : w.Inv capacity) (hlater : w.table.Later table) (hcall : call ∈ w.calls) :
    (∃ p r, table.view call.entry = some (call.id, p, r)) ∧ (call.await = .commit true →
      get? table.entries call.id ≠ some call.entry) := by
  have hid := h.called call hcall
  refine ⟨hlater.ids _ _ hid, fun hcommit hget => ?_⟩
  rcases hlater.entries _ _ hget with hget | hle
  · exact h.invalidated call hcall hcommit hget
  · obtain ⟨p, r, hview⟩ := hid
    exact absurd (lt_of_view hview) (Nat.not_lt.mpr hle)

variable {live : List (Nat × SessionId)}

/-- A step that lets the calls be. -/
theorem Inv.of_later (h : w.Inv capacity) (hlater : w.table.Later table) {loads : List Nat}
    (htable : TableInv table w.table.capacity live w.commits loads) :
    Inv { w with table, live, loads } capacity where
  bound := hlater.capacity.trans h.bound
  table := hlater.capacity.symm ▸ htable
  called _ hcall := (h.kept hlater hcall).1
  invalidated _ hcall := (h.kept hlater hcall).2

theorem Inv.start (h : w.Inv capacity) (id : SessionId) (signal loadThrows : Bool) {await : Await}
    (hawait : ∀ b, await ≠ .commit b) : (w.start id signal loadThrows await).Inv capacity := by
  obtain ⟨htable, hlater, hview⟩ := h.table.entryFor id loadThrows
  unfold PreparationsWorld.start
  obtain ⟨⟨⟨entry, started⟩, table⟩, hfor⟩ : ∃ r, w.table.entryFor id loadThrows = r := ⟨_, rfl⟩
  simp only [hfor] at htable hlater hview ⊢
  have hcommits : List.filterMap commit? (w.calls ++ [{ id, entry, signal, aborted := false, await }]) =
      w.commits := by
    rw [filterMap_append]
    simp [commits, commit?, hawait]
  refine ⟨hlater.capacity.trans h.bound, ?_, fun call hcall => ?_, fun call hcall => ?_⟩
  · show TableInv table table.capacity w.live (List.filterMap commit? _) _
    rw [hcommits, hlater.capacity]
    exact htable
  · rcases mem_append.mp hcall with hcall | hcall
    · exact (h.kept hlater hcall).1
    · rw [mem_singleton.mp hcall]
      exact hview
  · rcases mem_append.mp hcall with hcall | hcall
    · exact (h.kept hlater hcall).2
    · rw [mem_singleton.mp hcall]
      exact fun hcommit => absurd hcommit (hawait true)

variable {index : Nat}

/-- A call leaves its place and may wait elsewhere. -/
theorem Inv.moved (h : w.Inv capacity) (hcall : w.calls[index]? = some call)
    (hlater : w.table.Later table) {next : List (Call SessionId)}
    (hnext : ∀ c ∈ next, c.id = call.id ∧ c.entry = call.entry ∧
      (c.await = .commit true → call.await = .commit true))
    (htable : TableInv table w.table.capacity live
      ((w.calls.eraseIdx index).filterMap commit? ++ next.filterMap commit?) w.loads) :
    Inv { w with table, live, calls := w.calls.eraseIdx index ++ next } capacity := by
  have hmem : call ∈ w.calls := mem_of_getElem? hcall
  have hkept : ∀ c ∈ w.calls.eraseIdx index ++ next,
      (∃ p r, table.view c.entry = some (c.id, p, r)) ∧ (c.await = .commit true →
        get? table.entries c.id ≠ some c.entry) := by
    intro c hc
    rcases mem_append.mp hc with hc | hc
    · exact h.kept hlater (mem_of_mem_eraseIdx hc)
    obtain ⟨hid, hentry, hcommit⟩ := hnext c hc
    obtain ⟨hview, hinvalid⟩ := h.kept hlater hmem
    rw [hid, hentry]
    exact ⟨hview, fun hc => hinvalid (hcommit hc)⟩
  refine ⟨hlater.capacity.trans h.bound, ?_, fun c hc => (hkept c hc).1, fun c hc => (hkept c hc).2⟩
  show TableInv table table.capacity live (List.filterMap commit? _) w.loads
  rw [filterMap_append, hlater.capacity]
  exact htable

theorem Inv.ended (h : w.Inv capacity) (hcall : w.calls[index]? = some call)
    (hlater : w.table.Later table)
    (htable : TableInv table w.table.capacity live ((w.calls.eraseIdx index).filterMap commit?)
      w.loads) : Inv { w with table, live, calls := w.calls.eraseIdx index } capacity := by
  have hnone : ∀ c ∈ ([] : List (Call SessionId)), c.id = call.id ∧ c.entry = call.entry ∧
      (c.await = .commit true → call.await = .commit true) := fun c hc => nomatch hc
  have hmoved := h.moved hcall hlater hnone
    (by rw [filterMap_nil, append_nil]; exact htable)
  rwa [append_nil] at hmoved

/-- A call goes on: it awaits something else, or ends. -/
theorem Inv.proceed (h : w.Inv capacity) (hcall : w.calls[index]? = some call)
    {r : ReserveOutcome × SessionPreparations SessionId Source CommitState}
    (hlater : w.table.Later r.2)
    (htable : TableInv r.2 w.table.capacity
      (match r.1 with
        | .reservation R => w.live ++ [(R, call.id)]
        | _ => w.live)
      (match r.1 with
        | .committing => (w.calls.eraseIdx index).filterMap commit? ++ [(call.id, call.entry)]
        | _ => (w.calls.eraseIdx index).filterMap commit?) w.loads) :
    (PreparationsWorld.proceed { w with calls := w.calls.eraseIdx index } call r).Inv capacity := by
  obtain ⟨outcome, table⟩ := r
  cases outcome with
  | committing => exact h.moved hcall hlater (by simp) (by simpa [commit?] using htable)
  | waiting promise => exact h.moved hcall hlater (by simp) (by simpa [commit?] using htable)
  | undefined | thrown | reservation =>
    exact h.ended hcall hlater (by simpa using htable)

omit [DecidableEq SessionId] in
/-- A call that awaits no commit leaves the commits alone. -/
theorem commits_eraseIdx (hcall : w.calls[index]? = some call) (hcommit : commit? call = none) :
    (w.calls.eraseIdx index).filterMap commit? = w.commits :=
  Erase.filterMap_eraseIdx hcall hcommit

variable (s : SessionPreparations SessionId Source CommitState)

theorem later_tryReserve (entry : Nat) : s.Later (s.tryReserve entry).2 := by
  unfold tryReserve
  split
  · split
    · have hlater := s.later_update entry ({ · with
        phase := .committing, reservationSettled := some s.nextPromise }) fun _ => rfl
      exact { hlater with }
    · split <;> exact .refl s
  · exact .refl s

theorem Inv.tryReserve (h : w.Inv capacity)
    (hcall : w.calls[index]? = some call) (hcommit : commit? call = none) :
    (PreparationsWorld.proceed { w with calls := w.calls.eraseIdx index } call
      (w.table.tryReserve call.entry)).Inv capacity := by
  obtain ⟨htable, hreserved⟩ := h.table.tryReserve (h.called call (mem_of_getElem? hcall))
  refine h.proceed hcall (later_tryReserve _ _) ?_
  rw [commits_eraseIdx hcall hcommit]
  cases houtcome : (w.table.tryReserve call.entry).1 with
  | reservation R => exact absurd houtcome (hreserved R)
  | committing | waiting | undefined | thrown =>
    rw [houtcome] at htable
    exact htable

theorem later_inspected (entry : Nat) (source : Source) : s.Later (s.inspected entry source).2 := by
  unfold inspected
  dsimp only
  split
  · rename_i id hcurrent
    split
    · exact later_touch (of_current hcurrent).1
    · exact .refl s
  · exact .refl s

/-- A suspended call goes on. -/
theorem Inv.resumeCall (h : w.Inv capacity) (hcall : w.calls[index]? = some call)
    (hstep : PreparationsWorld.resumeCall { w with calls := w.calls.eraseIdx index } call = some w') :
    w'.Inv capacity := by
  have hended : ∀ {table : SessionPreparations SessionId Source CommitState}, commit? call = none →
      w.table.Later table → TableInv table w.table.capacity w.live w.commits w.loads →
        Inv { w with table, calls := w.calls.eraseIdx index } capacity := by
    intro table hcommit hlater htable
    exact h.ended hcall hlater (by rw [commits_eraseIdx hcall hcommit]; exact htable)
  unfold PreparationsWorld.resumeCall at hstep
  cases hawait : call.await with
  | inspecting =>
    have hcommit : commit? call = none := by simp [commit?, hawait]
    simp only [hawait, Option.map_eq_some_iff] at hstep
    obtain ⟨result, -, rfl⟩ := hstep
    cases result with
    | some source =>
      exact hended hcommit (later_inspected _ _ _) (h.table.inspected _ _)
    | none => exact hended hcommit (.refl _) h.table
  | loading =>
    have hcommit : commit? call = none := by simp [commit?, hawait]
    simp only [hawait, Option.map_eq_some_iff] at hstep
    obtain ⟨result, -, rfl⟩ := hstep
    cases result with
    | some source => exact h.tryReserve hcall hcommit
    | none => exact hended hcommit (.refl _) h.table
  | settlement promise =>
    have hcommit : commit? call = none := by simp [commit?, hawait]
    simp only [hawait, Option.ite_none_right_eq_some, Option.some.injEq] at hstep
    obtain ⟨-, rfl⟩ := hstep
    exact h.tryReserve hcall hcommit
  | commit invalidated =>
    simp only [hawait] at hstep
    cases hstep

theorem later_committed (entry : Nat)
    (aborted : Bool) (result : Option (Option (Source × CommitState))) :
    s.Later (s.committed entry aborted result).2 := by
  match result with
  | none => exact later_remove s entry
  | some none => exact later_remove s entry
  | some (some (source, state)) =>
    have hsource := s.later_update entry ({ · with source := some source }) fun _ => rfl
    unfold committed
    dsimp only
    split
    · exact hsource.trans (later_makeReady _ _)
    split
    · have hlater := hsource.trans (later_update _ entry ({ · with
        phase := .reserved, reservation := some s.reservations.length }) fun _ => rfl)
      exact { hlater with }
    · exact hsource

/-- The commit of a suspended call settles. -/
theorem Inv.committed (h : w.Inv capacity)
    (hcall : w.calls[index]? = some call) {invalidated : Bool} (hawait : call.await = .commit invalidated)
    (result : Option (Option (Source × CommitState))) :
    (PreparationsWorld.proceed { w with calls := w.calls.eraseIdx index } call
      (w.table.committed call.entry call.aborted result)).Inv capacity := by
  have hmem : call ∈ w.calls := mem_of_getElem? hcall
  have hsub : ((w.calls.eraseIdx index).filterMap commit?).Sublist w.commits :=
    (eraseIdx_sublist _ _).filterMap _
  have hcommit : w.table.current call.entry = none ∨ (call.id, call.entry) ∈ w.commits ∧
      ∀ e, (call.id, e) ∉ (w.calls.eraseIdx index).filterMap commit? := by
    cases invalidated with
    | true =>
      refine .inl (current_eq_none fun id hview => ?_)
      obtain rfl := view_id (h.called call hmem) hview
      exact h.invalidated call hmem hawait
    | false =>
      have hsome : commit? call = some (call.id, call.entry) := by simp [commit?, hawait]
      refine .inr ⟨mem_filterMap.mpr ⟨call, hmem, hsome⟩, fun e hother => ?_⟩
      have hperm := (Erase.perm_of_getElem? hcall).filterMap commit?
      rw [filterMap_cons_some hsome] at hperm
      have hnodup := (hperm.map Prod.fst).nodup_iff.mp h.table.commitsNodup
      rw [map_cons, nodup_cons] at hnodup
      exact hnodup.1 (mem_map.mpr ⟨_, hother, rfl⟩)
  obtain ⟨htable, hcommitting⟩ := h.table.committed hsub hcommit call.aborted result
  refine h.proceed hcall (later_committed _ _ _ _) ?_
  cases houtcome : (w.table.committed call.entry call.aborted result).1 with
  | committing => exact absurd houtcome hcommitting
  | reservation | waiting | undefined | thrown =>
    rw [houtcome] at htable
    exact htable

theorem Inv.abortCall (h : w.Inv capacity) (hcall : w.calls[index]? = some call) :
    (PreparationsWorld.abortCall { w with calls := w.calls.eraseIdx index } call).Inv capacity := by
  unfold PreparationsWorld.abortCall
  cases hawait : call.await with
  | commit invalidated =>
    refine h.moved hcall (.refl _) (by simp [hawait]) (h.table.perm ?_)
    -- the call is last now, and awaits what it awaited
    have hsame : [{ call with aborted := true }].filterMap commit? = [call].filterMap commit? := rfl
    have hperm := ((Erase.perm_of_getElem? hcall).trans
      (perm_append_singleton _ _).symm).filterMap commit?
    rw [filterMap_append] at hperm
    rw [hawait] at hsame
    rw [hsame]
    exact hperm.symm
  | inspecting | loading | settlement =>
    exact h.ended hcall (.refl _)
      (by rw [commits_eraseIdx hcall (by simp [commit?, hawait])]; exact h.table)

/-! ### Handles and the rest -/

theorem Inv.discard (h : w.Inv capacity) (R : Nat) :
    (PreparationsWorld.forget { w with table := w.table.discard R } R).Inv capacity := by
  refine h.of_later ?_ (h.table.discard R)
  unfold SessionPreparations.discard
  split
  · exact later_remove _ _
  · exact .refl _

theorem Inv.attach (h : w.Inv capacity) {R : Nat} (hattach : w.table.attach R = .ok table) :
    (PreparationsWorld.forget { w with table } R).Inv capacity := by
  refine h.of_later ?_ (h.table.attach hattach)
  unfold SessionPreparations.attach at hattach
  split at hattach
  · cases hattach
    exact later_remove _ _
  · cases hattach

theorem Inv.release (h : w.Inv capacity) (R : Nat) (reusable : Bool) :
    (PreparationsWorld.forget { w with table := w.table.release R reusable } R).Inv capacity := by
  refine h.of_later ?_ (h.table.release R reusable)
  unfold SessionPreparations.release
  split
  · rename_i entry hheld
    split
    · split
      · have hupdate := w.table.later_update entry ({ · with reservation := none }) fun _ => rfl
        exact hupdate.trans (later_makeReady _ _)
      · exact later_remove _ _
    · exact .refl _
  · exact .refl _

/-- How a call learns that the session of its commit was invalidated. -/
def mark (id : SessionId) (call : Call SessionId) : Call SessionId :=
  match call.await with
  | .commit _ => if call.id = id then { call with await := .commit true } else call
  | _ => call

theorem Inv.invalidate (h : w.Inv capacity) (id : SessionId) :
    (PreparationsWorld.invalidated { w with table := w.table.invalidate id } id).Inv capacity := by
  obtain ⟨htable, hnone⟩ := h.table.invalidate id
  have hlater : w.table.Later (w.table.invalidate id) := by
    unfold SessionPreparations.invalidate
    split
    · exact later_remove _ _
    · exact .refl _
  have hmark : ∀ call, (mark id call).id = call.id ∧ (mark id call).entry = call.entry ∧
      ((mark id call).await = .commit true → call.await = .commit true ∨ call.id = id) := by
    intro call
    unfold mark
    split
    · split
      · rename_i hid
        exact ⟨rfl, rfl, fun _ => .inr hid⟩
      · exact ⟨rfl, rfl, .inl⟩
    · exact ⟨rfl, rfl, .inl⟩
  have hcommit? : ∀ call, commit? (mark id call) = (commit? call).filter (·.1 ≠ id) := by
    intro call
    unfold mark
    cases hawait : call.await with
    | commit invalidated =>
      by_cases hid : call.id = id <;> cases invalidated <;>
        simp [commit?, hid, hawait, Option.filter_some]
    | inspecting | loading | settlement => simp [commit?, hawait]
  have hcommits : (w.calls.map (mark id)).filterMap commit? = w.commits.filter (·.1 ≠ id) := by
    rw [filterMap_map, commits, filter_filterMap]
    exact filterMap_congr fun call _ => hcommit? call
  refine ⟨hlater.capacity.trans h.bound, ?_, fun c hc => ?_, fun c hc hcommit => ?_⟩
  · show TableInv _ (w.table.invalidate id).capacity _ ((w.calls.map (mark id)).filterMap commit?) w.loads
    rw [hcommits, hlater.capacity]
    exact htable
  · obtain ⟨call, hcall, rfl⟩ := mem_map.mp hc
    obtain ⟨hid, hentry, -⟩ := hmark call
    show ∃ p r, view _ (mark id call).entry = some ((mark id call).id, p, r)
    rw [hid, hentry]
    exact (h.kept hlater hcall).1
  · obtain ⟨call, hcall, rfl⟩ := mem_map.mp hc
    obtain ⟨hid, hentry, hcases⟩ := hmark call
    show get? (w.table.invalidate id).entries (mark id call).id ≠ some (mark id call).entry
    rw [hid, hentry]
    rcases hcases hcommit with hcommit | rfl
    · exact (h.kept hlater hcall).2 hcommit
    · rw [hnone]
      simp

theorem later_loaded (entry : Nat) (result : Option Source) : s.Later (s.loaded entry result) := by
  cases result with
  | some source =>
    have hsource := s.later_update entry ({ · with source := some source }) fun _ => rfl
    have hresult := fun t : SessionPreparations SessionId Source CommitState =>
      t.later_update entry ({ · with result := some (some source) }) fun _ => rfl
    unfold loaded
    dsimp only
    split
    · exact (hsource.trans (later_makeReady _ _)).trans (hresult _)
    · exact hresult _
  | none =>
    exact (later_remove s entry).trans
      (later_update _ entry ({ · with result := some none }) fun _ => rfl)

theorem later_discardReady [DecidableEq Source] (id : SessionId) (expected : Source) :
    s.Later (s.discardReady id expected).2 := by
  unfold discardReady
  split
  · split
    · exact .refl s
    split
    · exact later_remove s _
    · exact .refl s
  · exact .refl s

theorem later_takeReady (id : SessionId) : s.Later (s.takeReady id).2 := by
  unfold takeReady
  split
  · split
    · exact later_remove s _
    · exact .refl s
  · exact .refl s

theorem Inv.step [DecidableEq Source] (h : w.Inv capacity) {act : Act SessionId Source CommitState}
    (hstep : w.step act = some w') : w'.Inv capacity := by
  cases act with
  | inspect id signal loadThrows =>
    cases hstep
    exact h.start id signal loadThrows (by simp)
  | reserve id signal loadThrows =>
    cases hstep
    exact h.start id signal loadThrows (by simp)
  | loaded entry result =>
    simp only [PreparationsWorld.step, Option.ite_none_right_eq_some, Option.some.injEq] at hstep
    obtain ⟨hload, rfl⟩ := hstep
    exact h.of_later (later_loaded _ _ _) (h.table.loaded hload result)
  | resume index =>
    simp only [PreparationsWorld.step, Option.bind_eq_some_iff] at hstep
    obtain ⟨call, hcall, hstep⟩ := hstep
    exact h.resumeCall hcall hstep
  | committed index result =>
    simp only [PreparationsWorld.step, Option.bind_eq_some_iff] at hstep
    obtain ⟨call, hcall, hstep⟩ := hstep
    cases hawait : call.await with
    | commit invalidated =>
      simp only [hawait, Option.some.injEq] at hstep
      subst hstep
      exact h.committed hcall hawait result
    | inspecting | loading | settlement =>
      simp only [hawait] at hstep
      cases hstep
  | abort index =>
    simp only [PreparationsWorld.step, Option.bind_eq_some_iff] at hstep
    obtain ⟨call, hcall, hstep⟩ := hstep
    rw [Option.ite_none_right_eq_some] at hstep
    cases hstep.2
    exact h.abortCall hcall
  | attach R =>
    unfold PreparationsWorld.step at hstep
    cases hattach : w.table.attach R with
    | ok table =>
      simp only [hattach, Option.some.injEq] at hstep
      subst hstep
      exact h.attach hattach
    | error e =>
      simp only [hattach, Option.some.injEq] at hstep
      exact hstep ▸ h
  | discard R =>
    cases hstep
    exact h.discard R
  | release R reusable =>
    cases hstep
    exact h.release R reusable
  | invalidate id =>
    cases hstep
    exact h.invalidate id
  | discardReady id expected =>
    cases hstep
    exact h.of_later (later_discardReady _ _ _) (h.table.discardReady id expected)
  | takeReady id =>
    cases hstep
    exact h.of_later (later_takeReady _ _) (h.table.takeReady id)

/-! ## The contract -/

theorem assertWritable_of_view {s : SessionPreparations SessionId Source CommitState}
    {id : SessionId} {entry : Nat} {p : PreparationPhase} {r : Option Nat}
    (hget : get? s.entries id = some entry) (hview : s.view entry = some (id, p, r))
    (hp : p = .committing ∨ p = .reserved) : ∃ e, s.assertWritable id = .error e := by
  obtain ⟨object, hobject, heq⟩ := Option.map_eq_some_iff.mp hview
  simp only [Prod.mk.injEq] at heq
  obtain ⟨-, rfl, -⟩ := heq
  have hphase : (get? s.entries id).bind s.phase? = some object.phase := by
    simp [hget, phase?, hobject]
  unfold assertWritable
  rw [hphase]
  rcases hp with hp | hp <;> rw [hp] <;> exact ⟨_, rfl⟩

/-- In every interleaving of the table's operations: a session has at most one reservation
in the hands of a caller, and no commit in progress beside it; while it has either, writes
to it are refused; the ready entries keep to their bound; and a handle that was attached,
discarded, released or superseded changes nothing. -/
theorem preparations_contract [DecidableEq Source] (capacity : Nat)
    (acts : List (Act SessionId Source CommitState))
    (w : PreparationsWorld SessionId Source CommitState)
    (hrun : Transitions.run (fun w act => step w act) (create capacity) acts = some w) :
    (∀ x ∈ w.live, ∀ y ∈ w.live, x.2 = y.2 → x = y) ∧
    (∀ R id, (R, id) ∈ w.live → ∀ call ∈ w.calls, call.id = id → call.await ≠ .commit false) ∧
    (∀ id, ((∃ R, (R, id) ∈ w.live) ∨ ∃ call ∈ w.calls, call.id = id ∧ call.await = .commit false) →
      ∃ e, w.table.assertWritable id = .error e) ∧
    w.table.readyCount ≤ capacity ∧
    ∀ R, (∀ id, (R, id) ∉ w.live) → (∃ e, w.table.attach R = .error e) ∧
      w.table.discard R = w.table ∧ ∀ reusable, w.table.release R reusable = w.table := by
  have hinv : w.Inv capacity :=
    Transitions.run_invariant' (I := fun w => w.Inv capacity) (fun _ _ _ h hstep => h.step hstep)
      (.create capacity) hrun
  have htable := hinv.table
  have hcommits : ∀ call ∈ w.calls, call.await = .commit false →
      (call.id, call.entry) ∈ w.commits := fun call hcall hawait =>
    mem_filterMap.mpr ⟨call, hcall, by simp [commit?, hawait]⟩
  refine ⟨?_, ?_, ?_, hinv.bound ▸ htable.room, ?_⟩
  · rintro ⟨R, id⟩ hx ⟨R', id'⟩ hy heq
    obtain rfl : id = id' := heq
    obtain ⟨e, hget, hview, -⟩ := htable.holds R id hx
    obtain ⟨e', hget', hview', -⟩ := htable.holds R' id hy
    obtain rfl := Option.some.inj (hget.symm.trans hget')
    rw [hview] at hview'
    simp only [Option.some.injEq, Prod.mk.injEq, true_and] at hview'
    rw [hview']
  · rintro R id hlive call hcall rfl hawait
    obtain ⟨e, hget, hview, -⟩ := htable.holds R call.id hlive
    obtain ⟨hget', hview'⟩ := htable.committing _ _ (hcommits call hcall hawait)
    obtain rfl := Option.some.inj (hget.symm.trans hget')
    rw [hview] at hview'
    simp at hview'
  · rintro id (⟨R, hlive⟩ | ⟨call, hcall, rfl, hawait⟩)
    · obtain ⟨e, hget, hview, -⟩ := htable.holds R id hlive
      exact assertWritable_of_view hget hview (.inr rfl)
    · obtain ⟨hget, hview⟩ := htable.committing _ _ (hcommits call hcall hawait)
      exact assertWritable_of_view hget hview (.inl rfl)
  · intro R hstale
    have hheld : w.table.held R = none := by
      cases hheld : w.table.held R with
      | none => rfl
      | some entry =>
        obtain ⟨id, -, -, hlive⟩ := htable.of_held hheld
        exact absurd hlive (hstale id)
    refine ⟨⟨"preparation is no longer reserved", ?_⟩, ?_, fun reusable => ?_⟩
    · simp [SessionPreparations.attach, hheld]
    · simp [SessionPreparations.discard, hheld]
    · simp [SessionPreparations.release, hheld]

/-- A session is reserved, its reservation released, and the entry reserved anew. -/
def reservedTwice : List (Act Nat Nat Unit) :=
  [.reserve 7 false false, .loaded 0 (some 1), .resume 0, .committed 0 (some (some (1, ()))),
    .release 0 true, .reserve 7 false false, .resume 0, .committed 0 (some (some (1, ())))]

theorem reservedTwice_contract : ∃ w, Transitions.run (fun w act => step w act) (create 1) reservedTwice = some w ∧
    w.live = [(1, 7)] ∧ (∃ e, w.table.assertWritable 7 = .error e) ∧ w.table.discard 0 = w.table := by
  obtain ⟨w, hrun, hlive⟩ : ∃ w : PreparationsWorld Nat Nat Unit,
      Transitions.run (fun w act => step w act) (create 1) reservedTwice = some w ∧
      w.live = [(1, 7)] := ⟨_, rfl, rfl⟩
  have h := preparations_contract 1 reservedTwice w hrun
  have hstale := h.2.2.2.2 0 (by simp [hlive])
  exact ⟨w, hrun, hlive, h.2.2.1 7 (.inl ⟨1, by simp [hlive]⟩), hstale.2.1⟩

end PreparationsWorld
end Harness
