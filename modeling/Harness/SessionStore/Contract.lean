-- SUMMARY: The lifecycle contract of the session store over every nesting of calls and dispatches.
import Harness.SessionStore.Lifecycle

/-!
# The contract of the session store
-/

namespace Harness

open List

namespace SessionStore

def Happening.createdRef : Happening → Option Nat
  | .created ref => some ref
  | _ => none

def Happening.disposedRef : Happening → Option Nat
  | .disposed ref => some ref
  | _ => none

namespace Store

variable {s s' : Store} {ref : Nat} {entry : Entry}

/-- A creation or append dispatch of the entry is running. -/
def Open (s : Store) (ref : Nat) : Prop :=
  ∃ frame ∈ s.stack, frame.announces ref = true ∨ frame.appends ref = true

/-- At most one entry is live for an id, and for a session object. -/
structure LiveOnce (s : Store) : Prop where
  keys : (OrderedMap.keys s.store).Nodup
  unique : ∀ (ref ref' : Nat) (entry entry' : Entry), s.entries[ref]? = some entry →
    s.entries[ref']? = some entry' → s.Live ref entry → s.Live ref' entry' →
      entry.session.id = entry'.session.id ∨ entry.session = entry'.session → ref = ref'

theorem Inv.liveOnce (h : Inv s) : LiveOnce s where
  keys := h.storeKeys
  unique := by
    intro ref ref' entry entry' _ _ hlive hlive' hsame
    have hid : entry.session.id = entry'.session.id := hsame.elim id fun heq => heq ▸ rfl
    have hlive : s.store.get? entry.session.id = some ref := hlive
    rw [hid] at hlive
    exact Option.some.inj (hlive.symm.trans hlive')

theorem Kept.open_iff (h : Kept s ref entry) :
    s.Open ref ↔ entry.announcing = true ∨ entry.appending = true := by
  have hcount : ∀ {p : Frame → Bool} {flag : Bool}, s.stack.countP p = flag.toNat →
      ((∃ frame ∈ s.stack, p frame = true) ↔ flag = true) := by
    intro p flag hcount
    rw [← countP_pos_iff, hcount]
    cases flag <;> simp
  rw [← hcount h.announcing, ← hcount h.appending]
  constructor
  · rintro ⟨frame, hframe, hopen⟩
    exact hopen.imp (fun h => ⟨frame, hframe, h⟩) (fun h => ⟨frame, hframe, h⟩)
  rintro (⟨frame, hframe, hopen⟩ | ⟨frame, hframe, hopen⟩)
  · exact ⟨frame, hframe, .inl hopen⟩
  · exact ⟨frame, hframe, .inr hopen⟩

/-- Where the detach capability has been used, the entry is live exactly as long as a dispatch
is open. -/
theorem Settled.detached_iff (h : Settled s) (hentry : s.entries[ref]? = some entry)
    (hused : entry.entered = false) : s.Live ref entry ↔ s.Open ref := by
  have hkept := h.inv.entries ref entry hentry
  rw [hkept.open_iff]
  constructor
  · intro hlive
    rcases hkept.live.mp hlive with hentered | hrequested
    · exact absurd (hused.symm.trans hentered) Bool.false_ne_true
    · exact h.deferred ref entry hentry hrequested
  · intro hopen
    by_contra hdead
    obtain ⟨hannouncing, happending⟩ := hkept.quiet hdead
    rcases hopen with hopen | hopen
    · exact Bool.false_ne_true (hannouncing.symm.trans hopen)
    · exact Bool.false_ne_true (happending.symm.trans hopen)

/-- An entry that has left has no open dispatch, and was disposed exactly if it was announced. -/
theorem Inv.departed (h : Inv s) (hentry : s.entries[ref]? = some entry)
    (hdead : ¬ s.Live ref entry) :
    ¬ s.Open ref ∧ (.disposed ref ∈ s.log ↔ .created ref ∈ s.log) := by
  have hkept := h.entries ref entry hentry
  obtain ⟨hannouncing, happending⟩ := hkept.quiet hdead
  refine ⟨?_, ?_⟩
  · rw [hkept.open_iff, hannouncing, happending]
    simp
  · rw [hkept.disposed, hkept.created]
    exact and_iff_left hdead

theorem Inv.created_nodup (h : Inv s) : (s.log.filterMap Happening.createdRef).Nodup := by
  refine h.lawful.nodup_filterMap fun happening before ref hfits hkey earlier hearlier hsame => ?_
  cases happening with
  | created ref' =>
    cases hkey
    cases earlier with
    | created ref' =>
      cases hsame
      exact hfits.1 hearlier
    | _ => cases hsame
  | _ => cases hkey

theorem Inv.disposed_nodup (h : Inv s) : (s.log.filterMap Happening.disposedRef).Nodup := by
  refine h.lawful.nodup_filterMap fun happening before ref hfits hkey earlier hearlier hsame => ?_
  cases happening with
  | disposed ref' =>
    cases hkey
    cases earlier with
    | disposed ref' =>
      cases hsame
      exact hfits.2.2 hearlier
    | _ => cases hsame
  | _ => cases hkey

/-! ## Stale capabilities -/

theorem Inv.detach_stale (h : Inv s) (hleft : .left ref ∈ s.log) : s.detach ref = s := by
  have hlt : ref < s.entries.length := h.known _ hleft
  obtain ⟨entry, hentry⟩ := Heap.exists_of_lt hlt
  have hkept := h.entries ref entry hentry
  have hused : entry.entered = false :=
    Bool.eq_false_iff.mpr fun hentered => hkept.left.mp hleft (hkept.live.mpr (.inl hentered))
  simp [Store.detach, hentry, hused]

theorem append_stale {session : SessionObject} (h : s.attachments.get? session = none) :
    (s.append session).2 = s.push session := by
  simp [Store.append, h]

/-! ## Publication -/

theorem detachEntered_lengths (s : Store) (ref : Nat) : (s.detachEntered ref).lengths = s.lengths := by
  unfold detachEntered
  split
  · rfl
  dsimp only
  split
  · rfl
  · split <;> rfl

theorem detach_lengths (s : Store) (ref : Nat) : (s.detach ref).lengths = s.lengths := by
  unfold detach
  split
  · rfl
  split
  · rfl
  split
  · rfl
  · exact detachEntered_lengths _ ref

theorem finishAppend_lengths (s : Store) (ref : Nat) : (s.finishAppend ref).lengths = s.lengths := by
  unfold finishAppend
  split
  · rfl
  dsimp only
  split
  · exact detachEntered_lengths _ ref
  · rfl

theorem finishAnnounce_lengths (s : Store) (ref : Nat) (owned threw : Bool) :
    (s.finishAnnounce ref owned threw).lengths = s.lengths := by
  unfold finishAnnounce
  split
  · rfl
  dsimp only
  have hdetached : ∀ (c : Bool) (s₁ : Store), s₁.lengths = s.lengths →
      (if c then s₁.detachEntered ref else s₁).lengths = s.lengths := by
    intro c s₁ hsame
    cases c with
    | false => exact hsame
    | true => exact (detachEntered_lengths s₁ ref).trans hsame
  split
  · rw [detach_lengths]
    exact hdetached _ _ rfl
  · exact hdetached _ _ rfl

theorem enter_lengths (s : Store) (session : SessionObject) :
    (s.enter session).2.lengths = s.lengths := by
  unfold enter
  split
  · rfl
  · split <;> rfl

theorem beginAnnounce_lengths (s : Store) (session : SessionObject) (owned : Bool) :
    (s.beginAnnounce session owned).2.lengths = s.lengths := by
  unfold beginAnnounce
  split
  · rfl
  · split <;> rfl

theorem create_lengths (s : Store) (session : SessionObject) :
    (s.create session).2.lengths = s.lengths := by
  have hentered := enter_lengths s session
  unfold create
  split
  · rename_i heq
    rw [heq] at hentered
    exact hentered
  · rename_i heq
    rw [heq] at hentered
    exact (beginAnnounce_lengths _ session true).trans hentered

/-- The number of events in a session's log. -/
def seq (s : Store) (session : SessionObject) : Nat := (s.lengths.get? session).getD 0

/-- An event that enters the log of an attached session is published, under its number. -/
theorem Inv.step_published (h : Inv s) {act : Action} (hstep : s.step act = some s')
    {session : SessionObject} (hattached : s.attachments.get? session = some ref)
    (hgrown : s'.seq session ≠ s.seq session) : .published ref (s.seq session) ∈ s'.log := by
  have hsame : s'.lengths ≠ s.lengths := fun heq => hgrown (by rw [seq, seq, heq])
  have hother : ∀ other : SessionObject, (s.push other).seq session ≠ s.seq session →
      session = other := by
    intro other hdiffers
    by_contra hne
    exact hdiffers (by simp [seq, Store.push, OrderedMap.get?_set, hne])
  cases act with
  | enter session' =>
    cases hstep
    exact absurd (enter_lengths s session') hsame
  | create session' =>
    cases hstep
    exact absurd (create_lengths s session') hsame
  | detach ref' =>
    cases hstep
    exact absurd (detach_lengths s ref') hsame
  | announce session' =>
    cases hstep
    exact absurd (beginAnnounce_lengths s session' false) hsame
  | append session' =>
    cases hstep
    cases hattached' : s.attachments.get? session' with
    | none =>
      rw [append_stale hattached'] at hgrown
      obtain rfl := hother session' hgrown
      rw [hattached] at hattached'
      cases hattached'
    | some ref' =>
      obtain ⟨entry, hentry, -⟩ := h.attachments session' ref' hattached'
      have hkeeps : (s.append session').2.lengths = s.lengths := by
        simp only [Store.append, hattached', hentry]
        split <;> rfl
      exact absurd hkeeps hsame
  | collected vetoed =>
    dsimp only [Store.step] at hstep
    split at hstep
    · rename_i ref' rest hstack
      split at hstep
      · cases hstep
        exact absurd (finishAppend_lengths _ ref') hsame
      cases hstep
      have hmem : Frame.collect ref' ∈ s.stack := by
        rw [hstack]
        exact mem_cons_self
      obtain ⟨entry, hentry⟩ : ∃ entry, s.entries[ref']? = some entry :=
        Heap.exists_of_lt (h.frames _ hmem)
      obtain ⟨-, hlive⟩ := h.live_of_appends hentry hmem (by simp [Frame.appends])
      simp only [Store.publish, hentry] at hgrown ⊢
      obtain rfl := hother entry.session hgrown
      -- the entry that is being appended to is the one that the session is attached to
      have hsameRef := ((h.entries ref' entry hentry).attached.mpr hlive).symm.trans hattached
      cases hsameRef
      exact mem_cons_self
    · cases hstep
  | finish threw =>
    dsimp only [Store.step] at hstep
    split at hstep
    · cases hstep
      exact absurd (finishAnnounce_lengths _ _ _ _) hsame
    · cases hstep
      exact absurd (finishAppend_lengths _ _) hsame
    · cases hstep
      exact absurd rfl hsame
    · cases hstep

theorem detach_used (s : Store) (hlt : ref < s.entries.length) :
    ∃ entry, (s.detach ref).entries[ref]? = some entry ∧ entry.entered = false := by
  obtain ⟨entry, hentry⟩ := Heap.exists_of_lt hlt
  simp only [Store.detach, hentry]
  split
  · rename_i hused
    exact ⟨entry, hentry, by simpa using hused⟩
  split
  · exact ⟨_, getElem?_set_self hlt, rfl⟩
  have hset : (s.entries.set ref { entry with entered := false })[ref]? =
      some { entry with entered := false } := getElem?_set_self hlt
  have hlt' : ref < (s.entries.set ref { entry with entered := false }).length := by
    rwa [length_set]
  simp only [detachEntered, hset]
  split
  · exact ⟨_, getElem?_set_self hlt', rfl⟩
  split
  · exact ⟨_, getElem?_set_self hlt', rfl⟩
  · exact ⟨_, getElem?_set_self hlt', rfl⟩

/-! ## The contract -/

/-- A created listener detaches the session and appends to it, and then throws. -/
def vetoedCreation : List Action :=
  [.create ⟨0, "a"⟩, .detach 0, .append ⟨0, "a"⟩, .collected false, .finish false, .finish true,
    .finish false, .enter ⟨1, "a"⟩, .detach 0]

end Store

end SessionStore

end Harness
