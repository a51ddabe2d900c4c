-- SUMMARY: What ties the flags of the store's entries to the open dispatches and the log, and that every step keeps it.
import Harness.SessionStore.Store
import Harness.Lib.Chronicle
import Harness.Lib.Heap

/-!
# The lifecycle of an entry

The flags of an entry say which dispatches are open for it. An entry leaves the store when none
is, and only then is its disposal dispatched.
-/

namespace Harness

open List OrderedMap

namespace SessionStore

/-! ## Frames and log -/

def Frame.ref : Frame → Nat
  | .announce ref _ | .collect ref | .publish ref _ | .dispose ref => ref

/-- The frame is the creation dispatch of this entry. -/
def Frame.announces (ref : Nat) : Frame → Bool
  | .announce ref' _ => decide (ref' = ref)
  | _ => false

def Frame.appends (ref : Nat) : Frame → Bool
  | .collect ref' | .publish ref' _ => decide (ref' = ref)
  | _ => false

def Happening.ref : Happening → Nat
  | .created ref | .published ref _ | .left ref | .disposed ref => ref

/-- What an entry of the log promises about the log before it. -/
def Fits : Happening → List Happening → Prop
  | .created ref, before => .created ref ∉ before ∧ .left ref ∉ before
  | .published ref _, before => .left ref ∉ before
  | .left ref, before => .left ref ∉ before
  | .disposed ref, before =>
    .created ref ∈ before ∧ .left ref ∈ before ∧ .disposed ref ∉ before

variable {frame : Frame} {ref : Nat}

theorem Frame.announces_ref (h : frame.announces ref = true) : frame.ref = ref := by
  cases frame with
  | announce ref' owned => exact of_decide_eq_true h
  | _ => cases h

theorem Frame.appends_ref (h : frame.appends ref = true) : frame.ref = ref := by
  cases frame with
  | collect ref' => exact of_decide_eq_true h
  | publish ref' seq => exact of_decide_eq_true h
  | _ => cases h

/-- A frame of another entry does not count. -/
theorem Frame.announces_ne (h : frame.ref ≠ ref) : frame.announces ref = false :=
  Bool.eq_false_iff.mpr fun hannounces => h (announces_ref hannounces)

theorem Frame.appends_ne (h : frame.ref ≠ ref) : frame.appends ref = false :=
  Bool.eq_false_iff.mpr fun happends => h (appends_ref happends)

namespace Store

variable {s s' : Store} {ref : Nat} {entry entry' : Entry}

/-! ## The invariant -/

/-- The entry is the one that the store has under its id. -/
def Live (s : Store) (ref : Nat) (entry : Entry) : Prop :=
  s.store.get? entry.session.id = some ref

/-- An entry agrees with the stack, the maps and the log. -/
structure Kept (s : Store) (ref : Nat) (entry : Entry) : Prop where
  announcing : s.stack.countP (Frame.announces ref) = entry.announcing.toNat
  appending : s.stack.countP (Frame.appends ref) = entry.appending.toNat
  began : entry.announcing = true → entry.announced = true
  created : .created ref ∈ s.log ↔ entry.announced = true
  requested : entry.detachRequested = true → entry.entered = false
  live : s.Live ref entry ↔ entry.entered = true ∨ entry.detachRequested = true
  quiet : ¬ s.Live ref entry → entry.announcing = false ∧ entry.appending = false
  attached : s.attachments.get? entry.session = some ref ↔ s.Live ref entry
  left : .left ref ∈ s.log ↔ ¬ s.Live ref entry
  disposed : .disposed ref ∈ s.log ↔ entry.announced = true ∧ ¬ s.Live ref entry

structure Inv (s : Store) : Prop where
  lawful : Chronicle.Lawful Fits s.log
  entries : ∀ (ref : Nat) (entry : Entry), s.entries[ref]? = some entry → Kept s ref entry
  stored : ∀ id ref, s.store.get? id = some ref →
    ∃ entry, s.entries[ref]? = some entry ∧ entry.session.id = id
  attachments : ∀ session ref, s.attachments.get? session = some ref →
    ∃ entry, s.entries[ref]? = some entry ∧ entry.session = session
  frames : ∀ frame ∈ s.stack, frame.ref < s.entries.length
  known : ∀ happening ∈ s.log, happening.ref < s.entries.length
  storeKeys : (keys s.store).Nodup
  attachmentKeys : (keys s.attachments).Nodup

/-- A detach that waits, waits for a dispatch that is open. -/
def Deferred (s : Store) : Prop :=
  ∀ (ref : Nat) (entry : Entry), s.entries[ref]? = some entry → entry.detachRequested = true →
    entry.announcing = true ∨ entry.appending = true

theorem inv_init : Inv init :=
  ⟨trivial, nofun, nofun, nofun, nofun, nofun, nodup_nil, nodup_nil⟩

theorem deferred_init : Deferred init := nofun

/-! ## Changes of one entry -/

/-- One entry's flags change, with frames of its own and log entries of its own. -/
theorem Inv.of_entry (h : Inv s) (more : List Happening) (hentry : s.entries[ref]? = some entry)
    (hentries : s'.entries = s.entries.set ref entry') (hsame : entry'.session = entry.session)
    (hstore : s'.store = s.store) (hattachments : s'.attachments = s.attachments)
    (hlog : s'.log = more ++ s.log) (hlawful : Chronicle.Lawful Fits s'.log)
    (hmore : ∀ happening ∈ more, happening.ref = ref)
    (hannounces : ∀ i ≠ ref, s'.stack.countP (Frame.announces i) = s.stack.countP (Frame.announces i))
    (happends : ∀ i ≠ ref, s'.stack.countP (Frame.appends i) = s.stack.countP (Frame.appends i))
    (hframes : ∀ frame ∈ s'.stack, frame ∈ s.stack ∨ frame.ref = ref)
    (hkept : Kept s' ref entry') : Inv s' := by
  have hlt : ref < s.entries.length := Heap.lt_of_get hentry
  have hlength : s'.entries.length = s.entries.length := by rw [hentries, length_set]
  have hfind : ∀ {i : Nat} {old : Entry}, s.entries[i]? = some old →
      ∃ new, s'.entries[i]? = some new ∧ new.session = old.session := by
    intro i old hold
    rw [hentries, getElem?_set]
    by_cases heq : ref = i
    · subst heq
      obtain rfl : entry = old := Option.some.inj (hentry.symm.trans hold)
      exact ⟨entry', by simp [hlt], hsame⟩
    · exact ⟨old, by simp [heq, hold], rfl⟩
  have hmem : ∀ happening : Happening, happening.ref ≠ ref →
      (happening ∈ s'.log ↔ happening ∈ s.log) := by
    intro happening hne
    rw [hlog, mem_append, or_iff_right fun hnew => hne (hmore happening hnew)]
  refine ⟨hlawful, fun i old hget => ?_, fun id i hget => ?_, fun session i hget => ?_,
    fun frame hframe => ?_, fun happening hhappening => ?_, ?_, ?_⟩
  · rw [hentries] at hget
    rcases Heap.set_cases hget with ⟨rfl, rfl⟩ | ⟨hne, hget⟩
    · exact hkept
    have hold := h.entries i old hget
    have hlive : s'.Live i old ↔ s.Live i old := by rw [Live, Live, hstore]
    refine ⟨(hannounces i hne).trans hold.announcing, (happends i hne).trans hold.appending,
      hold.began, (hmem (.created i) hne).trans hold.created, hold.requested, hlive.trans hold.live,
      fun hnot => hold.quiet (mt hlive.mpr hnot), ?_, ?_, ?_⟩
    · rw [hattachments, hlive]
      exact hold.attached
    · rw [hlive]
      exact (hmem (.left i) hne).trans hold.left
    · rw [hlive]
      exact (hmem (.disposed i) hne).trans hold.disposed
  · rw [hstore] at hget
    obtain ⟨old, hold, hid⟩ := h.stored id i hget
    obtain ⟨new, hnew, hsession⟩ := hfind hold
    exact ⟨new, hnew, hsession ▸ hid⟩
  · rw [hattachments] at hget
    obtain ⟨old, hold, hid⟩ := h.attachments session i hget
    obtain ⟨new, hnew, hsession⟩ := hfind hold
    exact ⟨new, hnew, hsession.trans hid⟩
  · rw [hlength]
    rcases hframes frame hframe with hold | hnew
    · exact h.frames frame hold
    · exact hnew ▸ hlt
  · rw [hlength]
    rw [hlog] at hhappening
    rcases mem_append.mp hhappening with hnew | hold
    · exact hmore happening hnew ▸ hlt
    · exact h.known happening hold
  · rw [hstore]
    exact h.storeKeys
  · rw [hattachments]
    exact h.attachmentKeys

variable {frame : Frame}

/-- A frame of the entry is pushed. -/
theorem countP_push {p : Frame → Bool} {stack : List Frame}
    (h : p frame = false) : (frame :: stack).countP p = stack.countP p :=
  countP_cons_of_neg (by simp [h])

theorem mem_other {happening happening' : Happening} {log : List Happening}
    (h : happening ≠ happening') : happening ∈ happening' :: log ↔ happening ∈ log := by
  rw [mem_cons, or_iff_right h]

/-! ## Entering -/

theorem Inv.enter (h : Inv s) (session : SessionObject) : Inv (s.enter session).2 := by
  unfold Store.enter
  split
  · exact h
  rename_i hfree
  split
  · exact h
  rename_i hunattached
  have hfree : s.store.get? session.id = none := by simpa using hfree
  have hunattached : s.attachments.get? session = none := by simpa using hunattached
  have hnew : ∀ {i : Nat}, i = s.entries.length → ∀ happening : Happening, happening.ref = i →
      happening ∉ s.log := by
    rintro i rfl happening href hmem
    exact absurd (href ▸ h.known happening hmem) (Nat.lt_irrefl _)
  have hnoframe : ∀ frame ∈ s.stack, frame.ref ≠ s.entries.length :=
    fun frame hframe => Nat.ne_of_lt (h.frames frame hframe)
  refine ⟨h.lawful, fun i old hget => ?_, fun id i hget => ?_, fun other i hget => ?_,
    fun frame hframe => ?_, fun happening hhappening => ?_, ?_, ?_⟩
  · rcases Heap.append_cases hget with ⟨rfl, rfl⟩ | ⟨hlt, hget⟩
    · have hlive : (s.store.set session.id s.entries.length).get? session.id =
          some s.entries.length := by
        rw [get?_set, if_pos rfl]
      have hattached : (s.attachments.set session s.entries.length).get? session =
          some s.entries.length := by
        rw [get?_set, if_pos rfl]
      refine ⟨?_, ?_, by simp, ?_, by simp, ⟨fun _ => .inl rfl, fun _ => hlive⟩,
        fun hnot => absurd hlive hnot, ⟨fun _ => hlive, fun _ => hattached⟩, ?_, ?_⟩
      · exact countP_eq_zero.mpr fun frame hframe =>
          Bool.eq_false_iff.mp (Frame.announces_ne (hnoframe frame hframe))
      · exact countP_eq_zero.mpr fun frame hframe =>
          Bool.eq_false_iff.mp (Frame.appends_ne (hnoframe frame hframe))
      · exact ⟨fun hmem => absurd hmem (hnew rfl (.created _) rfl), by simp⟩
      · exact ⟨fun hmem => absurd hmem (hnew rfl (.left _) rfl), fun hnot => absurd hlive hnot⟩
      · exact ⟨fun hmem => absurd hmem (hnew rfl (.disposed _) rfl),
          fun hannounced => absurd hannounced.1 Bool.false_ne_true⟩
    · have hold := h.entries i old hget
      -- the id was free, so no older entry of this id is live before or after
      have hlive : (s.store.set session.id s.entries.length).get? old.session.id = some i ↔
          s.store.get? old.session.id = some i := by
        rw [get?_set]
        split
        · rename_i hid
          rw [hid, hfree]
          simp [Nat.ne_of_gt hlt]
        · exact Iff.rfl
      have hattached : (s.attachments.set session s.entries.length).get? old.session = some i ↔
          s.attachments.get? old.session = some i := by
        rw [get?_set]
        split
        · rename_i hsession
          rw [hsession, hunattached]
          simp [Nat.ne_of_gt hlt]
        · exact Iff.rfl
      exact ⟨hold.announcing, hold.appending, hold.began, hold.created, hold.requested,
        hlive.trans hold.live, fun hnot => hold.quiet (mt hlive.mpr hnot),
        hattached.trans (hold.attached.trans hlive.symm), hold.left.trans (not_congr hlive.symm),
        hold.disposed.trans (and_congr_right fun _ => not_congr hlive.symm)⟩
  · have hget : (s.store.set session.id s.entries.length).get? id = some i := hget
    rw [get?_set] at hget
    split at hget
    · rename_i hid
      cases hget
      exact ⟨_, getElem?_concat_length, hid.symm⟩
    · obtain ⟨old, hold, hid⟩ := h.stored id i hget
      exact ⟨old, (getElem?_append_left (Heap.lt_of_get hold)).trans hold, hid⟩
  · have hget : (s.attachments.set session s.entries.length).get? other = some i := hget
    rw [get?_set] at hget
    split at hget
    · rename_i hsession
      cases hget
      exact ⟨_, getElem?_concat_length, hsession.symm⟩
    · obtain ⟨old, hold, hid⟩ := h.attachments other i hget
      exact ⟨old, (getElem?_append_left (Heap.lt_of_get hold)).trans hold, hid⟩
  · exact (h.frames frame hframe).trans (by simp)
  · exact (h.known happening hhappening).trans (by simp)
  · show (keys (s.store.set session.id s.entries.length)).Nodup
    rw [keys_set]
    split
    · exact h.storeKeys
    · rename_i hnot
      exact List.Nodup.append h.storeKeys (nodup_singleton _) (by simpa using hnot)
  · show (keys (s.attachments.set session s.entries.length)).Nodup
    rw [keys_set]
    split
    · exact h.attachmentKeys
    · rename_i hnot
      exact List.Nodup.append h.attachmentKeys (nodup_singleton _) (by simpa using hnot)

/-! ## Dispatches begin and end -/

/-- A detach is put off. -/
theorem Inv.request (h : Inv s) (hentry : s.entries[ref]? = some entry)
    (hentered : entry.entered = true) :
    Inv { s with entries := s.entries.set ref { entry with entered := false, detachRequested := true } } := by
  have hold := h.entries ref entry hentry
  have hlive : s.Live ref entry := hold.live.mpr (.inl hentered)
  exact h.of_entry [] hentry rfl rfl rfl rfl rfl h.lawful nofun (fun _ _ => rfl) (fun _ _ => rfl)
    (fun _ => .inl) { hold with
      requested := fun _ => rfl
      live := ⟨fun _ => .inr rfl, fun _ => hlive⟩ }

theorem Inv.announced (h : Inv s) {owned : Bool} (hentry : s.entries[ref]? = some entry)
    (hlive : s.Live ref entry) (hfirst : entry.announced = false) :
    Inv { s with
      entries := s.entries.set ref { entry with announced := true, announcing := true }
      stack := .announce ref owned :: s.stack
      log := .created ref :: s.log } := by
  have hold := h.entries ref entry hentry
  have hidle : entry.announcing = false := by
    refine Bool.eq_false_iff.mpr fun hannouncing => ?_
    rw [hold.began hannouncing] at hfirst
    cases hfirst
  have huncreated : .created ref ∉ s.log := by
    rw [hold.created, hfirst]
    exact Bool.false_ne_true
  have hunleft : .left ref ∉ s.log := fun hmem => hold.left.mp hmem hlive
  refine h.of_entry [.created ref] hentry rfl rfl rfl rfl rfl ⟨⟨huncreated, hunleft⟩, h.lawful⟩
    (by simp [Happening.ref]) (fun i hne => countP_push (Frame.announces_ne hne.symm))
    (fun i hne => countP_push (Frame.appends_ne hne.symm)) ?_ ?_
  · intro frame hframe
    rcases mem_cons.mp hframe with rfl | hframe
    · exact .inr rfl
    · exact .inl hframe
  refine ⟨?_, hold.appending, fun _ => rfl, by simp, hold.requested, hold.live,
    fun hnot => absurd hlive hnot, hold.attached, ?_, ?_⟩
  · have hcount := hold.announcing
    rw [hidle] at hcount
    show (Frame.announce ref owned :: s.stack).countP (Frame.announces ref) = 1
    rw [countP_cons_of_pos (by simp [Frame.announces]), hcount]
    rfl
  · exact (mem_other (by simp)).trans hold.left
  · have hundisposed : .disposed ref ∉ s.log := fun hmem => (hold.disposed.mp hmem).2 hlive
    exact (mem_other (by simp)).trans ⟨fun hmem => absurd hmem hundisposed,
      fun hgone => absurd hlive hgone.2⟩

/-- The guard of an append closes. -/
theorem Inv.appending (h : Inv s) (hentry : s.entries[ref]? = some entry)
    (hlive : s.Live ref entry) (hidle : entry.appending = false) :
    Inv { s with
      entries := s.entries.set ref { entry with appending := true }
      stack := .collect ref :: s.stack } := by
  have hold := h.entries ref entry hentry
  refine h.of_entry [] hentry rfl rfl rfl rfl rfl h.lawful nofun
    (fun i hne => countP_push (Frame.announces_ne hne.symm))
    (fun i hne => countP_push (Frame.appends_ne hne.symm)) ?_ ?_
  · intro frame hframe
    rcases mem_cons.mp hframe with rfl | hframe
    · exact .inr rfl
    · exact .inl hframe
  · refine { hold with appending := ?_, quiet := fun hnot => absurd hlive hnot }
    have hcount := hold.appending
    rw [hidle] at hcount
    show (Frame.collect ref :: s.stack).countP (Frame.appends ref) = 1
    rw [countP_cons_of_pos (by simp [Frame.appends]), hcount]
    rfl

theorem Inv.live_of_appends (h : Inv s) (hentry : s.entries[ref]? = some entry)
    (hframe : frame ∈ s.stack) (happends : frame.appends ref = true) :
    entry.appending = true ∧ s.Live ref entry := by
  have hold := h.entries ref entry hentry
  have happending : entry.appending = true := by
    by_contra hnot
    have hcount := hold.appending
    rw [Bool.eq_false_iff.mpr hnot] at hcount
    exact countP_eq_zero.mp hcount frame hframe happends
  refine ⟨happending, ?_⟩
  by_contra hnot
  exact Bool.false_ne_true ((hold.quiet hnot).2.symm.trans happending)

theorem Inv.live_of_announces (h : Inv s) (hentry : s.entries[ref]? = some entry)
    (hframe : frame ∈ s.stack) (hannounces : frame.announces ref = true) :
    entry.announcing = true ∧ s.Live ref entry := by
  have hold := h.entries ref entry hentry
  have hannouncing : entry.announcing = true := by
    by_contra hnot
    have hcount := hold.announcing
    rw [Bool.eq_false_iff.mpr hnot] at hcount
    exact countP_eq_zero.mp hcount frame hframe hannounces
  refine ⟨hannouncing, ?_⟩
  by_contra hnot
  exact Bool.false_ne_true ((hold.quiet hnot).1.symm.trans hannouncing)

variable {rest : List Frame}

/-- Collecting is over, and the event is published. -/
theorem Inv.published (h : Inv s) {seq : Nat}
    {lengths : OrderedMap SessionObject Nat} (hentry : s.entries[ref]? = some entry)
    (hstack : s.stack = .collect ref :: rest) :
    Inv { s with
      lengths
      stack := .publish ref seq :: rest
      log := .published ref seq :: s.log } := by
  have hold := h.entries ref entry hentry
  obtain ⟨-, hlive⟩ := @Inv.live_of_appends s ref entry (.collect ref) h hentry
    (by rw [hstack]; exact mem_cons_self) (by simp [Frame.appends])
  have hunleft : .left ref ∉ s.log := fun hmem => hold.left.mp hmem hlive
  refine h.of_entry [.published ref seq] hentry (Heap.set_same hentry).symm rfl rfl rfl rfl
    ⟨hunleft, h.lawful⟩ (by simp [Happening.ref]) (fun i _ => ?_) (fun i _ => ?_) ?_ ?_
  · rw [hstack]
    rfl
  · rw [hstack]
    rfl
  · intro frame hframe
    rcases mem_cons.mp hframe with rfl | hframe
    · exact .inr rfl
    · exact .inl (by rw [hstack]; exact mem_cons_of_mem _ hframe)
  · have hannouncing := hold.announcing
    have happending := hold.appending
    rw [hstack] at hannouncing happending
    refine ⟨hannouncing, happending, hold.began, ?_, hold.requested, hold.live, hold.quiet,
      hold.attached, ?_, ?_⟩
    · exact (mem_other (by simp)).trans hold.created
    · exact (mem_other (by simp)).trans hold.left
    · exact (mem_other (by simp)).trans hold.disposed

/-- The innermost dispatch is an append that ends. -/
theorem Inv.appended (h : Inv s)
    (hentry : s.entries[ref]? = some entry) (hstack : s.stack = frame :: rest)
    (happends : frame.appends ref = true) :
    Inv { s with stack := rest, entries := s.entries.set ref { entry with appending := false } } := by
  have hold := h.entries ref entry hentry
  have href : frame.ref = ref := Frame.appends_ref happends
  obtain ⟨happending, hlive⟩ := h.live_of_appends hentry
    (by rw [hstack]; exact mem_cons_self) happends
  have hnot : frame.announces ref = false := by cases frame <;> simp_all [Frame.announces, Frame.appends]
  refine h.of_entry [] hentry rfl rfl rfl rfl rfl h.lawful nofun (fun i hne => ?_) (fun i hne => ?_)
    (fun frame' hframe' => .inl (by rw [hstack]; exact mem_cons_of_mem _ hframe')) ?_
  · rw [hstack, countP_push (Frame.announces_ne (href ▸ hne.symm))]
  · rw [hstack, countP_push (Frame.appends_ne (href ▸ hne.symm))]
  refine { hold with announcing := ?_, appending := ?_, quiet := fun hnot => absurd hlive hnot }
  · have hcount := hold.announcing
    rwa [hstack, countP_push hnot] at hcount
  have hcount := hold.appending
  rw [hstack, countP_cons_of_pos happends, happending] at hcount
  exact Nat.succ.inj hcount

/-- The innermost dispatch is an announcement that ends. -/
theorem Inv.announceEnds (h : Inv s)
    (hentry : s.entries[ref]? = some entry) (hstack : s.stack = frame :: rest)
    (hannounces : frame.announces ref = true) :
    Inv { s with stack := rest, entries := s.entries.set ref { entry with announcing := false } } := by
  have hold := h.entries ref entry hentry
  have href : frame.ref = ref := Frame.announces_ref hannounces
  obtain ⟨hannouncing, hlive⟩ := h.live_of_announces hentry
    (by rw [hstack]; exact mem_cons_self) hannounces
  have hnot : frame.appends ref = false := by cases frame <;> simp_all [Frame.announces, Frame.appends]
  refine h.of_entry [] hentry rfl rfl rfl rfl rfl h.lawful nofun (fun i hne => ?_) (fun i hne => ?_)
    (fun frame' hframe' => .inl (by rw [hstack]; exact mem_cons_of_mem _ hframe')) ?_
  · rw [hstack, countP_push (Frame.announces_ne (href ▸ hne.symm))]
  · rw [hstack, countP_push (Frame.appends_ne (href ▸ hne.symm))]
  refine ⟨?_, ?_, nofun, hold.created, hold.requested, hold.live,
    fun hnot => absurd hlive hnot, hold.attached, hold.left, hold.disposed⟩
  · have hcount := hold.announcing
    rw [hstack, countP_cons_of_pos hannounces, hannouncing] at hcount
    exact Nat.succ.inj hcount
  · have hcount := hold.appending
    rwa [hstack, countP_push hnot] at hcount

/-- A disposal dispatch ends. -/
theorem Inv.disposeEnds (h : Inv s) (hstack : s.stack = .dispose ref :: rest) :
    Inv { s with stack := rest } := by
  refine { h with entries := fun i old hget => ?_, frames := fun frame hframe => ?_ }
  · have hold := h.entries i old hget
    have hannouncing := hold.announcing
    have happending := hold.appending
    rw [hstack] at hannouncing happending
    exact { hold with announcing := hannouncing, appending := happending }
  · exact h.frames frame (by rw [hstack]; exact mem_cons_of_mem _ hframe)

/-- Only lengths change. -/
theorem Inv.push (h : Inv s) (session : SessionObject) : Inv (s.push session) := by
  refine { h with entries := fun i old hget => ?_ }
  have hold := h.entries i old hget
  exact { hold with }

/-! ## Leaving -/

/-- The store once a live entry with no open dispatch has left it. -/
def leave (s : Store) (ref : Nat) (entry : Entry) : Store :=
  { s with
    entries := s.entries.set ref { entry with detachRequested := false, entered := false }
    store := s.store.delete entry.session.id
    attachments := s.attachments.delete entry.session
    log := if entry.announced then .disposed ref :: .left ref :: s.log else .left ref :: s.log
    stack := if entry.announced then .dispose ref :: s.stack else s.stack }

theorem detachEntered_live (hentry : s.entries[ref]? = some entry) (hlive : s.Live ref entry)
    (hused : entry.entered = false) : s.detachEntered ref = s.leave ref entry := by
  have hlive : s.store.get? entry.session.id = some ref := hlive
  have hentry' : ({ entry with detachRequested := false } : Entry) =
      { entry with detachRequested := false, entered := false } := by rw [← hused]
  simp only [detachEntered, hentry, hlive, ne_eq, not_true_eq_false, if_false, hentry', leave]
  split <;> rfl

theorem leave_set :
    Store.leave { s with entries := s.entries.set ref { entry with entered := false } } ref
      { entry with entered := false } = s.leave ref entry := by
  simp only [leave, set_set]

theorem Inv.leave (h : Inv s) (hentry : s.entries[ref]? = some entry) (hlive : s.Live ref entry)
    (hannouncing : entry.announcing = false) (happending : entry.appending = false) :
    Inv (s.leave ref entry) := by
  have hold := h.entries ref entry hentry
  have hlt : ref < s.entries.length := Heap.lt_of_get hentry
  have hlive : s.store.get? entry.session.id = some ref := hlive
  have hattached : s.attachments.get? entry.session = some ref := hold.attached.mpr hlive
  have hunleft : .left ref ∉ s.log := fun hmem => hold.left.mp hmem hlive
  have hundisposed : .disposed ref ∉ s.log := fun hmem => (hold.disposed.mp hmem).2 hlive
  have hgone : (s.store.delete entry.session.id).get? entry.session.id = none := by
    rw [get?_delete, if_pos rfl]
  have hfree : (s.attachments.delete entry.session).get? entry.session = none := by
    rw [get?_delete, if_pos rfl]
  have hmem : ∀ happening : Happening, happening ∈ (s.leave ref entry).log ↔
      (happening = .disposed ref ∧ entry.announced = true) ∨ happening = .left ref ∨
        happening ∈ s.log := by
    intro happening
    unfold Store.leave
    cases entry.announced <;> simp
  have hstack : ∀ p : Frame → Bool, p (.dispose ref) = false →
      (s.leave ref entry).stack.countP p = s.stack.countP p := by
    intro p hp
    unfold Store.leave
    dsimp only
    split
    · exact countP_push hp
    · rfl
  have hfind : ∀ {i : Nat} {old : Entry}, s.entries[i]? = some old →
      ∃ new, (s.leave ref entry).entries[i]? = some new ∧ new.session = old.session := by
    intro i old hold
    show ∃ new, (s.entries.set ref _)[i]? = some new ∧ _
    rw [getElem?_set]
    by_cases heq : ref = i
    · subst heq
      obtain rfl : entry = old := Option.some.inj (hentry.symm.trans hold)
      exact ⟨{ entry with detachRequested := false, entered := false }, by simp [hlt], rfl⟩
    · exact ⟨old, by simp [heq, hold], rfl⟩
  refine ⟨?_, fun i old hget => ?_, fun id i hget => ?_, fun session i hget => ?_,
    fun frame hframe => ?_, fun happening hhappening => ?_, ?_, ?_⟩
  · cases hannounced : entry.announced with
    | false =>
      simp only [Store.leave, hannounced, Bool.false_eq_true, if_false]
      exact ⟨hunleft, h.lawful⟩
    | true =>
      simp only [Store.leave, hannounced, if_true]
      refine ⟨⟨mem_cons_of_mem _ (hold.created.mpr hannounced), mem_cons_self, ?_⟩,
        hunleft, h.lawful⟩
      simpa using hundisposed
  · rcases Heap.set_cases hget with ⟨rfl, rfl⟩ | ⟨hne, hget⟩
    · have hdead : ¬ (s.leave i entry).Live i { entry with detachRequested := false, entered := false } :=
        fun hlive => Option.some_ne_none _ (hlive.symm.trans hgone)
      refine ⟨(hstack _ rfl).trans hold.announcing, (hstack _ rfl).trans hold.appending, hold.began,
        ?_, nofun, ⟨fun hlive => absurd hlive hdead, ?_⟩, fun _ => ⟨hannouncing, happending⟩,
        ⟨fun hget => absurd (hget.symm.trans hfree) (Option.some_ne_none _),
          fun hlive => absurd hlive hdead⟩, ?_, ?_⟩
      · rw [hmem]
        simpa using hold.created
      · intro hcase
        rcases hcase with hcase | hcase <;> cases hcase
      · rw [hmem]
        exact ⟨fun _ => hdead, fun _ => .inr (.inl rfl)⟩
      · rw [hmem]
        simp [hundisposed, hdead]
    · have hother := h.entries i old hget
      have hlive' : (s.leave ref entry).Live i old ↔ s.Live i old := by
        show (s.store.delete entry.session.id).get? old.session.id = some i ↔ _
        rw [get?_delete]
        split
        · rename_i hid
          rw [Live, hid, hlive]
          simp [Ne.symm hne]
        · exact Iff.rfl
      have hattached' : (s.leave ref entry).attachments.get? old.session = some i ↔
          s.attachments.get? old.session = some i := by
        show (s.attachments.delete entry.session).get? old.session = some i ↔ _
        rw [get?_delete]
        split
        · rename_i hsession
          rw [hsession, hattached]
          simp [Ne.symm hne]
        · exact Iff.rfl
      refine ⟨(hstack _ rfl).trans hother.announcing, (hstack _ rfl).trans hother.appending,
        hother.began, ?_, hother.requested, hlive'.trans hother.live,
        fun hnot => hother.quiet (mt hlive'.mpr hnot),
        hattached'.trans (hother.attached.trans hlive'.symm), ?_, ?_⟩
      · rw [hmem]
        simpa using hother.created
      · rw [hmem, hlive']
        simpa [hne] using hother.left
      · rw [hmem, hlive']
        simpa [hne] using hother.disposed
  · have hget : (s.store.delete entry.session.id).get? id = some i := hget
    rw [get?_delete] at hget
    split at hget
    · cases hget
    obtain ⟨old, hold, hid⟩ := h.stored id i hget
    obtain ⟨new, hnew, hsession⟩ := hfind hold
    exact ⟨new, hnew, hsession ▸ hid⟩
  · have hget : (s.attachments.delete entry.session).get? session = some i := hget
    rw [get?_delete] at hget
    split at hget
    · cases hget
    obtain ⟨old, hold, hid⟩ := h.attachments session i hget
    obtain ⟨new, hnew, hsession⟩ := hfind hold
    exact ⟨new, hnew, hsession.trans hid⟩
  · have hlength : (s.leave ref entry).entries.length = s.entries.length := length_set
    rw [hlength]
    have hcases : frame = .dispose ref ∨ frame ∈ s.stack := by
      have hframe : frame ∈ if entry.announced then .dispose ref :: s.stack else s.stack := hframe
      split at hframe
      · exact mem_cons.mp hframe
      · exact .inr hframe
    rcases hcases with rfl | hframe
    · exact hlt
    · exact h.frames frame hframe
  · have hlength : (s.leave ref entry).entries.length = s.entries.length := length_set
    rw [hlength]
    rcases (hmem happening).mp hhappening with ⟨rfl, -⟩ | rfl | hhappening
    · exact hlt
    · exact hlt
    · exact h.known happening hhappening
  · show (keys (s.store.delete entry.session.id)).Nodup
    rw [keys_delete]
    exact h.storeKeys.filter _
  · show (keys (s.attachments.delete entry.session)).Nodup
    rw [keys_delete]
    exact h.attachmentKeys.filter _

/-! ## Steps -/

/-- The invariant, and no detach that waits for nothing. -/
structure Settled (s : Store) : Prop where
  inv : Inv s
  deferred : Deferred s

/-- Only one entry changed. -/
theorem deferred_of_set (h : ∀ (i : Nat) (old : Entry), i ≠ ref → s.entries[i]? = some old →
      old.detachRequested = true → old.announcing = true ∨ old.appending = true)
    (hentries : s'.entries = s.entries.set ref entry')
    (hentry' : entry'.detachRequested = true → entry'.announcing = true ∨ entry'.appending = true) :
    Deferred s' := by
  intro i old hget hrequested
  rw [hentries] at hget
  rcases Heap.set_cases hget with ⟨rfl, rfl⟩ | ⟨hne, hget⟩
  · exact hentry' hrequested
  · exact h i old hne hget hrequested

theorem Deferred.others (h : Deferred s) (ref : Nat) (i : Nat) (old : Entry) (_ : i ≠ ref)
    (hget : s.entries[i]? = some old) (hrequested : old.detachRequested = true) :
    old.announcing = true ∨ old.appending = true :=
  h i old hget hrequested

theorem Settled.detach (h : Settled s) (ref : Nat) : Settled (s.detach ref) := by
  unfold Store.detach
  cases hentry : s.entries[ref]? with
  | none => exact h
  | some entry =>
    have hold := h.inv.entries ref entry hentry
    dsimp only
    split
    · exact h
    rename_i hentered
    have hentered : entry.entered = true := by simpa using hentered
    have hlive : s.Live ref entry := hold.live.mpr (.inl hentered)
    split
    · rename_i hopen
      refine ⟨h.inv.request hentry hentered, deferred_of_set (h.deferred.others ref) rfl fun _ => ?_⟩
      exact (Bool.or_eq_true _ _).mp hopen
    rename_i hopen
    simp only [Bool.or_eq_true, not_or, Bool.not_eq_true] at hopen
    have hset : ({ s with entries := s.entries.set ref { entry with entered := false } } :
        Store).entries[ref]? = some { entry with entered := false } :=
      getElem?_set_self (Heap.lt_of_get hentry)
    rw [detachEntered_live hset hlive rfl, leave_set]
    exact ⟨h.inv.leave hentry hlive hopen.1 hopen.2,
      deferred_of_set (h.deferred.others ref) rfl nofun⟩

/-- A dispatch of an entry has ended, and a detach that waited for it goes ahead. -/
theorem Settled.finish (h : Inv s) (hentry : s.entries[ref]? = some entry)
    (hothers : ∀ (i : Nat) (old : Entry), i ≠ ref → s.entries[i]? = some old →
      old.detachRequested = true → old.announcing = true ∨ old.appending = true) :
    Settled (if entry.detachRequested && !(entry.announcing || entry.appending) then
      s.detachEntered ref else s) := by
  have hold := h.entries ref entry hentry
  split
  · rename_i hready
    simp only [Bool.and_eq_true, Bool.not_eq_true', Bool.or_eq_false_iff] at hready
    obtain ⟨hrequested, hannouncing, happending⟩ := hready
    have hlive : s.Live ref entry := hold.live.mpr (.inr hrequested)
    rw [detachEntered_live hentry hlive (hold.requested hrequested)]
    exact ⟨h.leave hentry hlive hannouncing happending, deferred_of_set hothers rfl nofun⟩
  · rename_i hready
    refine ⟨h, deferred_of_set hothers (Heap.set_same hentry).symm fun hrequested => ?_⟩
    by_contra hnot
    rw [not_or, Bool.not_eq_true, Bool.not_eq_true] at hnot
    simp [hrequested, hnot.1, hnot.2] at hready

theorem Settled.finishAppend (h : Settled s)
    (hstack : s.stack = frame :: rest) (happends : frame.appends ref = true) :
    Settled (({ s with stack := rest } : Store).finishAppend ref) := by
  have hlt : ref < s.entries.length := Frame.appends_ref happends ▸
    h.inv.frames frame (by rw [hstack]; exact mem_cons_self)
  obtain ⟨entry, hentry⟩ := Heap.exists_of_lt hlt
  have hinv := h.inv.appended hentry hstack happends
  have hset : (s.entries.set ref { entry with appending := false })[ref]? =
      some { entry with appending := false } := getElem?_set_self hlt
  have hfinish := Settled.finish hinv hset fun i old hne hget => by
    rcases Heap.set_cases hget with ⟨heq, -⟩ | ⟨-, hget⟩
    · exact absurd heq hne
    · exact h.deferred i old hget
  unfold Store.finishAppend
  simpa [hentry] using hfinish

theorem Settled.finishAnnounce (h : Settled s) {owned threw : Bool}
    (hstack : s.stack = .announce ref owned :: rest) :
    Settled (({ s with stack := rest } : Store).finishAnnounce ref owned threw) := by
  have hannounces : (Frame.announce ref owned).announces ref = true := by simp [Frame.announces]
  have hlt : ref < s.entries.length :=
    h.inv.frames (.announce ref owned) (by rw [hstack]; exact mem_cons_self)
  obtain ⟨entry, hentry⟩ := Heap.exists_of_lt hlt
  have hinv := h.inv.announceEnds hentry hstack hannounces
  have hset : (s.entries.set ref { entry with announcing := false })[ref]? =
      some { entry with announcing := false } := getElem?_set_self hlt
  have hfinish := Settled.finish hinv hset fun i old hne hget => by
    rcases Heap.set_cases hget with ⟨heq, -⟩ | ⟨-, hget⟩
    · exact absurd heq hne
    · exact h.deferred i old hget
  unfold Store.finishAnnounce
  simp only [hentry]
  simp only [Bool.false_or] at hfinish
  split
  · exact hfinish.detach ref
  · exact hfinish

theorem Settled.enter (h : Settled s) (session : SessionObject) : Settled (s.enter session).2 := by
  refine ⟨h.inv.enter session, ?_⟩
  unfold Store.enter
  split
  · exact h.deferred
  split
  · exact h.deferred
  intro i old hget hrequested
  rcases Heap.append_cases hget with ⟨-, rfl⟩ | ⟨-, hget⟩
  · cases hrequested
  · exact h.deferred i old hget hrequested

theorem liveEntryFor_live {session : SessionObject} (h : s.liveEntryFor session = .ok (ref, entry)) :
    s.entries[ref]? = some entry ∧ s.Live ref entry := by
  unfold liveEntryFor at h
  split at h
  · cases h
  split at h
  · cases h
  rename_i hentry
  split at h
  · rename_i hlive
    cases h
    exact ⟨hentry, hlive⟩
  · cases h

theorem Settled.beginAnnounce (h : Settled s) (session : SessionObject) (owned : Bool) :
    Settled (s.beginAnnounce session owned).2 := by
  unfold Store.beginAnnounce
  cases hfound : s.liveEntryFor session with
  | error e => exact h
  | ok found =>
    obtain ⟨ref, entry⟩ := found
    obtain ⟨hentry, hlive⟩ := liveEntryFor_live hfound
    dsimp only
    split
    · exact h
    rename_i hfirst
    simp only [Bool.or_eq_true, not_or, Bool.not_eq_true] at hfirst
    exact ⟨h.inv.announced hentry hlive hfirst.1,
      deferred_of_set (h.deferred.others ref) rfl fun _ => .inl rfl⟩

theorem Settled.create (h : Settled s) (session : SessionObject) : Settled (s.create session).2 := by
  unfold Store.create
  have hentered := h.enter session
  split
  · rename_i heq
    rw [heq] at hentered
    exact hentered
  · rename_i heq
    rw [heq] at hentered
    exact hentered.beginAnnounce session true

theorem Settled.append (h : Settled s) (session : SessionObject) : Settled (s.append session).2 := by
  unfold Store.append
  cases hattached : s.attachments.get? session with
  | none => exact ⟨h.inv.push session, h.deferred⟩
  | some ref =>
    obtain ⟨entry, hentry, hsession⟩ := h.inv.attachments session ref hattached
    simp only [hentry]
    split
    · exact h
    rename_i hidle
    have hlive : s.Live ref entry := by
      rw [← (h.inv.entries ref entry hentry).attached, hsession]
      exact hattached
    exact ⟨h.inv.appending hentry hlive (Bool.eq_false_iff.mpr hidle),
      deferred_of_set (h.deferred.others ref) rfl fun _ => .inr rfl⟩

theorem Settled.publish (h : Settled s) (hstack : s.stack = .collect ref :: rest) :
    Settled (s.publish ref rest) := by
  have hlt : ref < s.entries.length :=
    h.inv.frames (.collect ref) (by rw [hstack]; exact mem_cons_self)
  obtain ⟨entry, hentry⟩ := Heap.exists_of_lt hlt
  unfold Store.publish
  rw [hentry]
  exact ⟨h.inv.published hentry hstack, h.deferred⟩

theorem Settled.step (h : Settled s) {act : Action} (hstep : s.step act = some s') : Settled s' := by
  cases act with
  | enter session =>
    cases hstep
    exact h.enter session
  | create session =>
    cases hstep
    exact h.create session
  | detach ref =>
    cases hstep
    exact h.detach ref
  | announce session =>
    cases hstep
    exact h.beginAnnounce session false
  | append session =>
    cases hstep
    exact h.append session
  | collected vetoed =>
    dsimp only [Store.step] at hstep
    split at hstep
    · rename_i ref rest hstack
      split at hstep
      · cases hstep
        exact h.finishAppend hstack (by simp [Frame.appends])
      · cases hstep
        exact h.publish hstack
    · cases hstep
  | finish threw =>
    dsimp only [Store.step] at hstep
    split at hstep
    · rename_i ref owned rest hstack
      cases hstep
      exact h.finishAnnounce hstack
    · rename_i ref seq rest hstack
      cases hstep
      exact h.finishAppend hstack (by simp [Frame.appends])
    · rename_i ref rest hstack
      cases hstep
      exact ⟨h.inv.disposeEnds hstack, h.deferred⟩
    · cases hstep

theorem reachable_settled {acts : List Action}
    (hrun : Transitions.run Store.step init acts = some s) : Settled s :=
  Transitions.run_invariant' (fun _ _ _ h hstep => Settled.step h hstep)
    ⟨inv_init, deferred_init⟩ hrun

end Store

end SessionStore

end Harness
