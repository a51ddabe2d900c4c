-- SUMMARY: Exactly when the settlement watcher of a continuable child never sleeps through the child's settlement.
import Harness.Subagent.Activation

/-!
# No lost wake-up

The watcher sleeps on the poke it sampled. Whatever takes away the last accepted message or the
last owned child pokes it; the end of a turn does not. So all depends on the two looks at the
agent, inside the lock and behind it.
-/

namespace Harness

def Watcher.sampled : Watcher → Option Nat
  | .racing poked _ | .raced poked | .locking poked | .decided poked _ | .blocked poked =>
    some poked
  | .disposing | .returned => none

namespace Activation

/-! ## What is wanted -/

/-- No disposal has begun, and the child is idle with nothing accepted and nothing owned. -/
structure Settleable (a : Activation) : Prop where
  resident : a.disposal = false
  idle : a.agent.status = .idle
  unclaimed : a.accepted = []
  childless : a.ownedChildren = []

/-- The watcher is still going to look at the state. -/
def Watching (a : Activation) : Prop :=
  match a.watcher with
  | .blocked poked => a.isPoked poked = true
  | .locking _ => .watcher ∈ a.lock
  | .disposing | .returned => False
  | _ => True

/-- An agent that the look in the lock saw running and that is idle at the look behind it was
poked since the watcher sampled, or has accepted messages or owned children. -/
def StatusHolds (a : Activation) : ActivationAction → Prop
  | .lookAgain => ∀ poked, a.watcher = .decided poked false → a.lookedAt = .running →
    a.agent.status = .idle → a.isPoked poked = true ∨ a.accepted ≠ [] ∨ a.ownedChildren ≠ []
  | _ => True

/-! ## The invariant -/

/-- The poke that the watcher has sampled. -/
def sampled (a : Activation) : Option Nat := a.watcher.sampled

/-- Something will poke the watcher: a message that has yet to leave or a child that has yet to
be released. -/
def Awaited (a : Activation) : Prop := a.accepted ≠ [] ∨ a.ownedChildren ≠ []

structure Inv (a : Activation) : Prop where
  sampled : ∀ poked, a.sampled = some poked → poked ≤ a.poke
  closed : a.disposal = true → ∀ poked, a.sampled = some poked → poked < a.poke
  resident : a.disposal = false →
    a.watcher ≠ .disposing ∧ a.watcher ≠ .returned ∧ ∀ poked, a.watcher ≠ .decided poked true
  blocked : ∀ poked, a.watcher = .blocked poked → a.isPoked poked = false → a.Awaited
  decided : ∀ poked, a.watcher = .decided poked false → a.isPoked poked = false →
    a.lookedAt = .running ∨ a.Awaited
  queued : ∀ poked, a.watcher = .locking poked → .watcher ∈ a.lock

theorem Inv.watching {a : Activation} (h : a.Inv) (hsettleable : a.Settleable) : a.Watching := by
  obtain ⟨hdisposing, hreturned, -⟩ := h.resident hsettleable.resident
  unfold Watching
  cases hwatcher : a.watcher with
  | racing poked activity => trivial
  | raced poked => trivial
  | locking poked => exact h.queued poked hwatcher
  | decided poked settling => trivial
  | blocked poked =>
    by_contra hnot
    rcases h.blocked poked hwatcher (Bool.eq_false_iff.mpr hnot) with haccepted | howned
    · exact haccepted hsettleable.unclaimed
    · exact howned hsettleable.childless
  | disposing => exact hdisposing hwatcher
  | returned => exact hreturned hwatcher

/-! ## What others do -/

/-- Others leave the watcher where it is, and what they take away they poke for. -/
structure Keeps (a a' : Activation) : Prop where
  watcher : a'.watcher = a.watcher
  lookedAt : a'.lookedAt = a.lookedAt
  queued : .watcher ∈ a.lock → .watcher ∈ a'.lock
  poke : a.poke ≤ a'.poke
  closed : a.disposal = true → a'.disposal = true
  closing : a'.disposal = true → a.disposal = true ∨ a.poke < a'.poke
  awaited : a'.poke = a.poke → a.Awaited → a'.Awaited

namespace Keeps

variable {a a' a'' : Activation}

theorem refl (a : Activation) : Keeps a a :=
  ⟨rfl, rfl, id, le_rfl, id, .inl, fun _ => id⟩

theorem trans (h : Keeps a a') (h' : Keeps a' a'') : Keeps a a'' where
  watcher := h'.watcher.trans h.watcher
  lookedAt := h'.lookedAt.trans h.lookedAt
  queued := h'.queued ∘ h.queued
  poke := h.poke.trans h'.poke
  closed := h'.closed ∘ h.closed
  closing := by
    intro hclosed
    rcases h'.closing hclosed with hmid | hpoked
    · exact (h.closing hmid).imp_right fun hpoked => hpoked.trans_le h'.poke
    · exact .inr (h.poke.trans_lt hpoked)
  awaited := by
    intro hsame hawaited
    have hfirst := h.poke
    have hsecond := h'.poke
    exact h'.awaited (by omega) (h.awaited (by omega) hawaited)

/-- A poke makes up for anything. -/
theorem poked (hwatcher : a'.watcher = a.watcher) (hlookedAt : a'.lookedAt = a.lookedAt)
    (hqueued : .watcher ∈ a.lock → .watcher ∈ a'.lock) (hclosed : a.disposal = true →
      a'.disposal = true) (hpoke : a.poke < a'.poke) : Keeps a a' where
  watcher := hwatcher
  lookedAt := hlookedAt
  queued := hqueued
  poke := hpoke.le
  closed := hclosed
  closing := fun _ => .inr hpoke
  awaited := fun hsame => absurd hsame hpoke.ne'

theorem agent (a : Activation) (agent : ChildAgent) : Keeps a { a with agent } :=
  ⟨rfl, rfl, id, le_rfl, id, .inl, fun _ => id⟩

theorem leave (a : Activation) (message : MessageId) : Keeps a (a.leave message) := by
  unfold Activation.leave
  dsimp only
  split
  · exact poked rfl rfl id id (Nat.lt_succ_self _)
  · exact agent a _

theorem leaveAll (a : Activation) (messages : List MessageId) : Keeps a (a.leaveAll messages) := by
  induction messages generalizing a with
  | nil => exact refl a
  | cons message rest ih => exact (leave a message).trans (ih (a.leave message))

theorem admitWaking (a : Activation) (message : MessageId) (throws : Bool) :
    Keeps a (a.admitWaking message throws) := by
  unfold Activation.admitWaking
  split
  · exact refl a
  · exact poked rfl rfl id id (Nat.lt_succ_self _)

theorem releaseOwnership (a : Activation) (child : JsString) :
    Keeps a (a.releaseOwnership child) := by
  unfold Activation.releaseOwnership
  split
  · exact poked rfl rfl id id (Nat.lt_succ_self _)
  · exact refl a

theorem acquireOwnership {child : JsString} (h : a.acquireOwnership child = some a') :
    Keeps a a' := by
  unfold Activation.acquireOwnership at h
  split at h
  · cases h
  cases h
  refine ⟨rfl, rfl, id, le_rfl, id, .inl, fun _ hawaited => hawaited.imp_right fun _ => ?_⟩
  exact List.ne_nil_of_mem List.mem_insert_self

theorem dispose (a : Activation) : Keeps a a.dispose := by
  unfold Activation.dispose
  split
  · exact refl a
  have hcut : Keeps a { a with disposal := true }.wake :=
    poked rfl rfl id (fun _ => rfl) (Nat.lt_succ_self _)
  exact (hcut.trans (leaveAll _ _)).trans (agent _ _)

/-- A delivery that asks for the lock. -/
theorem queue (a : Activation) (message : MessageId) :
    Keeps a { a with lock := a.lock ++ [.delivery message] } :=
  ⟨rfl, rfl, fun hmem => List.mem_append_left _ hmem, le_rfl, id, .inl, fun _ => id⟩

/-- A delivery that has had the lock. -/
theorem unlock {message : MessageId} {rest : List LockTicket}
    (hlock : a.lock = .delivery message :: rest) : Keeps a { a with lock := rest } where
  watcher := rfl
  lookedAt := rfl
  queued := by
    intro hmem
    rw [hlock] at hmem
    exact (List.mem_cons.mp hmem).resolve_left nofun
  poke := le_rfl
  closed := id
  closing := .inl
  awaited := fun _ => id

/-- What others do keeps the invariant. -/
theorem inv (h : Keeps a a') (ha : a.Inv) : a'.Inv := by
  have hsampled : a'.sampled = a.sampled := by simp only [sampled, h.watcher]
  have hpoke := h.poke
  -- a poke that is still unresolved is the one that was
  have hsame {poked : Nat} (hp : a.sampled = some poked) (hunpoked : a'.isPoked poked = false) :
      a'.poke = a.poke ∧ a.isPoked poked = false := by
    have hle := ha.sampled poked hp
    simp only [isPoked, decide_eq_false_iff_not, not_lt] at hunpoked ⊢
    omega
  refine ⟨?_, ?_, ?_, ?_, ?_, ?_⟩
  · intro poked hp
    exact (ha.sampled poked (hsampled ▸ hp)).trans h.poke
  · intro hclosed poked hp
    rw [hsampled] at hp
    rcases h.closing hclosed with hbefore | hpoked
    · exact (ha.closed hbefore poked hp).trans_le h.poke
    · exact (ha.sampled poked hp).trans_lt hpoked
  · intro hresident
    have hbefore : a.disposal = false := by
      by_contra hclosed
      have := h.closed (Bool.not_eq_false _ ▸ hclosed)
      simp_all
    rw [h.watcher]
    exact ha.resident hbefore
  · intro poked hwatcher hunpoked
    rw [h.watcher] at hwatcher
    obtain ⟨hpokes, hbefore⟩ := hsame (by simp [Activation.sampled, Watcher.sampled, hwatcher]) hunpoked
    exact h.awaited hpokes (ha.blocked poked hwatcher hbefore)
  · intro poked hwatcher hunpoked
    rw [h.watcher] at hwatcher
    obtain ⟨hpokes, hbefore⟩ := hsame (by simp [Activation.sampled, Watcher.sampled, hwatcher]) hunpoked
    rw [h.lookedAt]
    exact (ha.decided poked hwatcher hbefore).imp_right (h.awaited hpokes)
  · intro poked hwatcher
    rw [h.watcher] at hwatcher
    exact h.queued (ha.queued poked hwatcher)

end Keeps

variable {a a' : Activation}

/-! ## What the watcher does -/

theorem stateOf_ne_settled (h : a.stateOf ≠ .settled) : a.agent.status = .running ∨ a.Awaited := by
  by_contra hnot
  simp only [Awaited, not_or, not_not] at hnot
  obtain ⟨hidle, haccepted, howned⟩ := hnot
  exact h (by simp [stateOf, hidle, haccepted, howned])

/-- The watcher samples anew. -/
theorem loopHead_inv (a : Activation) : a.loopHead.Inv := by
  unfold Activation.loopHead
  split
  · rename_i hclosed
    refine ⟨nofun, fun _ => nofun, fun hresident => ?_, nofun, nofun, nofun⟩
    cases hclosed.symm.trans hresident
  · rename_i hresident
    refine ⟨?_, ?_, fun _ => ⟨nofun, nofun, nofun⟩, nofun, nofun, nofun⟩
    · rintro _ ⟨⟩
      exact le_rfl
    · exact fun hclosed => absurd hclosed hresident

theorem Inv.moves (h : a.Inv) {poked : Nat} (hsampled : a.sampled = some poked)
    (watcher : Watcher) (lock : List LockTicket) (hnext : watcher.sampled = some poked)
    (hsettling : watcher ≠ .decided poked true)
    (hblocked : watcher = .blocked poked → a.isPoked poked = false → a.Awaited)
    (hdecided : watcher ≠ .decided poked false)
    (hqueued : watcher = .locking poked → .watcher ∈ lock) :
    Inv { a with watcher, lock } where
  sampled := by
    intro p hp
    cases hnext.symm.trans hp
    exact h.sampled poked hsampled
  closed := by
    intro hclosed p hp
    cases hnext.symm.trans hp
    exact h.closed hclosed poked hsampled
  resident := by
    intro _
    refine ⟨?_, ?_, ?_⟩
    · rintro rfl
      cases hnext
    · rintro rfl
      cases hnext
    · rintro p rfl
      cases hnext
      exact hsettling rfl
  blocked := by
    rintro p rfl
    cases hnext
    exact hblocked rfl
  decided := by
    rintro p rfl
    cases hnext
    exact absurd rfl hdecided
  queued := by
    rintro p rfl
    cases hnext
    exact hqueued rfl

theorem disposal_leave (a : Activation) (message : MessageId) :
    (a.leave message).disposal = a.disposal := by
  unfold leave
  dsimp only
  split <;> rfl

theorem disposal_leaveAll (a : Activation) (messages : List MessageId) :
    (a.leaveAll messages).disposal = a.disposal := by
  induction messages generalizing a with
  | nil => rfl
  | cons message rest ih => exact (ih (a.leave message)).trans (disposal_leave a message)

theorem disposal_dispose (a : Activation) : a.dispose.disposal = true := by
  unfold dispose
  split
  · assumption
  · exact disposal_leaveAll _ _

/-- The look inside the lock. -/
theorem Inv.attempt (h : a.Inv) {poked : Nat} (hwatcher : a.watcher = .locking poked)
    {rest : List LockTicket} : ({ a with lock := rest }.attempt poked).Inv := by
  have hsampled : a.sampled = some poked := by simp [Activation.sampled, Watcher.sampled, hwatcher]
  unfold Activation.attempt
  dsimp only
  split
  · rename_i hstays
    refine ⟨?_, ?_, ?_, nofun, ?_, nofun⟩
    · rintro _ ⟨⟩
      exact h.sampled poked hsampled
    · rintro hclosed _ ⟨⟩
      exact h.closed hclosed poked hsampled
    · exact fun _ => ⟨nofun, nofun, nofun⟩
    · rintro _ ⟨⟩ hunpoked
      simp only [Bool.or_eq_true, decide_eq_true_eq] at hstays
      rcases hstays with hclosed | hstate
      · have hpoked := h.closed hclosed poked hsampled
        simp only [isPoked, decide_eq_false_iff_not] at hunpoked
        exact absurd hpoked hunpoked
      · have hstate' : a.stateOf ≠ .settled := hstate
        exact stateOf_ne_settled hstate'
  · rename_i hsettles
    have hresident : a.disposal = false := by
      simp only [Bool.or_eq_true, not_or, Bool.not_eq_true] at hsettles
      exact hsettles.1
    have hkeeps : Keeps { a with lock := rest, lookedAt := a.agent.status }
        { a with lock := rest, lookedAt := a.agent.status }.dispose := Keeps.dispose _
    have hclosed : { a with lock := rest, lookedAt := a.agent.status }.dispose.disposal = true :=
      disposal_dispose _
    have hpoked := (hkeeps.closing hclosed).resolve_left (by simp [hresident])
    have hle : poked ≤ a.poke := h.sampled poked hsampled
    refine ⟨?_, ?_, ?_, nofun, nofun, nofun⟩
    · rintro _ ⟨⟩
      exact hle.trans hpoked.le
    · rintro _ _ ⟨⟩
      exact hle.trans_lt hpoked
    · exact fun hnot => Bool.noConfusion (hclosed.symm.trans hnot)

/-! ## Every step -/

/-- A step whose look behind the lock finds the status it left keeps the invariant. -/
theorem Inv.step {act : ActivationAction} (h : a.Inv) (hholds : a.StatusHolds act)
    (hstep : a.step act = some a') : a'.Inv := by
  cases act with
  | followup message =>
    cases hstep
    exact (Keeps.queue a message).inv h
  | runLock refused throws =>
    simp only [Activation.step, Activation.runLock] at hstep
    split at hstep
    · cases hstep
    · split at hstep
      · rename_i poked hwatcher
        cases hstep
        exact h.attempt hwatcher
      · cases hstep
    · rename_i message rest hlock
      split at hstep
      · cases hstep
      split at hstep
      · cases hstep
        exact (Keeps.unlock hlock).inv h
      · cases hstep
        exact ((Keeps.unlock hlock).trans (Keeps.admitWaking _ message throws)).inv h
  | notice message throws =>
    cases hstep
    exact (Keeps.admitWaking a message throws).inv h
  | acquireOwnership child => exact (Keeps.acquireOwnership hstep).inv h
  | releaseOwnership child =>
    cases hstep
    exact (Keeps.releaseOwnership a child).inv h
  | interrupt cause =>
    simp only [Activation.step] at hstep
    split at hstep
    · cases hstep
      exact h
    · cases hstep
      exact (Keeps.agent a _).inv h
  | dispose =>
    cases hstep
    exact (Keeps.dispose a).inv h
  | send message wakeup =>
    cases hstep
    exact (Keeps.agent a _).inv h
  | claim messages =>
    simp only [Activation.step] at hstep
    split at hstep
    · cases hstep
      exact (Keeps.leaveAll a messages).inv h
    · cases hstep
  | discard messages =>
    cases hstep
    exact (Keeps.leaveAll a messages).inv h
  | runMaintenance =>
    obtain ⟨agent, -, rfl⟩ := Option.map_eq_some_iff.mp hstep
    exact (Keeps.agent a agent).inv h
  | nextTurn =>
    obtain ⟨agent, -, rfl⟩ := Option.map_eq_some_iff.mp hstep
    exact (Keeps.agent a agent).inv h
  | endActivity =>
    obtain ⟨agent, -, rfl⟩ := Option.map_eq_some_iff.mp hstep
    exact (Keeps.agent a agent).inv h
  | resolveActivity activity =>
    obtain ⟨agent, -, rfl⟩ := Option.map_eq_some_iff.mp hstep
    exact (Keeps.agent a agent).inv h
  | raceIdle =>
    simp only [Activation.step] at hstep
    split at hstep
    · rename_i poked activity hwatcher
      have hsampled : a.sampled = some poked := by simp [Activation.sampled, Watcher.sampled, hwatcher]
      split at hstep
      · cases hstep
      split at hstep
      · cases hstep
        exact h.moves hsampled (.raced poked) a.lock rfl nofun nofun nofun nofun
      cases hstep
      exact h.moves hsampled (.racing poked a.agent.activityDone) a.lock rfl nofun nofun nofun
        nofun
    · cases hstep
  | racePoke =>
    simp only [Activation.step] at hstep
    split at hstep
    · rename_i poked activity hwatcher
      have hsampled : a.sampled = some poked := by simp [Activation.sampled, Watcher.sampled, hwatcher]
      split at hstep
      · cases hstep
        exact h.moves hsampled (.raced poked) a.lock rfl nofun nofun nofun nofun
      · cases hstep
    · cases hstep
  | enterLock =>
    simp only [Activation.step] at hstep
    split at hstep
    · rename_i poked hwatcher
      have hsampled : a.sampled = some poked := by simp [Activation.sampled, Watcher.sampled, hwatcher]
      split at hstep
      · rename_i hclosed
        cases hstep
        exact ⟨nofun, fun _ => nofun, fun hresident => Bool.noConfusion (hclosed.symm.trans hresident),
          nofun, nofun, nofun⟩
      · cases hstep
        exact h.moves hsampled (.locking poked) (a.lock ++ [.watcher]) rfl nofun nofun nofun
          fun _ => by simp
    · cases hstep
  | lookAgain =>
    simp only [Activation.step, Activation.lookAgain] at hstep
    split at hstep
    · rename_i poked hwatcher
      cases hstep
      have hclosed : a.disposal ≠ false := fun hresident => (h.resident hresident).2.2 poked hwatcher
      exact ⟨nofun, fun _ => nofun, fun hresident => absurd hresident hclosed, nofun, nofun, nofun⟩
    · rename_i poked hwatcher
      have hsampled : a.sampled = some poked := by simp [Activation.sampled, Watcher.sampled, hwatcher]
      cases hstep
      split
      · rename_i hidle
        have hidle' : a.agent.status = .idle := by
          cases hstatus : a.agent.status with
          | idle => rfl
          | running => exact absurd hstatus hidle
        refine h.moves hsampled (.blocked poked) a.lock rfl nofun ?_ nofun nofun
        intro _ hunpoked
        rcases h.decided poked hwatcher hunpoked with hrunning | hawaited
        · rcases hholds poked hwatcher hrunning hidle' with hpoked | hawaited
          · exact absurd hpoked (by simp [hunpoked])
          · exact hawaited
        · exact hawaited
      · exact loopHead_inv a
    · cases hstep
  | wakeUp =>
    simp only [Activation.step] at hstep
    split at hstep
    · split at hstep
      · cases hstep
        exact loopHead_inv a
      · cases hstep
    · cases hstep

/-- A look that finds another status than it left puts the watcher to sleep over a settled
child. -/
theorem Inv.stranded {act : ActivationAction} (h : a.Inv) (hnot : ¬ a.StatusHolds act)
    (hstep : a.step act = some a') : a'.Settleable ∧ ¬ a'.Watching := by
  cases act with
  | lookAgain =>
    simp only [StatusHolds, not_forall, not_or, not_not] at hnot
    obtain ⟨poked, hwatcher, -, hidle, hunpoked, haccepted, howned⟩ := hnot
    have hresident : a.disposal = false := by
      by_contra hclosed
      have hpoked := h.closed (by simpa using hclosed) poked
        (by simp [Activation.sampled, Watcher.sampled, hwatcher])
      exact hunpoked (by simpa [isPoked] using hpoked)
    have hblocked : a' = { a with watcher := .blocked poked } := by
      simpa [Activation.step, Activation.lookAgain, hwatcher, hidle] using hstep.symm
    subst hblocked
    exact ⟨⟨hresident, hidle, haccepted, howned⟩, hunpoked⟩
  | _ => exact absurd trivial hnot

theorem materialized_inv (agent : ChildAgent) (deliveries : List MessageId) :
    (materialized agent deliveries).Inv := by
  refine ⟨?_, nofun, fun _ => ⟨nofun, nofun, nofun⟩, nofun, nofun, nofun⟩
  rintro _ ⟨⟩
  exact le_rfl

end Activation

open Transitions Activation in
/-- In every state of a run a child that could settle has a watcher that will look again, exactly
if in no iteration the watcher's look inside the lock sees a running agent that its look behind
the lock finds idle, unpoked and with nothing left to wait for. -/
theorem settlement_watched_iff (agent : ChildAgent) (deliveries : List MessageId)
    (acts : List ActivationAction) :
    (∀ before a, before <+: acts →
        run Activation.step (materialized agent deliveries) before = some a →
        a.Settleable → a.Watching) ↔
      ∀ before act a a', before ++ [act] <+: acts →
        run Activation.step (materialized agent deliveries) before = some a →
        a.step act = some a' → a.StatusHolds act := by
  refine along_iff_of_inv (P := fun a => a.Settleable → a.Watching)
    (fun a act a' h hholds hstep => h.step hholds hstep) ?_ (materialized_inv agent deliveries)
    (materialized_inv agent deliveries).watching
  intro a act a' h hstep
  constructor
  · intro hwatching
    by_contra hnot
    obtain ⟨hsettleable, hstranded⟩ := h.stranded hnot hstep
    exact hstranded (hwatching hsettleable)
  · intro hholds
    exact (h.step hholds hstep).watching

/-! ## A stranded child -/

namespace StrandedChild

/-- An agent that has done nothing yet. -/
def idleAgent : ChildAgent where
  phase := .idle 0
  pending := []
  activityDone := 0
  unresolved := []

/-- The child runs its prompt and is quiet again; before the watcher has the lock a plugin starts
a turn of its own, which is over before the watcher has come back from the lock. -/
def interleaving : List ActivationAction :=
  [.runLock false false, .claim ["prompt"], .racePoke, .enterLock, .runLock false false, .lookAgain,
    .endActivity, .resolveActivity 1, .raceIdle, .enterLock,
    .send "notice" true, .claim ["notice"], .runLock false false, .endActivity, .lookAgain,
    .resolveActivity 2]

end StrandedChild

open Transitions Activation StrandedChild in
/-- The child is idle, owes nothing and owns nothing, and its watcher sleeps on a poke that nothing
is going to resolve. -/
theorem stranded_child : ∃ a,
    run Activation.step (materialized idleAgent ["prompt"]) interleaving = some a ∧
      a.Settleable ∧ ¬ a.Watching := by
  refine ⟨_, rfl, ⟨rfl, rfl, rfl, rfl⟩, ?_⟩
  intro hwatching
  cases hwatching

end Harness
