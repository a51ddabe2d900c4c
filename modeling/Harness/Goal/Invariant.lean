-- SUMMARY: The invariant of a session's goal service, and that each step keeps it where no listener cuts across a mutation.
import Harness.Goal.World
import Harness.Goal.Plans

namespace Harness

open List Option

/-! ## What holds between two steps -/

def GoalRequest.Current (request : GoalRequest) (log : List SessionEvent) : Prop :=
  ∀ ref, request.ref? = some ref →
    ∃ state goal, foldGoalEvents log = .ok state ∧ state.goal = some goal ∧ ref.Names goal

/-- A mutation that failed has appended nothing, one that succeeded a single event. -/
def GoalOutcome.Atomic (outcome : GoalOutcome) : Prop :=
  match outcome.result with
  | .error _ => outcome.appended = 0
  | .ok _ => outcome.appended = 1

def GoalOperation.MayArm : GoalOperation → Prop
  | .snapshot .create => True
  | .snapshot .resume => True
  | .snapshot .edit => True
  | _ => False

structure GoalAppend.Fits (append : GoalAppend) (log : List SessionEvent) : Prop where
  next : append.pushed = false → append.event.seq = log.length
  accepted : append.pushed = false → log.length < maxArrayLength →
    ∃ state, foldGoalEvents (log ++ [append.event]) = .ok state
  last : append.pushed = true → append.event.seq + 1 = log.length
  data : ∀ call, append.own = some call → append.event.data = call.change.eventData
  appended : ∀ call, append.own = some call → call.appended = if append.pushed then 1 else 0
  current : ∀ call, append.own = some call → append.pushed = false → call.request.Current log

/-- The activation intent belongs to the append under way. -/
structure GoalWorld.Intends (w : GoalWorld) (cache : GoalCache) (pending : PendingActivation) :
    Prop where
  owner : ∃ append call, w.publication = some append ∧ append.own = some call ∧
    pending.seq = append.event.seq ∧
    (pending.activation = .armed → call.change.operation.MayArm) ∧
    (append.pushed = false → cache.observedSeq = w.log.length)

structure GoalWorld.Inv (w : GoalWorld) : Prop where
  contiguous : ∀ (i : Nat) (event : SessionEvent), w.log[i]? = some event → event.seq = i
  accepted : ∃ state, foldGoalEvents w.log = .ok state
  tracks : ∀ cache, w.cache = some cache → cache.Tracks w.log
  pending : ∀ (cache : GoalCache) (pending : PendingActivation), w.cache = some cache → cache.pendingActivation = some pending →
    w.Intends cache pending
  publication : ∀ append, w.publication = some append → append.Fits w.log
  listening : ∀ call ∈ w.listening, call.appended = 1
  settled : ∀ outcome ∈ w.settled, outcome.Atomic
  armed : w.activation = .armed → w.authority = true

/-! ## Where a listener cuts across a mutation -/

/-- The step does not meet one of the places where a listener undoes what a mutation relies on:
a session start that an armed change already in the log overrides once it is observed; an edit
that arms again what its own append's listeners disarmed; a snapshot mutation that returns
after its listeners cleared the goal. A create also needs a clock behind the epoch. -/
def GoalWorld.Orderly (w : GoalWorld) : GoalAction → Prop
  | .sessionStart => ∀ cache pending, w.cache = some cache →
    cache.pendingActivation = some pending → pending.activation = .armed →
    pending.seq < w.log.length → pending.seq < cache.observedSeq
  | .request _ request _ => request.Timely
  | .push => ∀ append call cache pending, w.publication = some append → append.own = some call →
    w.cache = some cache → cache.pendingActivation = some pending →
    call.change.operation = .snapshot .edit → pending.activation = .armed →
    cache.activation = .armed
  | .finishCall => ∀ call rest cache, w.listening = call :: rest → w.cached = .ok cache →
    call.change.operation ≠ .clear → cache.state.goal ≠ none
  | _ => True

/-- `randomUUID` gives an id that the log has not seen. -/
def GoalWorld.FreshIds (w : GoalWorld) : GoalAction → Prop
  | .request _ request _ => ∀ state, foldGoalEvents w.log = .ok state → request.Fresh state
  | _ => True

namespace GoalWorld

variable {w : GoalWorld} {config : GoalServiceConfig}

/-! ## Replacing the cache -/

theorem Inv.withCache (h : w.Inv) {cache : GoalCache} (htracks : cache.Tracks w.log)
    (hpending : ∀ pending, cache.pendingActivation = some pending →
      { w with cache := some cache }.Intends cache pending)
    (harmed : { w with cache := some cache }.activation = .armed → w.authority = true) :
    Inv { w with cache := some cache } :=
  { h with
    tracks := by
      rintro _ ⟨⟩
      exact htracks
    pending := by
      rintro _ pending ⟨⟩ hp
      exact hpending pending hp
    armed := harmed }

/-- What the invariant says of a synced service. -/
theorem Inv.synced (h : w.Inv) {state : GoalFoldState} (hlog : foldGoalEvents w.log = .ok state) :
    w.synced = (.ok (w.upToDate state), { w with cache := some (w.upToDate state) }) ∧
      Inv { w with cache := some (w.upToDate state) } ∧
      { w with cache := some (w.upToDate state) }.activation = w.activation := by
  have hactivation : { w with cache := some (w.upToDate state) }.activation = w.activation :=
    @activation_of_observed { w with cache := some (w.upToDate state) } (w.upToDate state) rfl rfl
  refine ⟨synced_ok h.tracks hlog, ?_, hactivation⟩
  refine h.withCache (upToDate_tracks hlog) ?_ (hactivation ▸ h.armed)
  intro pending hpending
  obtain ⟨cache, hcache, hp⟩ := bind_eq_some_iff.mp hpending
  obtain ⟨append, call, happend, hown, hseq, harms, hobserved⟩ := (h.pending cache pending hcache hp).owner
  exact ⟨append, call, happend, hown, hseq, harms, fun _ => rfl⟩

theorem Inv.observed (h : w.Inv) {state : GoalFoldState}
    (hlog : foldGoalEvents w.log = .ok state) : w.observed = .ok (state, w.activation) :=
  observed_ok h.tracks hlog

theorem Inv.settle (h : w.Inv) {request : GoalRequest} {appended : Nat}
    {result : Except GoalThrow GoalReply} (hatomic : GoalOutcome.Atomic ⟨request, appended, result⟩) :
    (w.settle request appended result).Inv :=
  { h with
    pending := fun cache pending hcache hp =>
      let ⟨howner⟩ := h.pending cache pending hcache hp
      ⟨howner⟩
    settled := by
      intro outcome houtcome
      rcases mem_cons.mp houtcome with rfl | hold
      · exact hatomic
      · exact h.settled outcome hold }

theorem Inv.withListening (h : w.Inv) {listening : List GoalCall}
    (hone : ∀ call ∈ listening, call.appended = 1) : Inv { w with listening } :=
  { h with
    pending := fun cache pending hcache hp =>
      let ⟨howner⟩ := h.pending cache pending hcache hp
      ⟨howner⟩
    listening := hone }

/-- A mutation that fails before its append. -/
theorem Inv.fail (h : w.Inv) (request : GoalRequest) (e : GoalThrow) :
    (w.settle request 0 (.error e)).Inv :=
  h.settle rfl

/-! ## Reads -/

/-- Same log, same fold and same activation. -/
structure Quiet (w w' : GoalWorld) : Prop where
  log : w'.log = w.log
  activation : w'.activation = w.activation

theorem Inv.get (h : w.Inv) (caller : GoalCaller) :
    (w.get caller).2.Inv ∧ w.Quiet (w.get caller).2 := by
  obtain ⟨state, hlog⟩ := h.accepted
  obtain ⟨hsynced, hinv, hactivation⟩ := h.synced hlog
  unfold GoalWorld.get
  cases assertLive caller with
  | error e => exact ⟨h, rfl, rfl⟩
  | ok u =>
    simp only [hsynced]
    exact ⟨hinv, rfl, hactivation⟩

/-- What `disarm` and a session start leave. -/
theorem Inv.disarmed (h : w.Inv) {cache : GoalCache} (htracks : cache.Tracks w.log)
    (hpending : ∀ pending, cache.pendingActivation = some pending →
      { w with cache := some cache }.Intends cache pending)
    (hdisarmed : { w with cache := some cache }.activation = .disarmed) :
    Inv { w with cache := some cache, authority := false } :=
  { h with
    tracks := by
      rintro _ ⟨⟩
      exact htracks
    pending := by
      rintro _ pending ⟨⟩ hp
      obtain ⟨howner⟩ := hpending pending hp
      exact ⟨howner⟩
    armed := by
      intro harmed
      cases hdisarmed.symm.trans harmed }

theorem Inv.disarm (h : w.Inv) (caller : GoalCaller) :
    (w.disarm caller).2.Inv ∧ (w.disarm caller).2.log = w.log := by
  obtain ⟨state, hlog⟩ := h.accepted
  obtain ⟨hsynced, hinv, -⟩ := h.synced hlog
  unfold GoalWorld.disarm
  cases assertLive caller with
  | error e => exact ⟨h, rfl⟩
  | ok u =>
    simp only [hsynced]
    refine ⟨h.disarmed ⟨le_rfl, (upToDate_tracks hlog).folded⟩ ?_ ?_, trivial⟩
    · intro pending hp
      obtain ⟨howner⟩ := hinv.pending _ pending rfl hp
      exact ⟨howner⟩
    · exact @activation_of_observed { w with cache := some _ } _ rfl rfl

theorem Inv.sessionStart (h : w.Inv) (horderly : w.Orderly .sessionStart) :
    w.sessionStart.Inv ∧ w.sessionStart.log = w.log := by
  obtain ⟨state, hlog⟩ := h.accepted
  unfold GoalWorld.sessionStart
  cases hcache : w.cache with
  | none =>
    have hfresh : w.cached = .ok (w.upToDate state) := by
      simp [cached, hcache, GoalCache.fresh, hlog, upToDate, activation, Except.map]
    simp only [hfresh]
    refine ⟨h.disarmed ⟨le_rfl, (upToDate_tracks hlog).folded⟩ ?_ ?_, trivial⟩
    · intro pending hp
      simp [upToDate, hcache] at hp
    · exact @activation_of_observed { w with cache := some _ } _ rfl rfl
  | some cache =>
    have hcached : w.cached = .ok cache := by simp [cached, hcache]
    simp only [hcached]
    have htracks := h.tracks cache hcache
    refine ⟨h.disarmed ⟨htracks.le, htracks.folded⟩ ?_ ?_, trivial⟩
    · intro pending hp
      obtain ⟨howner⟩ := h.pending cache pending hcache hp
      exact ⟨howner⟩
    refine GoalCache.activationOver_disarmed rfl ?_
    intro pending hp harmed event hevent hseq
    -- an event that was not observed stands behind the observed ones
    obtain ⟨i, hi⟩ := mem_iff_getElem?.mp hevent
    rw [getElem?_drop] at hi
    have hindex : event.seq = cache.observedSeq + i := h.contiguous _ event hi
    have hlt : cache.observedSeq + i < w.log.length := (List.getElem?_eq_some_iff.mp hi).1
    have hobserved := horderly cache pending hcache hp harmed (by omega)
    omega

/-! ## Up to the append -/

theorem Inv.commit (h : w.Inv) {state : GoalFoldState} (hlog : foldGoalEvents w.log = .ok state)
    {request : GoalRequest} {intent : GoalIntent} {time : Int} {cache : GoalCache}
    (hcache : cache = w.upToDate state) (hplanned : request.Planned w.log cache intent)
    (htimely : request.Timely) (hfresh : request.Fresh state) :
    (w.commit request cache intent time).Inv ∧ w.Quiet (w.commit request cache intent time) := by
  subst hcache
  cases hpublication : w.publication with
  | some append =>
    let cache : GoalCache := { w.upToDate state with pendingActivation := none }
    have hactivation : { w with cache := some cache }.activation = w.activation :=
      @activation_of_observed { w with cache := some cache } cache rfl rfl
    have hinv : Inv { w with cache := some cache } :=
      h.withCache ⟨le_rfl, (upToDate_tracks hlog).folded⟩ nofun (hactivation ▸ h.armed)
    have hcommit : w.commit request (w.upToDate state) intent time
        = { w with cache := some cache }.settle request 0 (.error
          (.error "session append cannot reenter while another append is being published")) := by
      simp only [GoalWorld.commit, hpublication, cache]
    rw [hcommit]
    exact ⟨hinv.fail _ _, rfl, hactivation⟩
  | none =>
    simp only [GoalWorld.commit, hpublication]
    let pending : PendingActivation := { seq := w.log.length, activation := intent.activation }
    let cache : GoalCache := { w.upToDate state with pendingActivation := some pending }
    let append : GoalAppend := {
      event := { seq := w.log.length, time, data := intent.change.eventData }
      own := some { request, change := intent.change, appended := 0 }
      pushed := false }
    have hactivation : { w with cache := some cache, publication := some append }.activation
        = w.activation :=
      @activation_of_observed { w with cache := some cache, publication := some append } cache rfl rfl
    have hfits : append.Fits w.log := {
      next := fun _ => rfl
      accepted := by
        intro _ hroom
        have hsafe : w.log.length < maxSafeInteger :=
          hroom.trans_le (by simp only [maxArrayLength, maxSafeInteger]; omega)
        obtain ⟨hwell, state', haccepts⟩ := hplanned.sound hsafe htimely hfresh
        refine ⟨state', ?_⟩
        have happly : applyGoalEvent state append.event = .ok state' :=
          applyGoalEvent_change hwell haccepts rfl
        rw [foldGoalEvents_snoc, hlog]
        exact happly
      last := nofun
      data := by
        rintro _ ⟨⟩
        rfl
      appended := by
        rintro _ ⟨⟩
        rfl
      current := by
        rintro _ ⟨⟩ _ ref href
        obtain ⟨goal, hgoal, hnames⟩ := hplanned.names ref href
        exact ⟨state, goal, hlog, hgoal, hnames⟩ }
    have hmay : intent.activation = .armed → intent.change.operation.MayArm := by
      intro harmed
      rcases hplanned.arms harmed with hop | hop | ⟨hop, -⟩ <;> rw [hop] <;> trivial
    refine ⟨?_, rfl, hactivation⟩
    exact {
      contiguous := h.contiguous
      accepted := h.accepted
      tracks := by
        rintro _ ⟨⟩
        exact ⟨le_rfl, (upToDate_tracks hlog).folded⟩
      pending := by
        rintro _ _ ⟨⟩ ⟨⟩
        exact ⟨append, _, rfl, rfl, rfl, hmay, fun _ => rfl⟩
      publication := by
        rintro _ ⟨⟩
        exact hfits
      listening := h.listening
      settled := h.settled
      armed := hactivation ▸ h.armed }

theorem Inv.request (h : w.Inv) {caller : GoalCaller} {request : GoalRequest} {time : Int}
    (htimely : request.Timely)
    (hfresh : ∀ state, foldGoalEvents w.log = .ok state → request.Fresh state) :
    (w.request config caller request time).Inv ∧
      w.Quiet (w.request config caller request time) := by
  obtain ⟨state, hlog⟩ := h.accepted
  obtain ⟨hsynced, hinv, hactivation⟩ := h.synced hlog
  unfold GoalWorld.request
  cases request.check config with
  | error e => exact ⟨h.fail _ _, rfl, rfl⟩
  | ok u =>
    cases assertLive caller with
    | error e => exact ⟨h.fail _ _, rfl, rfl⟩
    | ok u =>
      simp only [hsynced]
      cases hplan : request.plan config (w.upToDate state) with
      | error e => exact ⟨hinv.fail _ _, rfl, hactivation⟩
      | ok intent =>
        have hreplays : (w.upToDate state).state.Replays w.log := foldGoalEvents_replays hlog
        have hplanned := GoalRequest.plan_planned hreplays hplan
        have hsame : w.upToDate state
            = { w with cache := some (w.upToDate state) }.upToDate state := by
          show _ = GoalCache.mk state { w with cache := some (w.upToDate state) }.activation
            w.log.length (w.upToDate state).pendingActivation
          rw [hactivation]
          rfl
        have hcommit (time : Int) :=
          @Inv.commit _ hinv state hlog request intent time _ hsame hplanned htimely
            (hfresh state hlog)
        obtain ⟨hinv', hquiet⟩ := hcommit time
        exact ⟨hinv', hquiet.log, hquiet.activation.trans hactivation⟩

/-! ## Around the append -/

/-- An intent needs a mutation that is appending. -/
theorem Inv.no_pending (h : w.Inv) (hforeign : ∀ append, w.publication = some append →
    append.own = none) {cache : GoalCache} (hcache : w.cache = some cache) :
    cache.pendingActivation = none := by
  cases hp : cache.pendingActivation with
  | none => rfl
  | some pending =>
    obtain ⟨append, call, happend, hown, -⟩ := (h.pending cache pending hcache hp).owner
    cases (hforeign append happend).symm.trans hown

/-- The publication of an append that is not a mutation's. -/
theorem Inv.withForeign (h : w.Inv) (hforeign : ∀ append, w.publication = some append →
    append.own = none) {publication : Option GoalAppend}
    (hfits : ∀ append, publication = some append → append.Fits w.log) :
    Inv { w with publication } :=
  { h with
    pending := by
      intro cache pending hcache hp
      cases (h.no_pending hforeign hcache).symm.trans hp
    publication := hfits }

theorem Inv.foreign (h : w.Inv) (hnone : w.publication = none) {event : SessionEvent}
    (hseq : event.seq = w.log.length) {state : GoalFoldState}
    (haccepted : foldGoalEvents (w.log ++ [event]) = .ok state) :
    Inv { w with publication := some { event, own := none, pushed := false } } := by
  refine h.withForeign (fun append happend => nomatch hnone.symm.trans happend) ?_
  rintro _ ⟨⟩
  exact {
    next := fun _ => hseq
    accepted := fun _ _ => ⟨state, haccepted⟩
    last := fun hpushed => Bool.noConfusion hpushed
    data := fun _ hown => absurd hown (some_ne_none _).symm
    appended := fun _ hown => absurd hown (some_ne_none _).symm
    current := fun _ hown => absurd hown (some_ne_none _).symm }

/-- The end of a mutation's append: the intent is forgotten. -/
theorem Inv.endAppend (h : w.Inv) (hactivation : w.clearPending.activation = w.activation) :
    Inv { w with publication := none }.clearPending :=
  { h with
    tracks := by
      intro cache hcache
      obtain ⟨before, hbefore, rfl⟩ := map_eq_some_iff.mp hcache
      have htracks := h.tracks before hbefore
      exact ⟨htracks.le, htracks.folded⟩
    pending := by
      intro cache pending hcache hp
      obtain ⟨before, hbefore, rfl⟩ := map_eq_some_iff.mp hcache
      cases hp
    publication := fun _ hnone => absurd hnone (some_ne_none _).symm
    armed := fun harmed => h.armed (hactivation ▸ harmed) }

/-- An intent that no unobserved event answers is forgotten without a trace. -/
theorem clearPending_activation (h : ∀ cache pending, w.cache = some cache →
    cache.pendingActivation = some pending →
    ∀ event ∈ w.log.drop cache.observedSeq, event.seq ≠ pending.seq) :
    w.clearPending.activation = w.activation := by
  unfold clearPending activation
  cases hcache : w.cache with
  | none => rfl
  | some cache => exact GoalCache.activationOver_clear fun pending hp => h cache pending hcache hp

theorem Inv.veto (h : w.Inv) {append : GoalAppend} (happend : w.publication = some append)
    (hpushed : append.pushed = false) (message : String) :
    (w.veto append message).Inv ∧ w.Quiet (w.veto append message) := by
  have hfits := h.publication append happend
  unfold GoalWorld.veto
  cases hown : append.own with
  | none =>
    refine ⟨h.withForeign ?_ fun _ hnone => absurd hnone (some_ne_none _).symm, rfl, rfl⟩
    intro append' happend'
    cases happend.symm.trans happend'
    exact hown
  | some call =>
    have hactivation : w.clearPending.activation = w.activation := by
      refine clearPending_activation fun cache pending hcache hp event hevent => ?_
      obtain ⟨append', call', happend', hown', hseq, -⟩ := (h.pending cache pending hcache hp).owner
      cases happend.symm.trans happend'
      -- the intent waits for the event that was refused
      obtain ⟨i, hi⟩ := mem_iff_getElem?.mp (mem_of_mem_drop hevent)
      have hindex := h.contiguous i event hi
      have hlt : i < w.log.length := (List.getElem?_eq_some_iff.mp hi).1
      have hnext := hfits.next hpushed
      omega
    have hzero : call.appended = 0 := by simpa [hpushed] using hfits.appended call hown
    dsimp only
    rw [hzero]
    exact ⟨(h.endAppend hactivation).fail _ _, rfl, hactivation⟩

theorem activation_push (htracks : ∀ cache, w.cache = some cache → cache.Tracks w.log)
    (append : GoalAppend) : (w.push append).activation =
      match w.cache with
      | none => .disarmed
      | some cache =>
        { cache with activation := w.activation }.activationAfter append.event := by
  unfold push activation
  cases hcache : w.cache with
  | none => rfl
  | some cache =>
    dsimp only
    rw [drop_append_of_le_length (htracks cache hcache).le, GoalCache.activationOver_snoc]

theorem Inv.push_armed (h : w.Inv) {append : GoalAppend} (happend : w.publication = some append)
    (hpushed : append.pushed = false) (horderly : w.Orderly .push) {cache : GoalCache}
    (hcache : w.cache = some cache)
    (harmed : { cache with activation := w.activation }.activationAfter append.event = .armed) :
    (w.push append).authority = true := by
  have hfits := h.publication append happend
  have hother (htype : append.event.type ≠ goalChangeType) : w.activation = .armed := by
    simpa [GoalCache.activationAfter, htype] using harmed
  -- a goal change that arms answers the intent of the mutation that appends it
  have hanswers (htype : append.event.type = goalChangeType) : ∃ pending,
      cache.pendingActivation = some pending ∧ pending.activation = .armed := by
    simp only [GoalCache.activationAfter, htype, if_true] at harmed
    cases hp : cache.pendingActivation with
    | none =>
      rw [hp] at harmed
      cases harmed
    | some pending =>
      rw [hp] at harmed
      dsimp only at harmed
      split at harmed
      · exact ⟨pending, rfl, harmed⟩
      · cases harmed
  cases hown : append.own with
  | none =>
    have hnot : append.event.type ≠ goalChangeType := by
      intro htype
      obtain ⟨pending, hp, -⟩ := hanswers htype
      obtain ⟨append', call, happend', hown', -⟩ := (h.pending cache pending hcache hp).owner
      cases happend.symm.trans happend'
      cases hown.symm.trans hown'
    have hauthority := h.armed (hother hnot)
    simp [GoalWorld.push, hown, hauthority, hnot]
  | some call =>
    have htype : append.event.type = goalChangeType := by
      rw [SessionEvent.type, hfits.data call hown]
      rfl
    obtain ⟨pending, hp, hparmed⟩ := hanswers htype
    obtain ⟨append', call', happend', hown', -, harms, hobserved⟩ :=
      (h.pending cache pending hcache hp).owner
    cases happend.symm.trans happend'
    cases hown.symm.trans hown'
    have hmay := harms hparmed
    simp only [GoalWorld.push, hown]
    cases hop : call.change.operation with
    | clear =>
      rw [hop] at hmay
      cases hmay
    | snapshot operation =>
      rw [hop] at hmay
      cases operation with
      | create => rfl
      | resume => rfl
      | edit =>
        have hcarmed := horderly append call cache pending happend hown hcache hp hop hparmed
        have hactivation : w.activation = cache.activation :=
          activation_of_observed hcache (hobserved hpushed)
        exact h.armed (hactivation.trans hcarmed)
      | pause => cases hmay
      | complete => cases hmay
      | block => cases hmay

theorem Inv.push (h : w.Inv) {append : GoalAppend} (happend : w.publication = some append)
    (hpushed : append.pushed = false) (hroom : w.log.length < maxArrayLength)
    (horderly : w.Orderly .push) : (w.push append).Inv := by
  have hfits := h.publication append happend
  have hseq := hfits.next hpushed
  obtain ⟨state, hstate⟩ := hfits.accepted hpushed hroom
  refine {
    contiguous := ?_
    accepted := ⟨state, hstate⟩
    tracks := ?_
    pending := ?_
    publication := ?_
    listening := h.listening
    settled := h.settled
    armed := ?_ }
  · intro i event hi
    simp only [GoalWorld.push] at hi
    rcases Nat.lt_or_ge i w.log.length with hlt | hge
    · rw [getElem?_append_left hlt] at hi
      exact h.contiguous i event hi
    rw [getElem?_append_right hge] at hi
    have hzero : i - w.log.length = 0 := by
      have := (List.getElem?_eq_some_iff.mp hi).1
      simpa using this
    rw [hzero] at hi
    cases hi
    omega
  · intro cache hcache
    have htracks := h.tracks cache hcache
    refine ⟨?_, ?_⟩
    · have hle := htracks.le
      simp only [GoalWorld.push, length_append]
      omega
    · simp only [GoalWorld.push]
      rw [take_append_of_le_length htracks.le]
      exact htracks.folded
  · intro cache pending hcache hp
    obtain ⟨append', call, happend', hown, hpseq, harms, -⟩ := (h.pending cache pending hcache hp).owner
    cases happend.symm.trans happend'
    exact ⟨_, { call with appended := call.appended + 1 }, rfl, by simp [hown], hpseq, harms,
      fun hnot => Bool.noConfusion hnot⟩
  · rintro _ ⟨⟩
    refine ⟨fun hnot => Bool.noConfusion hnot, fun hnot => Bool.noConfusion hnot, ?_, ?_, ?_,
      fun _ _ hnot => Bool.noConfusion hnot⟩
    · intro _
      simp [GoalWorld.push, hseq]
    · intro call hcall
      obtain ⟨before, hbefore, rfl⟩ := map_eq_some_iff.mp hcall
      exact hfits.data before hbefore
    · intro call hcall
      obtain ⟨before, hbefore, rfl⟩ := map_eq_some_iff.mp hcall
      have hzero := hfits.appended before hbefore
      simp [hzero, hpushed]
  · intro harmed
    rw [activation_push h.tracks] at harmed
    split at harmed
    · cases harmed
    rename_i cache hcache
    exact h.push_armed happend hpushed horderly hcache harmed

theorem Inv.finish (h : w.Inv) {append : GoalAppend} (happend : w.publication = some append)
    (hpushed : append.pushed = true) :
    (w.finish append).Inv ∧ w.Quiet (w.finish append) := by
  obtain ⟨state, hlog⟩ := h.accepted
  have hfits := h.publication append happend
  unfold GoalWorld.finish
  cases hown : append.own with
  | none =>
    refine ⟨h.withForeign ?_ fun _ hnone => absurd hnone (some_ne_none _).symm, rfl, rfl⟩
    intro append' happend'
    cases happend.symm.trans happend'
    exact hown
  | some call =>
    obtain ⟨-, hinv, hactivation⟩ := h.synced hlog
    have hsynced : { w with publication := none }.synced
        = (.ok (w.upToDate state),
          { w with publication := none, cache := some (w.upToDate state) }) :=
      synced_ok h.tracks hlog
    have hclear : { w with cache := some (w.upToDate state) }.clearPending.activation
        = { w with cache := some (w.upToDate state) }.activation := by
      refine clearPending_activation fun cache pending hcache hp event hevent => ?_
      cases hcache
      simp [upToDate] at hevent
    have hview : ∃ view, (w.upToDate state).view = .ok view := by
      unfold GoalCache.view
      cases hgoal : (w.upToDate state).state.goal with
      | none => exact ⟨none, rfl⟩
      | some goal =>
        obtain ⟨createdAt, updatedAt, hcarries⟩ := (foldGoalEvents_replays hlog).carries goal hgoal
        have hcreated : (w.upToDate state).state.createdAt = some createdAt := hcarries.created
        have hupdated : (w.upToDate state).state.updatedAt = some updatedAt := hcarries.updated
        simp [hcreated, hupdated]
    obtain ⟨view, hview⟩ := hview
    have hone : call.appended = 1 := by simpa [hpushed] using hfits.appended call hown
    have hend := hinv.endAppend hclear
    simp only [hsynced, hview]
    refine ⟨hend.withListening ?_, rfl, hclear.trans hactivation⟩
    intro call' hcall'
    rcases mem_cons.mp hcall' with rfl | hold
    · exact hone
    · exact h.listening call' hold

theorem Inv.cached_ok (h : w.Inv) : ∃ cache, w.cached = .ok cache ∧ cache.Tracks w.log := by
  obtain ⟨state, hlog⟩ := h.accepted
  cases hcache : w.cache with
  | some cache => exact ⟨cache, by simp [cached, hcache], h.tracks cache hcache⟩
  | none =>
    have hfresh : w.cached = .ok (w.upToDate state) := by
      simp [cached, hcache, GoalCache.fresh, hlog, upToDate, activation, Except.map]
    exact ⟨_, hfresh, upToDate_tracks hlog⟩

theorem Inv.finishCall (h : w.Inv) {call : GoalCall} {rest : List GoalCall}
    (hlistening : w.listening = call :: rest) (horderly : w.Orderly .finishCall) :
    (w.finishCall call rest).Inv ∧ w.Quiet (w.finishCall call rest) := by
  have hmem (call' : GoalCall) (hcall' : call' ∈ call :: rest) : call'.appended = 1 :=
    h.listening call' (hlistening ▸ hcall')
  have hpopped : Inv { w with listening := rest } :=
    h.withListening fun call' hcall' => hmem call' (mem_cons_of_mem _ hcall')
  have hone : call.appended = 1 := hmem call mem_cons_self
  unfold GoalWorld.finishCall
  cases hchange : call.change with
  | clear cleared clearedAt => exact ⟨hpopped.settle hone, rfl, rfl⟩
  | snapshot change =>
    obtain ⟨cache, hcached, htracks⟩ := h.cached_ok
    have hoperation : call.change.operation ≠ .clear := by
      rw [hchange]
      exact fun heq => GoalOperation.noConfusion heq
    have hcurrent := horderly call rest cache hlistening hcached hoperation
    obtain ⟨goal, hgoal⟩ := ne_none_iff_exists'.mp hcurrent
    obtain ⟨createdAt, updatedAt, hcarries⟩ :=
      (foldGoalEvents_replays htracks.folded).carries goal hgoal
    have hview : ∃ view, cache.view = .ok (some view) := by
      simp [GoalCache.view, hgoal, hcarries.created, hcarries.updated]
    obtain ⟨view, hview⟩ := hview
    have hcached' : { w with listening := rest }.cached = .ok cache := hcached
    simp only [hcached', hview]
    exact ⟨hpopped.settle hone, rfl, rfl⟩

end GoalWorld

end Harness
