-- SUMMARY: Legacy migration leaves current logs alone, is idempotent, and keeps every event in its place.
import Harness.Persistence.Migration

namespace Harness

open List OrderedMap
namespace StoredEvents

/-! ## Fields -/

theorem get?_eq_get? (fields : StoredFields) (key : JsString) :
    Json.get? key fields = get? fields key := by
  induction fields with
  | nil => rfl
  | cons field rest ih =>
    obtain ⟨k, v⟩ := field
    unfold Json.get?
    rw [ih]
    unfold get?
    by_cases h : k = key
    · simp [h]
    · simp [h]

@[simp] theorem get?_withField (fields : StoredFields) (key : JsString) (value : Json) (key' : JsString) :
    Json.get? key' (withField fields key value) =
      if key' = key then some value else Json.get? key' fields := by
  rw [get?_eq_get?, get?_eq_get?]
  exact get?_set fields key value key'

variable {event : StoredFields}

theorem hasType_withField {key : JsString} (h : "type" ≠ key) (value : Json)
    (type : JsString) : hasType (withField event key value) type = hasType event type := by
  unfold hasType
  rw [get?_withField, if_neg h]

variable {type : JsString}

theorem hasType_iff : hasType event type = true ↔ Json.get? "type" event = some (.str type) := by
  unfold hasType isText
  split
  · next s hs => rw [hs, decide_eq_true_eq, Option.some.injEq, Json.str.injEq]
  · next hnone =>
    exact ⟨fun h => (by cases h), fun h => absurd h (hnone type)⟩

theorem hasType_other {type type' : JsString} (h : hasType event type = true)
    (hne : type ≠ type') : hasType event type' = false := by
  rw [hasType_iff] at h
  unfold hasType isText
  rw [h]
  exact decide_eq_false hne

/-! ## Upgrades of other types -/

theorem turnStart_other (h : hasType event "turn/start" = false) (id : JsString) :
    migrateLegacyTurnStartEvent event id = .ok event := by
  unfold migrateLegacyTurnStartEvent
  rw [h]
  rfl

theorem turnEnd_other (h : hasType event "turn/end" = false) (id : JsString) :
    migrateLegacyTurnEndEvent event id = .ok event := by
  unfold migrateLegacyTurnEndEvent
  rw [h]
  rfl

theorem steering_other (h : hasType event "steering/message" = false)
    (id : JsString) : migrateLegacySteeringEvent event id = .ok event := by
  unfold migrateLegacySteeringEvent
  rw [h]
  rfl

theorem message_other (huser : hasType event "user/message" = false)
    (hassistant : hasType event "assistant/message" = false)
    (htool : hasType event "tool/result" = false) (id : JsString) (messageIds : MessageIds) :
    migrateLegacyMessageEvent event id messageIds = event := by
  unfold migrateLegacyMessageEvent
  rw [huser, hassistant, htool]
  split
  · rfl
  · rfl

variable {subject : String}

section

variable (h : assertMessageEventShape event subject = .ok ())
include h

/-- Whether an event passes the check does not depend on how it is called. -/
theorem shape_subject (subject' : String) : assertMessageEventShape event subject' = .ok () := by
  unfold assertMessageEventShape at h ⊢
  split at h
  · next type htype =>
    dsimp only at h ⊢
    split_ifs at h ⊢
    · split at h
      · cases h
      · rfl
    · split at h
      · cases h
      · rfl
    · rfl
  · rfl

/-- The message a checked event carries is a record with an identity. -/
theorem shape_message (htype : Json.get? "type" event = some (.str type))
    (hmessage : type ∈ messageTypes) :
    ∃ fields, (if type = "user/message" then Json.get? "data" event
      else (Json.get? "data" event).bind (Json.member "message")) = some (.obj fields) ∧
        Json.hasOwn fields "id" = true := by
  unfold assertMessageEventShape at h
  rw [htype] at h
  dsimp only at h
  rw [if_pos hmessage] at h
  split at h
  · cases h
  next hfault =>
  unfold messageFault at hfault
  split at hfault
  · cases hfault
  next message hmessage =>
  rw [hmessage]
  dsimp only at hfault
  split at hfault
  · cases hfault
  next hid =>
  rw [Bool.not_eq_true, Bool.not_eq_false'] at hid
  cases message with
  | obj fields =>
    refine ⟨fields, rfl, ?_⟩
    unfold Json.hasOwn
    unfold Json.member isNonEmptyString at hid
    dsimp only at hid
    cases hget : Json.get? "id" fields with
    | none =>
      rw [hget] at hid
      cases hid
    | some v => rfl
  | null => cases hid
  | bool b => cases hid
  | num n => cases hid
  | str s => cases hid
  | arr items => cases hid

/-- A checked message event is current: no upgrade touches it. -/
theorem message_current (id : JsString) (messageIds : MessageIds) :
    migrateLegacyMessageEvent event id messageIds = event := by
  have hwrapped : ∀ type : JsString, type ∈ messageTypes → type ≠ "user/message" →
      hasType event type = true → ∀ data, asRecord (Json.get? "data" event) = some data →
        Json.hasOwn data "message" = true := by
    intro type hmem hne htype data hdata
    obtain ⟨fields, hmessage, -⟩ := shape_message h (hasType_iff.mp htype) hmem
    rw [if_neg hne] at hmessage
    unfold asRecord at hdata
    split at hdata
    · next fields' heq =>
      cases hdata
      rw [heq] at hmessage
      unfold Json.hasOwn
      rw [show Json.get? "message" data = some (.obj fields) from hmessage]
      rfl
    · cases hdata
  unfold migrateLegacyMessageEvent
  split
  · rfl
  next data hdata =>
  split_ifs with huser hlegacy hassistant htool
  · rfl
  · -- the checked message has an identity, so it is no legacy one
    exfalso
    obtain ⟨fields, hmessage, hid⟩ := shape_message h (hasType_iff.mp huser) (by decide)
    rw [if_pos rfl] at hmessage
    rw [hmessage] at hdata
    cases hdata
    rw [hid] at hlegacy
    exact hlegacy rfl
  · rw [hwrapped "assistant/message" (by decide) (by decide) hassistant data hdata]
  · rw [hwrapped "tool/result" (by decide) (by decide) htool data hdata]
  · rfl

end

/-! ## Settled events -/

/-- An event that every upgrade leaves alone and that passes its check. -/
structure Settled (event : StoredFields) : Prop where
  kept : ∀ id messageIds, migrateEvent id messageIds event = .ok event
  checked : ∀ subject, assertMessageEventShape event subject = .ok ()

variable {id : JsString}

/-- An upgrade is a step of its own: the others pass the event on. -/
theorem migrateEvent_eq {event out : StoredFields}
    (hstart : migrateLegacyTurnStartEvent event id = .ok event)
    (hend : migrateLegacyTurnEndEvent event id = .ok event)
    (hsteering : migrateLegacySteeringEvent event id = .ok out) (messageIds : MessageIds) :
    migrateEvent id messageIds event = .ok (migrateLegacyMessageEvent out id messageIds) := by
  simp only [migrateEvent, hstart, hend, hsteering, bind, Except.bind, pure, Except.pure]

theorem settled_of_message (htype : hasType event type = true) (hmem : type ∈ messageTypes)
    (h : assertMessageEventShape event subject = .ok ()) : Settled event := by
  have hother : ∀ type' : JsString, type' ∉ messageTypes → hasType event type' = false :=
    fun type' hnot => hasType_other htype fun heq => hnot (heq ▸ hmem)
  refine ⟨fun id messageIds => ?_, shape_subject h⟩
  rw [migrateEvent_eq (turnStart_other (hother _ (by decide)) id) (turnEnd_other (hother _ (by decide)) id)
    (steering_other (hother _ (by decide)) id), message_current h]

/-- An event of no message type passes the check. -/
theorem shape_other (huser : hasType event "user/message" = false)
    (hassistant : hasType event "assistant/message" = false)
    (htool : hasType event "tool/result" = false) (subject : String) :
    assertMessageEventShape event subject = .ok () := by
  unfold assertMessageEventShape
  split
  · next type htype =>
    have hnot : type ∉ messageTypes := by
      intro hmem
      have htrue := hasType_iff.mpr htype
      simp only [messageTypes, mem_cons, not_mem_nil, or_false] at hmem
      rcases hmem with rfl | rfl | rfl
      · rw [huser] at htrue
        cases htrue
      · rw [hassistant] at htrue
        cases htrue
      · rw [htool] at htrue
        cases htrue
    rw [if_neg hnot]
  · rfl

/-- An event of none of the upgraded types is settled. -/
theorem settled_of_other (hstart : hasType event "turn/start" = false)
    (hend : hasType event "turn/end" = false) (hsteering : hasType event "steering/message" = false)
    (huser : hasType event "user/message" = false)
    (hassistant : hasType event "assistant/message" = false)
    (htool : hasType event "tool/result" = false) : Settled event := by
  refine ⟨fun id messageIds => ?_, shape_other huser hassistant htool⟩
  rw [migrateEvent_eq (turnStart_other hstart id) (turnEnd_other hend id) (steering_other hsteering id),
    message_other huser hassistant htool]

/-! ## Turn starts -/

/-- A turn start without the obsolete trigger. -/
def NoTrigger (event : StoredFields) : Prop :=
  ∀ data, asRecord (Json.get? "data" event) = some data → Json.hasOwn data "trigger" = false

theorem turnStart_kept (h : NoTrigger event) (id : JsString) :
    migrateLegacyTurnStartEvent event id = .ok event := by
  unfold migrateLegacyTurnStartEvent
  split_ifs
  · rfl
  split
  · rfl
  next data hdata =>
  rw [h data hdata]
  rfl

theorem turnStart_step {event out : StoredFields}
    (h : migrateLegacyTurnStartEvent event id = .ok out) (htype : hasType event "turn/start" = true) :
    NoTrigger out ∧ (out = event ∨ ∃ data, out = withField event "data" data) := by
  unfold migrateLegacyTurnStartEvent at h
  rw [htype] at h
  simp only [Bool.not_true, Bool.false_eq_true, if_false] at h
  split at h
  · next hnone =>
    cases h
    refine ⟨fun data hdata => ?_, .inl rfl⟩
    rw [hnone] at hdata
    cases hdata
  next data hdata =>
  split_ifs at h with htrigger
  · cases h
    refine ⟨fun data' hdata' => ?_, .inl rfl⟩
    rw [hdata] at hdata'
    cases hdata'
    simpa using htrigger
  split at h
  · next turn trigger hturn _ =>
    split_ifs at h
    · cases h
    cases h
    refine ⟨fun data' hdata' => ?_, .inr ⟨_, rfl⟩⟩
    rw [get?_withField, if_pos rfl] at hdata'
    cases hdata'
    rfl
  · cases h

/-! ## Turn ends -/

theorem hasOnlyKeys_withField {record : StoredFields} {required optionalKeys : List JsString}
    (h : hasOnlyKeys record required optionalKeys = true) {key : JsString} (hkey : key ∈ required)
    (value : Json) : hasOnlyKeys (withField record key value) required optionalKeys = true := by
  unfold hasOnlyKeys at h ⊢
  rw [Bool.and_eq_true, all_eq_true, all_eq_true] at h ⊢
  obtain ⟨hallowed, hrequired⟩ := h
  refine ⟨fun field hfield => ?_, fun key' hkey' => ?_⟩
  · rcases mem_set hfield with hold | rfl
    · exact hallowed field hold
    · rw [contains_iff_mem]
      exact mem_append_left _ hkey
  · unfold Json.hasOwn
    rw [get?_withField]
    split_ifs
    · rfl
    · exact hrequired key' hkey'

theorem upgradeReason_replaced {kind : JsString} {reason current : StoredFields}
    (h : upgradeReason kind reason = .replaced current) :
    ∃ kind', Json.get? "kind" current = some (.str kind') ∧ upgradeReason kind' current = .current := by
  have herror : upgradeErrorReason reason = .replaced current →
      ∃ error, current = ([("kind", .str "error"), ("error", error)] : StoredFields) := by
    intro h
    unfold upgradeErrorReason at h
    split at h
    · cases h
    split at h
    · cases h
    dsimp only at h
    split at h
    · cases h
      exact ⟨_, rfl⟩
    generalize hasOnlyKeys reason (if Json.hasOwn reason "code" = true then
      ["kind", "step", "message", "code"] else ["kind", "step", "message"]) [] = fits at h
    split at h
    · split at h
      · cases h
        exact ⟨_, rfl⟩
      · cases h
    · split at h
      · cases h
        exact ⟨_, rfl⟩
      · cases h
    · cases h
  unfold upgradeReason at h
  dsimp only at h
  split_ifs at h
  · cases h
    exact ⟨"aborted", rfl, rfl⟩
  · cases h
    exact ⟨"aborted", rfl, rfl⟩
  · obtain ⟨error, rfl⟩ := herror h
    exact ⟨"error", rfl, rfl⟩

theorem turnEnd_step {event out : StoredFields}
    (h : migrateLegacyTurnEndEvent event id = .ok out) (htype : hasType event "turn/end" = true) :
    (∀ id', migrateLegacyTurnEndEvent out id' = .ok out) ∧
      (out = event ∨ ∃ data, out = withField event "data" data) := by
  unfold migrateLegacyTurnEndEvent at h
  rw [htype] at h
  simp only [Bool.not_true, Bool.false_eq_true, if_false] at h
  split at h
  · next hnone =>
    cases h
    refine ⟨fun id' => ?_, .inl rfl⟩
    unfold migrateLegacyTurnEndEvent
    rw [htype, hnone]
    rfl
  next data hdata =>
  split at h
  · cases h
  next reason hreason =>
  split_ifs at h with hshape
  · cases h
  split at h
  · next kind hkind =>
    split at h
    · next hcurrent =>
      cases h
      refine ⟨fun id' => ?_, .inl rfl⟩
      unfold migrateLegacyTurnEndEvent
      rw [htype, hdata]
      simp only [Bool.not_true, Bool.false_eq_true, if_false, hreason, hshape, hkind, hcurrent]
    · cases h
    next current hreplaced =>
    cases h
    refine ⟨fun id' => ?_, .inr ⟨_, rfl⟩⟩
    obtain ⟨kind', hkind', hcurrent⟩ := upgradeReason_replaced hreplaced
    have hturn : Json.get? "turn" (withField data "reason" (.obj current)) =
        Json.get? "turn" data := by
      rw [get?_withField, if_neg (by decide)]
    simp only [Bool.or_eq_true, Bool.not_eq_true', not_or, Bool.not_eq_false] at hshape
    have hmem : ("reason" : JsString) ∈ (["turn", "reason"] : List JsString) := by simp
    have hkeys := hasOnlyKeys_withField hshape.2 hmem (.obj current)
    unfold migrateLegacyTurnEndEvent
    rw [hasType_withField (by decide), htype, get?_withField, if_pos rfl]
    simp only [Bool.not_true, Bool.false_eq_true, if_false, asRecord, hturn, hshape.1, hkeys,
      Bool.or_false, get?_withField, if_true, hkind', hcurrent]
  · cases h

/-! ## One event -/

/-- An event with other data, at the same place of the log. -/
def SamePlace (event out : StoredFields) : Prop :=
  ∀ key : JsString, key ≠ "type" → key ≠ "data" → Json.get? key out = Json.get? key event

theorem SamePlace.withData (event : StoredFields) (data : Json) :
    SamePlace event (withField event "data" data) := fun key _ hdata => by
  rw [get?_withField, if_neg hdata]

theorem SamePlace.of_step {event out : StoredFields}
    (h : out = event ∨ ∃ data, out = withField event "data" data) : SamePlace event out := by
  rcases h with rfl | ⟨data, rfl⟩
  · exact fun _ _ _ => rfl
  · exact .withData event data

theorem message_place (event : StoredFields) (id : JsString) (messageIds : MessageIds) :
    migrateLegacyMessageEvent event id messageIds = event ∨
      ∃ data, migrateLegacyMessageEvent event id messageIds = withField event "data" data := by
  unfold migrateLegacyMessageEvent
  split
  · exact .inl rfl
  split_ifs
  · exact .inl rfl
  · exact .inr ⟨_, rfl⟩
  · split
    · exact .inr ⟨_, rfl⟩
    · exact .inl rfl
  · split
    · exact .inr ⟨_, rfl⟩
    · exact .inl rfl
  · exact .inl rfl

theorem hasType_of_step {event out : StoredFields}
    (h : out = event ∨ ∃ data, out = withField event "data" data) (type : JsString) :
    hasType out type = hasType event type := by
  rcases h with rfl | ⟨data, rfl⟩
  · rfl
  · exact hasType_withField (by decide) data type

/-- A steering message becomes a user message. -/
theorem steering_step {event out : StoredFields}
    (h : migrateLegacySteeringEvent event id = .ok out) (htype : hasType event "steering/message" = true) :
    hasType out "user/message" = true ∧ SamePlace event out := by
  have hplaced : ∀ data, hasType (withField (withField event "type" (.str "user/message")) "data" data)
      "user/message" = true ∧
        SamePlace event (withField (withField event "type" (.str "user/message")) "data" data) := by
    intro data
    refine ⟨?_, fun key htype hdata => ?_⟩
    · rw [hasType_withField (by decide), hasType_iff, get?_withField, if_pos rfl]
    · rw [get?_withField, if_neg hdata, get?_withField, if_neg htype]
  unfold migrateLegacySteeringEvent at h
  rw [htype] at h
  simp only [Bool.not_true, Bool.false_eq_true, if_false] at h
  split at h
  · cases h
  split at h
  · cases h
    exact hplaced _
  split_ifs at h
  · cases h
  · cases h
    exact hplaced _

variable {messageIds : MessageIds}

/-- Upgraded and checked, an event is settled, in its place, and of the same type unless
it was a steering message. -/
theorem migrateEvent_settled {event out : StoredFields}
    (h : migrateEvent id messageIds event = .ok out)
    (hcheck : assertMessageEventShape out subject = .ok ()) :
    Settled out ∧ SamePlace event out ∧
      (hasType event "steering/message" = true ∧ hasType out "user/message" = true ∨
        ∀ type, hasType out type = hasType event type) := by
  unfold migrateEvent at h
  by_cases hstart : hasType event "turn/start" = true
  · have hother : ∀ type' : JsString, "turn/start" ≠ type' → hasType event type' = false :=
      fun type' hne => hasType_other hstart hne
    obtain ⟨started, hmigrated, h⟩ := Except.bind_eq_ok.mp h
    obtain ⟨hkept, hstep⟩ := turnStart_step hmigrated hstart
    have hsame := hasType_of_step hstep
    have hend := (hsame _).trans (hother "turn/end" (by decide))
    have hsteering := (hsame _).trans (hother "steering/message" (by decide))
    have huser := (hsame _).trans (hother "user/message" (by decide))
    have hassistant := (hsame _).trans (hother "assistant/message" (by decide))
    have htool := (hsame _).trans (hother "tool/result" (by decide))
    simp only [hmigrated, turnEnd_other hend, steering_other hsteering,
      message_other huser hassistant htool, bind, Except.bind, pure, Except.pure] at h
    cases h
    refine ⟨⟨fun id' messageIds' => ?_, shape_other huser hassistant htool⟩, .of_step hstep, .inr hsame⟩
    rw [migrateEvent_eq (turnStart_kept hkept id') (turnEnd_other hend id')
      (steering_other hsteering id'), message_other huser hassistant htool]
  · rw [Bool.not_eq_true] at hstart
    by_cases hend : hasType event "turn/end" = true
    · have hother : ∀ type' : JsString, "turn/end" ≠ type' → hasType event type' = false :=
        fun type' hne => hasType_other hend hne
      cases hmigrated : migrateLegacyTurnEndEvent event id with
      | error e =>
        simp only [turnStart_other hstart, hmigrated, bind, Except.bind] at h
        cases h
      | ok ended =>
        obtain ⟨hkept, hstep⟩ := turnEnd_step hmigrated hend
        have hsame := hasType_of_step hstep
        have hstart' := (hsame _).trans hstart
        have hsteering := (hsame _).trans (hother "steering/message" (by decide))
        have huser := (hsame _).trans (hother "user/message" (by decide))
        have hassistant := (hsame _).trans (hother "assistant/message" (by decide))
        have htool := (hsame _).trans (hother "tool/result" (by decide))
        simp only [turnStart_other hstart, hmigrated, steering_other hsteering,
          message_other huser hassistant htool, bind, Except.bind, pure, Except.pure] at h
        cases h
        refine ⟨⟨fun id' messageIds' => ?_, shape_other huser hassistant htool⟩, .of_step hstep,
          .inr hsame⟩
        rw [migrateEvent_eq (turnStart_other hstart' id') (hkept id') (steering_other hsteering id'),
          message_other huser hassistant htool]
    · rw [Bool.not_eq_true] at hend
      simp only [turnStart_other hstart, turnEnd_other hend, bind, Except.bind] at h
      by_cases hsteering : hasType event "steering/message" = true
      · cases hmigrated : migrateLegacySteeringEvent event id with
        | error e =>
          rw [hmigrated] at h
          cases h
        | ok steered =>
          obtain ⟨huser, hplace⟩ := steering_step hmigrated hsteering
          rw [hmigrated] at h
          cases h
          have hstep := message_place steered id messageIds
          have huser' := (hasType_of_step hstep "user/message").trans huser
          refine ⟨settled_of_message huser' (by decide) hcheck, fun key htype hdata => ?_,
            .inl ⟨hsteering, huser'⟩⟩
          rw [SamePlace.of_step hstep key htype hdata, hplace key htype hdata]
      · rw [Bool.not_eq_true] at hsteering
        simp only [steering_other hsteering, pure, Except.pure] at h
        cases h
        have hstep := message_place event id messageIds
        have hsame := hasType_of_step hstep
        refine ⟨?_, .of_step hstep, .inr hsame⟩
        by_cases huser : hasType event "user/message" = true
        · exact settled_of_message ((hsame _).trans huser) (by decide) hcheck
        by_cases hassistant : hasType event "assistant/message" = true
        · exact settled_of_message ((hsame _).trans hassistant) (by decide) hcheck
        by_cases htool : hasType event "tool/result" = true
        · exact settled_of_message ((hsame _).trans htool) (by decide) hcheck
        rw [Bool.not_eq_true] at huser hassistant htool
        exact settled_of_other ((hsame _).trans hstart) ((hsame _).trans hend)
          ((hsame _).trans hsteering) ((hsame _).trans huser) ((hsame _).trans hassistant)
          ((hsame _).trans htool)

/-! ## Supported vocabulary -/

/-- A request header that is no retired one. -/
def SupportedHeader (event : StoredFields) : Prop :=
  hasType event "request/header" = true →
    ∃ data, Json.get? "data" event = some data ∧ (∀ fields, data = .obj fields →
      isText (Json.get? "reason" fields) "fallback" = false) ∧ data ≠ .null

/-- An event of a vocabulary that can be replayed. -/
structure Supported (event : StoredFields) : Prop where
  delta : hasType event "request/header-delta" = false
  mode : hasType event "mode/set" = false
  header : SupportedHeader event

theorem isText_member {data : Json} {key text : JsString} :
    isText (data.member key) text = true ↔ ∃ fields, data = .obj fields ∧
      isText (Json.get? key fields) text = true := by
  cases data with
  | obj fields => exact ⟨fun h => ⟨fields, rfl, h⟩, fun ⟨_, heq, h⟩ => by cases heq; exact h⟩
  | null => exact ⟨fun h => (by cases h), fun ⟨_, heq, _⟩ => (by cases heq)⟩
  | bool b => exact ⟨fun h => (by cases h), fun ⟨_, heq, _⟩ => (by cases heq)⟩
  | num n => exact ⟨fun h => (by cases h), fun ⟨_, heq, _⟩ => (by cases heq)⟩
  | str s => exact ⟨fun h => (by cases h), fun ⟨_, heq, _⟩ => (by cases heq)⟩
  | arr items => exact ⟨fun h => (by cases h), fun ⟨_, heq, _⟩ => (by cases heq)⟩

theorem findFallback_none_iff {events : List StoredFields} :
    findFallback events = .ok none ↔ ∀ event ∈ events, SupportedHeader event := by
  induction events with
  | nil => simp [findFallback]
  | cons event rest ih =>
    rw [forall_mem_cons, ← ih, findFallback]
    by_cases htype : hasType event "request/header" = true
    · rw [if_pos htype]
      split
      · next hnone =>
        refine ⟨fun h => (by cases h), fun ⟨hsupported, _⟩ => ?_⟩
        obtain ⟨data, hdata, -⟩ := hsupported htype
        rw [hnone] at hdata
        cases hdata
      · next hnull =>
        refine ⟨fun h => (by cases h), fun ⟨hsupported, _⟩ => ?_⟩
        obtain ⟨data, hdata, -, hne⟩ := hsupported htype
        rw [hnull] at hdata
        cases hdata
        exact absurd rfl hne
      · next data hnull hdata =>
        split_ifs with hfallback
        · refine ⟨fun h => (by cases h), fun ⟨hsupported, _⟩ => ?_⟩
          obtain ⟨data', hdata', hreason, -⟩ := hsupported htype
          rw [hdata] at hdata'
          cases hdata'
          obtain ⟨fields, rfl, htext⟩ := isText_member.mp hfallback
          rw [hreason fields rfl] at htext
          cases htext
        · refine ⟨fun h => ⟨fun _ => ⟨data, hdata, fun fields heq => ?_, fun heq => ?_⟩, h⟩,
            fun ⟨_, h⟩ => h⟩
          · rw [Bool.eq_false_iff]
            exact fun htext => hfallback (isText_member.mpr ⟨fields, heq, htext⟩)
          · exact hnull heq
    · rw [if_neg htype]
      exact ⟨fun h => ⟨fun h' => absurd h' htype, h⟩, fun ⟨_, h⟩ => h⟩

theorem assertSupportedEvents_iff {events : List StoredFields} (id : JsString) :
    assertSupportedEvents events id = .ok () ↔ ∀ event ∈ events, Supported event := by
  unfold assertSupportedEvents
  split
  · next legacy hlegacy =>
    refine ⟨fun h => (by cases h), fun h => ?_⟩
    have htype := find?_some hlegacy
    rw [(h legacy (mem_of_find?_eq_some hlegacy)).delta] at htype
    cases htype
  next hdelta =>
  split
  · next legacy hlegacy =>
    refine ⟨fun h => (by cases h), fun h => ?_⟩
    have htype := find?_some hlegacy
    rw [(h legacy (mem_of_find?_eq_some hlegacy)).mode] at htype
    cases htype
  next hmode =>
  rw [find?_eq_none] at hdelta hmode
  have hheaders : findFallback events = .ok none ↔ ∀ event ∈ events, SupportedHeader event :=
    findFallback_none_iff
  cases hfind : findFallback events with
  | error e =>
    refine ⟨fun h => (by cases h), fun h => ?_⟩
    rw [hfind] at hheaders
    cases hheaders.mpr fun event hevent => (h event hevent).header
  | ok found =>
    cases found with
    | some fallback =>
      refine ⟨fun h => (by cases h), fun h => ?_⟩
      rw [hfind] at hheaders
      cases hheaders.mpr fun event hevent => (h event hevent).header
    | none =>
      refine ⟨fun _ event hevent => ⟨?_, ?_, hheaders.mp hfind event hevent⟩, fun _ => rfl⟩
      · simpa using hdelta event hevent
      · simpa using hmode event hevent

/-- An upgrade does not make an event unsupported. -/
theorem supported_of_migrated {event out : StoredFields} (h : Supported event)
    (hkept : hasType event "request/header" = true → out = event)
    (htypes : hasType event "steering/message" = true ∧ hasType out "user/message" = true ∨
      ∀ type, hasType out type = hasType event type) : Supported out := by
  rcases htypes with ⟨-, huser⟩ | hsame
  · have hother : ∀ type' : JsString, "user/message" ≠ type' → hasType out type' = false :=
      fun type' hne => hasType_other huser hne
    refine ⟨hother _ (by decide), hother _ (by decide), fun hheader => ?_⟩
    rw [hother _ (by decide)] at hheader
    cases hheader
  · refine ⟨(hsame _).trans h.delta, (hsame _).trans h.mode, fun hheader => ?_⟩
    have hevent := (hsame _).symm.trans hheader
    rw [hkept hevent]
    exact h.header hevent

/-- A request header is of no upgraded type. -/
theorem migrateEvent_header {event out : StoredFields}
    (htype : hasType event "request/header" = true) (h : migrateEvent id messageIds event = .ok out) :
    out = event := by
  have hother : ∀ type' : JsString, "request/header" ≠ type' → hasType event type' = false :=
    fun type' hne => hasType_other htype hne
  have hkept := (settled_of_other (hother _ (by decide)) (hother _ (by decide)) (hother _ (by decide))
    (hother _ (by decide)) (hother _ (by decide)) (hother _ (by decide))).kept id messageIds
  rw [hkept] at h
  cases h
  rfl

/-! ## Logs -/

theorem adoptSessionEvent_iff {event out : StoredFields} :
    adoptSessionEvent event = .ok out ↔
      (∃ subject, assertMessageEventShape event subject = .ok ()) ∧ out = event := by
  unfold adoptSessionEvent
  cases hcheck : assertMessageEventShape event s!"session event at seq {seqText event}" with
  | error e =>
    refine ⟨fun h => (by cases h), fun ⟨⟨subject, h⟩, _⟩ => ?_⟩
    rw [shape_subject h] at hcheck
    cases hcheck
  | ok checked =>
    refine ⟨fun h => ?_, fun ⟨_, heq⟩ => heq ▸ rfl⟩
    cases h
    exact ⟨⟨_, hcheck⟩, rfl⟩

/-- The mapping, entry by entry. -/
inductive Migrated (id : JsString) : MessageIds → List StoredFields → List StoredFields → Prop where
  | nil (messageIds : MessageIds) : Migrated id messageIds [] []
  | cons {messageIds event out events outs subject} : migrateEvent id messageIds event = .ok out →
      assertMessageEventShape out subject = .ok () →
      Migrated id (noteMessageId messageIds out) events outs →
      Migrated id messageIds (event :: events) (out :: outs)

variable {events outs : List StoredFields}

theorem snapshotFrom_iff :
    snapshotFrom id messageIds events = .ok outs ↔ Migrated id messageIds events outs := by
  induction events generalizing messageIds outs with
  | nil =>
    refine ⟨fun h => ?_, fun h => ?_⟩
    · cases h
      exact .nil messageIds
    · cases h
      rfl
  | cons event rest ih =>
    unfold snapshotFrom
    refine ⟨fun h => ?_, fun h => ?_⟩
    · obtain ⟨migrated, hmigrated, h⟩ := Except.bind_eq_ok.mp h
      cases hadopted : adoptSessionEvent migrated with
      | error e =>
        simp only [snapshotSessionEvent, structuredClone, hadopted, bind, Except.bind] at h
        cases h
      | ok out =>
        simp only [snapshotSessionEvent, structuredClone, hadopted, bind, Except.bind] at h
        obtain ⟨⟨subject, hcheck⟩, rfl⟩ := adoptSessionEvent_iff.mp hadopted
        split at h
        · cases h
        rename_i later hlater
        cases h
        exact .cons hmigrated hcheck (ih.mp hlater)
    · cases h with
      | @cons _ _ out _ outs subject hmigrated hcheck hrest =>
        simp only [hmigrated, snapshotSessionEvent, structuredClone,
          adoptSessionEvent_iff.mpr ⟨⟨subject, hcheck⟩, rfl⟩, ih.mpr hrest, bind, Except.bind, pure,
          Except.pure]

/-- The loop in place writes what the mapping returns. -/
theorem adoptFrom_eq (id : JsString) (messageIds : MessageIds) (done rest : List StoredFields) :
    adoptFrom id messageIds (done ++ rest) done.length rest.length =
      (snapshotFrom id messageIds rest).map (done ++ ·) := by
  induction rest generalizing messageIds done with
  | nil => rfl
  | cons event rest ih =>
    have hentry : (done ++ event :: rest)[done.length]? = some event := by
      rw [getElem?_append_right (Nat.le_refl _), Nat.sub_self]
      rfl
    rw [length_cons]
    unfold adoptFrom snapshotFrom
    rw [hentry]
    dsimp only
    cases migrateEvent id messageIds event with
    | error e => rfl
    | ok migrated =>
      simp only [snapshotSessionEvent, structuredClone, bind, Except.bind]
      cases adoptSessionEvent migrated with
      | error e => rfl
      | ok adopted =>
        dsimp only
        have hset : (done ++ event :: rest).set done.length adopted = done ++ [adopted] ++ rest := by
          rw [set_append_right _ _ (Nat.le_refl _), Nat.sub_self, append_assoc]
          rfl
        have hlength : done.length + 1 = (done ++ [adopted]).length := by simp
        rw [hset, hlength, ih]
        cases snapshotFrom id (noteMessageId messageIds adopted) rest with
        | error e => rfl
        | ok later => simp [Except.map, pure, Except.pure]

/-- The adopting path gives what the snapshot path gives, refusals included. -/
theorem adoptStoredEvents_eq (events : List StoredFields) (id : JsString) :
    adoptStoredEvents events id = snapshotStoredEvents events id := by
  unfold adoptStoredEvents snapshotStoredEvents
  have hloop := adoptFrom_eq id [] [] events
  rw [nil_append, length_nil] at hloop
  rw [hloop]
  cases assertSupportedEvents events id with
  | error e => rfl
  | ok _ =>
    simp only [bind, Except.bind]
    cases snapshotFrom id [] events <;> rfl

theorem Migrated.of_settled {events : List StoredFields}
    (h : ∀ event ∈ events, Settled event) : Migrated id messageIds events events := by
  induction events generalizing messageIds with
  | nil => exact .nil messageIds
  | cons event rest ih =>
    have hevent := h event mem_cons_self
    exact .cons (hevent.kept id messageIds) (hevent.checked "")
      (ih fun e he => h e (mem_cons_of_mem _ he))

section

variable (h : Migrated id messageIds events outs)
include h

theorem Migrated.settled : ∀ out ∈ outs, Settled out := by
  induction h with
  | nil => simp
  | cons hmigrated hcheck _ ih =>
    rw [forall_mem_cons]
    exact ⟨(migrateEvent_settled hmigrated hcheck).1, ih⟩

theorem Migrated.samePlace : List.Forall₂ SamePlace events outs := by
  induction h with
  | nil => exact .nil
  | cons hmigrated hcheck _ ih => exact .cons (migrateEvent_settled hmigrated hcheck).2.1 ih

theorem Migrated.supported (hevents : ∀ event ∈ events, Supported event) :
    ∀ out ∈ outs, Supported out := by
  induction h with
  | nil => simp
  | cons hmigrated hcheck _ ih =>
    rw [forall_mem_cons] at hevents ⊢
    refine ⟨?_, ih hevents.2⟩
    exact supported_of_migrated hevents.1 (fun htype => migrateEvent_header htype hmigrated)
      (migrateEvent_settled hmigrated hcheck).2.2

end

theorem snapshotStoredEvents_iff : snapshotStoredEvents events id = .ok outs ↔
      (∀ event ∈ events, Supported event) ∧ Migrated id [] events outs := by
  rw [← snapshotFrom_iff, ← assertSupportedEvents_iff id]
  unfold snapshotStoredEvents
  cases assertSupportedEvents events id with
  | error e => exact ⟨fun h => (by cases h), fun ⟨h, _⟩ => (by cases h)⟩
  | ok _ => exact ⟨fun h => ⟨rfl, h⟩, fun ⟨_, h⟩ => h⟩

/-! ## Current logs -/

/-- A turn ending as the loop and the repair write it: a positive turn and one of the
reasons of `TurnEndReasonMap`, or one that a plugin merged into it. -/
structure CurrentEnding (data : StoredFields) : Prop where
  turn : isSafeFrom 1 (Json.get? "turn" data) = true
  keys : hasOnlyKeys data ["turn", "reason"] [] = true
  reason : ∃ kind reason, asRecord (Json.get? "reason" data) = some reason ∧
    Json.get? "kind" reason = some (.str kind) ∧ kind ≠ "disposed" ∧
    ((kind = "completed" ∨ kind = "blocked" ∨ kind = "max-tokens" ∨ kind = "interrupted") →
      hasOnlyKeys reason ["kind"] [] = true) ∧
    (kind = "aborted" → Json.hasOwn reason "reason" = true) ∧
    (kind = "error" → Json.hasOwn reason "error" = true)

structure CurrentEvent (event : StoredFields) : Prop where
  supported : Supported event
  steering : hasType event "steering/message" = false
  turnStart : hasType event "turn/start" = true → NoTrigger event
  turnEnd : hasType event "turn/end" = true →
    ∃ data, asRecord (Json.get? "data" event) = some data ∧ CurrentEnding data
  message : ∀ subject, assertMessageEventShape event subject = .ok ()

theorem upgradeReason_current {kind : JsString} {reason : StoredFields} (hdisposed : kind ≠ "disposed")
    (honly : (kind = "completed" ∨ kind = "blocked" ∨ kind = "max-tokens" ∨ kind = "interrupted") →
      hasOnlyKeys reason ["kind"] [] = true)
    (haborted : kind = "aborted" → Json.hasOwn reason "reason" = true)
    (herror : kind = "error" → Json.hasOwn reason "error" = true) :
    upgradeReason kind reason = .current := by
  unfold upgradeReason
  by_cases hsimple : kind = "completed" ∨ kind = "blocked" ∨ kind = "max-tokens" ∨ kind = "interrupted"
  · simp only [if_pos hsimple, honly hsimple, if_true]
  rw [if_neg hsimple]
  by_cases habort : kind = "aborted"
  · simp only [if_pos habort, haborted habort, if_true]
  rw [if_neg habort, if_neg hdisposed]
  by_cases hfail : kind = "error"
  · rw [if_pos hfail]
    unfold upgradeErrorReason
    rw [if_pos (herror hfail)]
  · rw [if_neg hfail]

theorem CurrentEvent.settled (h : CurrentEvent event) : Settled event := by
  refine ⟨fun id messageIds => ?_, h.message⟩
  have hstart : migrateLegacyTurnStartEvent event id = .ok event := by
    by_cases htype : hasType event "turn/start" = true
    · exact turnStart_kept (h.turnStart htype) id
    · exact turnStart_other (by simpa using htype) id
  have hend : migrateLegacyTurnEndEvent event id = .ok event := by
    by_cases htype : hasType event "turn/end" = true
    · obtain ⟨data, hdata, hending⟩ := h.turnEnd htype
      obtain ⟨kind, reason, hreason, hkind, hdisposed, honly, haborted, herror⟩ := hending.reason
      unfold migrateLegacyTurnEndEvent
      simp only [htype, Bool.not_true, Bool.false_eq_true, if_false, hdata, hreason, hending.turn,
        hending.keys, Bool.or_self, hkind, upgradeReason_current hdisposed honly haborted herror]
    · exact turnEnd_other (by simpa using htype) id
  rw [migrateEvent_eq hstart hend (steering_other h.steering id), message_current (h.message "")]

/-! ## The contract -/

/-- The migration leaves a log of current events alone; migrating a migrated log changes
nothing; events keep their number, their order and, type and data apart, their envelopes;
and both paths give the same events. -/
theorem migration_contract (events : List StoredFields) (id : JsString) :
    ((∀ event ∈ events, CurrentEvent event) → snapshotStoredEvents events id = .ok events) ∧
      (∀ outs, snapshotStoredEvents events id = .ok outs →
        snapshotStoredEvents outs id = .ok outs ∧ outs.length = events.length ∧
          outs.map (Json.get? "seq") = events.map (Json.get? "seq") ∧
          List.Forall₂ SamePlace events outs) ∧
      adoptStoredEvents events id = snapshotStoredEvents events id := by
  refine ⟨fun h => ?_, fun outs houts => ?_, adoptStoredEvents_eq events id⟩
  · exact snapshotStoredEvents_iff.mpr
      ⟨fun event hevent => (h event hevent).supported, .of_settled fun event hevent => (h event hevent).settled⟩
  obtain ⟨hsupported, hmigrated⟩ := snapshotStoredEvents_iff.mp houts
  have hplaces := hmigrated.samePlace
  refine ⟨?_, hplaces.length_eq.symm, ?_, hplaces⟩
  · exact snapshotStoredEvents_iff.mpr ⟨hmigrated.supported hsupported, .of_settled hmigrated.settled⟩
  clear houts hmigrated hsupported
  induction hplaces with
  | nil => rfl
  | cons hplace _ ih =>
    rw [map_cons, map_cons, ih, hplace "seq" (by decide) (by decide)]

end StoredEvents
end Harness
