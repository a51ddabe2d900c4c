-- SUMMARY: The compaction trace along one bracket: its start, summary, checkpoint and end, and the events of others meanwhile.
import Harness.Compaction.GuardedSteps

namespace Harness

open Json (get? ofNat)

namespace RegionCall

variable (call : RegionCall)

/-- The bracket of a call, as the validator remembers it. -/
def bracket (startSeq : Nat) (turn : Option Nat) (summarized : Bool) : CompactionTrace where
  compactionId := call.compactionId.val
  sourceCommandId := call.sourceCommandId.map (·.val)
  startSeq
  turn
  summarized

/-! ## What the payloads of a call hold -/

theorem lifecycle_id (turn : Option Nat) (rest : List (JsString × Json)) :
    (Json.obj (call.lifecycle turn ++ rest)).property "compactionId" =
      some (.str call.compactionId.val) := rfl

theorem lifecycle_command (turn : Option Nat) (rest : List (JsString × Json)) :
    (Json.obj (call.lifecycle turn ++ rest)).property "sourceCommandId" =
      call.sourceCommandId.elim (get? "sourceCommandId" rest) fun id => some (.str id.val) := by
  unfold lifecycle commandField
  cases call.sourceCommandId <;> rfl

theorem lifecycle_turn (turn : Option Nat) (rest : List (JsString × Json)) :
    (Json.obj (call.lifecycle turn ++ rest)).property "turn" = some (ownerJson turn) := by
  unfold lifecycle commandField
  cases call.sourceCommandId <;> rfl

theorem readOwner_ownerJson (turn : Option Nat) :
    readOwner (some (ownerJson turn)) = CompactionOwner.ofTurn turn := by
  cases turn with
  | none => rfl
  | some n =>
    simp [ownerJson, readOwner, ofNat, CompactionOwner.ofTurn]

end RegionCall

namespace CompactionSessionTrace

theorem validateId_str (id : NonEmptyId) (label : String) :
    validateId (some (.str id.val)) label = .ok id.val := by
  unfold validateId
  simp [id.property]

/-- The command identity a payload of the call carries. -/
theorem readCommandId_call (id : Option NonEmptyId) (label : String) :
    readCommandId (id.elim none fun id => some (.str id.val)) label =
      .ok (id.map (·.val)) := by
  cases id with
  | none => rfl
  | some id =>
    simp only [Option.elim, readCommandId, validateId_str]
    rfl

theorem validateSourceCommandId_call (id : Option NonEmptyId) (eventType : String) :
    validateSourceCommandId eventType (id.elim none fun id => some (.str id.val))
      (id.map (·.val)) = .ok () := by
  unfold validateSourceCommandId
  rw [readCommandId_call]
  simp

theorem validateOwner_ofTurn (turn : Option Nat) (eventType : String) :
    validateOwner (.ofTurn turn) turn eventType = .ok () := by
  cases turn <;> simp [CompactionOwner.ofTurn, validateOwner]

/-! ## One event of the bracket -/

/-- Another package's event is no turn boundary. -/
theorem advance_other {c : CompactionSessionTrace} {event : SessionEvent} {type : JsString}
    {data : Json} {merged : type ∉ coreEventTypes} (hdata : event.data = .other type data merged) :
    c.advance event =
      match c.validateCompactionEvent event with
      | .error e => .error e
      | .ok none => .ok c
      | .ok (some transition) => .ok { c with compaction := applyCompactionTransition transition } := by
  unfold advance validateTurnBoundary applyTurnBoundary
  simp only [hdata, bind, Except.bind]
  cases c.validateCompactionEvent event with
  | error e => rfl
  | ok transition => cases transition <;> rfl

/-- A package event that is no bracket marker leaves the trace alone. -/
theorem advance_unmarked (c : CompactionSessionTrace) (seq : Nat) (time : Int) {type : JsString}
    (data : Json) (merged : type ∉ coreEventTypes) (hstart : (type == "compaction/start") = false)
    (hsummary : (type == "compaction/summary") = false) (hend : (type == "compaction/end") = false) :
    c.advance { seq, time, data := .other type data merged } = .ok c := by
  rw [advance_other rfl]
  simp only [validateCompactionEvent, hstart, hsummary, hend, Bool.false_eq_true, if_false]

variable (call : RegionCall) {turn : Option Nat}

theorem advance_start (seq : Nat) (time : Int) :
    advance { openTurn := turn, compaction := none }
        { seq, time, data := .other "compaction/start" (.obj (call.lifecycle turn)) (by decide) } =
      .ok { openTurn := turn, compaction := some (call.bracket seq turn false) } := by
  have hid := call.lifecycle_id turn []
  have hcommand := call.lifecycle_command turn []
  have hturn := call.lifecycle_turn turn []
  rw [List.append_nil] at hid hcommand hturn
  have hstart : validateStart { openTurn := turn, compaction := none } seq
      (.obj (call.lifecycle turn)) = .ok (.start (call.bracket seq turn false)) := by
    unfold validateStart
    rw [hid, hcommand, hturn, show get? "sourceCommandId" ([] : List (JsString × Json)) = none
      from rfl, validateId_str, readCommandId_call, RegionCall.readOwner_ownerJson]
    simp only [bind, Except.bind, validateOwner_ofTurn]
    unfold RegionCall.bracket
    cases turn <;> rfl
  rw [advance_other rfl]
  simp only [validateCompactionEvent, beq_self_eq_true, if_true, hstart]
  rfl

/-- The trace inside the bracket of a call. -/
def within (startSeq : Nat) (turn : Option Nat) (summarized : Bool) : CompactionSessionTrace where
  openTurn := turn
  compaction := some (call.bracket startSeq turn summarized)

variable {startSeq : Nat} {summarized : Bool}

/-- A payload with the identities of the bracket belongs to it. -/
theorem validateMember_within {data : Json} {eventType : String}
    (hid : data.property "compactionId" = some (.str call.compactionId.val))
    (hcommand : data.property "sourceCommandId" =
      call.sourceCommandId.elim none fun id => some (.str id.val)) :
    (within call startSeq turn summarized).validateMember eventType data =
      .ok (call.bracket startSeq turn summarized) := by
  unfold validateMember
  rw [hid, hcommand, validateId_str, readCommandId_call]
  simp only [bind, Except.bind, within, RegionCall.bracket, ne_eq, not_true_eq_false, if_false,
    validateSourceCommandId_call]

theorem advance_end (seq : Nat) (time : Int) (error : Option String)
    (hsummarized : error.isSome = true ∨ summarized = true) :
    (within call startSeq turn summarized).advance
        { seq, time, data := .other "compaction/end"
            (.obj (call.lifecycle turn ++ RegionCall.errorField error)) (by decide) } =
      .ok { openTurn := turn, compaction := none } := by
  have hcommand := call.lifecycle_command turn (RegionCall.errorField error)
  rw [show get? "sourceCommandId" (RegionCall.errorField error) = none by
    cases error <;> rfl] at hcommand
  have hturn := call.lifecycle_turn turn (RegionCall.errorField error)
  have herror : ((Json.obj (call.lifecycle turn ++
      RegionCall.errorField error)).property "error").isNone = error.isNone := by
    unfold RegionCall.lifecycle RegionCall.commandField
    cases call.sourceCommandId <;> cases error <;> rfl
  have hend : (within call startSeq turn summarized).validateEnd
      (.obj (call.lifecycle turn ++ RegionCall.errorField error)) = .ok .end_ := by
    unfold validateEnd
    rw [validateMember_within call (call.lifecycle_id turn _) hcommand, hturn,
      RegionCall.readOwner_ownerJson, herror]
    simp only [bind, Except.bind, RegionCall.bracket, ne_eq, not_true_eq_false, if_false,
      within, validateOwner_ofTurn]
    rcases hsummarized with h | h
    · simp [Option.isNone_iff_eq_none, Option.isSome_iff_ne_none.mp h]
    · simp [h]
  have hstart : (("compaction/end" : JsString) == "compaction/start") = false := rfl
  have hsummary : (("compaction/end" : JsString) == "compaction/summary") = false := rfl
  rw [advance_other rfl]
  simp only [validateCompactionEvent, hstart, hsummary, Bool.false_eq_true, if_false,
    beq_self_eq_true, if_true, hend]
  rfl

/-- The shadowed range of a payload is that of its seqs, and its count is a safe integer. -/
theorem validateShadowed_ok {data : Json} {start end_ count : Nat} {seqs : List Nat}
    (hseqs : data.property "shadowedSeqs" = some (.arr (seqs.map ofNat)))
    (hrange : data.property "shadowedRange" =
      some (.obj [("start", ofNat start), ("end", ofNat end_)]))
    (hcount : data.property "shadowedTokenCount" = some (ofNat count))
    (hhead : seqs.head? = some start) (hlast : seqs.getLast? = some end_)
    (hsafe : count ≤ maxSafeInteger) : validateShadowed data = .ok () := by
  have hne : (seqs.map ofNat).length ≠ 0 := by
    rw [List.length_map]
    intro h
    rw [List.length_eq_zero_iff.mp h] at hhead
    cases hhead
  have hsafe' : (ofNat count).asSafeInteger = some (count : Int) := by
    have hint : isSafeInt (count : Int) = true := by
      simp only [isSafeInt, decide_eq_true_eq]
      omega
    simp [Json.asSafeInteger, ofNat, Num.asSafeInteger, hint]
  have hself : ∀ n : Nat, (ofNat n).strictEqual (ofNat n) = true := by
    intro n
    simp [ofNat, Json.strictEqual]
  unfold validateShadowed
  rw [hseqs, hrange, hcount]
  simp only [beq_iff_eq, hne, if_false, List.head?_map, hhead, List.getLast?_map, hlast,
    Option.map_some, Option.bind_some, hsafe']
  have hstart : (Json.obj [("start", ofNat start), ("end", ofNat end_)]).property
      "start" = some (ofNat start) := rfl
  have hend : (Json.obj [("start", ofNat start), ("end", ofNat end_)]).property
      "end" = some (ofNat end_) := rfl
  simp only [hstart, hend, hself, Bool.not_true, Bool.or_self, Bool.false_eq_true, if_false]
  rw [if_neg (by omega)]

theorem advance_summary {prepared : PreparedCompaction} (result : SummaryResult)
    (provenance : SummaryProvenance) (seq : Nat) (time : Int)
    (hhead : prepared.shadowedSeqs.head? = some prepared.start)
    (hlast : prepared.shadowedSeqs.getLast? = some prepared.end_)
    (hsafe : prepared.shadowedTokenCount ≤ maxSafeInteger) :
    (within call startSeq turn false).advance
        { seq, time, data := .other "compaction/summary"
            (call.summaryData prepared result provenance) (by decide) } =
      .ok (within call startSeq turn true) := by
  have hcommand : (call.summaryData prepared result provenance).property "sourceCommandId" =
      call.sourceCommandId.elim none fun id => some (.str id.val) := by
    unfold RegionCall.summaryData RegionCall.commandField
    cases call.sourceCommandId <;> cases provenance.rawOutput <;>
      cases provenance.llmStreamCall <;> cases provenance.maxTokens <;>
      cases provenance.usage <;> rfl
  have hshadowed : validateShadowed (call.summaryData prepared result provenance) = .ok () := by
    refine validateShadowed_ok ?_ ?_ ?_ hhead hlast hsafe
    all_goals
      unfold RegionCall.summaryData RegionCall.commandField
      cases call.sourceCommandId <;> cases provenance.rawOutput <;>
        cases provenance.llmStreamCall <;> rfl
  have hvalid : (within call startSeq turn false).validateSummary
      (call.summaryData prepared result provenance) =
        .ok (.summary (call.bracket startSeq turn true)) := by
    unfold validateSummary
    rw [validateMember_within call rfl hcommand]
    simp only [bind, Except.bind, RegionCall.bracket, within, validateOwner_ofTurn,
      Bool.false_eq_true, if_false, hshadowed]
  have hstart : (("compaction/summary" : JsString) == "compaction/start") = false := rfl
  rw [advance_other rfl]
  simp only [validateCompactionEvent, hstart, Bool.false_eq_true, if_false,
    beq_self_eq_true, if_true, hvalid]
  rfl

/-- The checkpoint of the call is the one its bracket waits for. -/
theorem advance_checkpoint (result : SummaryResult) (event : SessionEvent)
    (hdata : event.data = .userMessage (call.checkpointMessage result)) :
    (within call startSeq turn summarized).advance event =
      .ok (within call startSeq turn summarized) := by
  have hcommand : sourceProperty "sourceCommandId" call.compactCheckpointSource =
      call.sourceCommandId.elim none fun id => some (.str id.val) := by
    unfold RegionCall.compactCheckpointSource sourceProperty RegionCall.commandField
    cases call.sourceCommandId <;> rfl
  have hcheckpoint : (within call startSeq turn summarized).validateCheckpoint
      call.compactCheckpointSource = .ok () := by
    unfold validateCheckpoint
    rw [show sourceProperty "compactionId" call.compactCheckpointSource =
      some (.str call.compactionId.val) from rfl, hcommand, validateId_str, readCommandId_call]
    simp only [bind, Except.bind, within, RegionCall.bracket, ne_eq, not_true_eq_false, if_false,
      validateSourceCommandId_call]
  unfold advance validateTurnBoundary validateCompactionEvent applyTurnBoundary
  rw [hdata]
  simp only [bind, Except.bind]
  rw [show (call.checkpointMessage result).source = call.compactCheckpointSource from rfl,
    hcheckpoint]
  cases isReplacementSurfaceEvent event && isCompactCheckpointSource call.compactCheckpointSource
    <;> rfl

/-! ## Events of others -/

/-- No event of another party names the identity of a bracket, and none seeds the session. -/
def Foreign (id : JsString) : EventData → Prop
  | .sessionEndSeed => False
  | .other _ data _ => data.property "compactionId" ≠ some (.str id)
  | _ => True

theorem validateMember_foreign (startSeq : Nat) (turn : Option Nat) (summarized : Bool)
    (eventType : String) {data : Json}
    (hforeign : data.property "compactionId" ≠ some (.str call.compactionId.val)) :
    ∃ e, (within call startSeq turn summarized).validateMember eventType data = .error e := by
  unfold validateMember
  cases hid : data.property "compactionId" with
  | none => exact ⟨_, rfl⟩
  | some value =>
    cases value with
    | str id =>
      have hne : id ≠ call.compactionId.val := by
        rintro rfl
        exact hforeign hid
      cases hvalid : validateId (some (.str id)) s!"{eventType} compactionId" with
      | error e => exact ⟨e, rfl⟩
      | ok id' =>
        have hsame : id' = id := by
          unfold validateId at hvalid
          dsimp only at hvalid
          split at hvalid
          · cases hvalid
          · exact (Except.ok.inj hvalid).symm
        simp only [bind, Except.bind]
        cases readCommandId (data.property "sourceCommandId") s!"{eventType} sourceCommandId" with
        | error e => exact ⟨e, rfl⟩
        | ok command => exact ⟨_, if_pos (hsame ▸ hne)⟩
    | null => exact ⟨_, rfl⟩
    | bool b => exact ⟨_, rfl⟩
    | num n => exact ⟨_, rfl⟩
    | arr items => exact ⟨_, rfl⟩
    | obj fields => exact ⟨_, rfl⟩

/-- What others append while a bracket is open leaves it as it is. -/
theorem advance_foreign {event : SessionEvent} {c : CompactionSessionTrace}
    (hforeign : Foreign call.compactionId.val event.data)
    (h : (within call startSeq turn summarized).advance event = .ok c) :
    c = within call startSeq turn summarized := by
  cases hdata : event.data with
  | turnStart turn =>
    simp only [advance, validateTurnBoundary, hdata] at h
    cases h
  | turnEnd turn reason =>
    simp only [advance, validateTurnBoundary, hdata] at h
    cases h
  | sessionEndSeed =>
    rw [hdata] at hforeign
    exact hforeign.elim
  | userMessage message =>
    simp only [advance, validateTurnBoundary, validateCompactionEvent, applyTurnBoundary, hdata,
      bind, Except.bind] at h
    split at h
    · cases h
    rename_i transition htransition
    split at htransition
    · obtain ⟨u, hcheck, htransition⟩ := Except.bind_eq_ok.mp htransition
      cases htransition
      exact (Except.ok.inj h).symm
    · cases htransition
      exact (Except.ok.inj h).symm
  | other type data merged =>
    rw [hdata] at hforeign
    rw [advance_other hdata] at h
    simp only [validateCompactionEvent, hdata] at h
    split at h
    · cases h
    · rename_i hnone
      exact (Except.ok.inj h).symm
    rename_i transition hsome
    split at hsome
    · -- a second bracket does not open inside the first
      obtain ⟨e, he⟩ : ∃ e, (within call startSeq turn summarized).validateStart event.seq data =
          .error e := by
        unfold validateStart
        simp only [bind, Except.bind]
        cases validateId (data.property "compactionId") "compaction/start compactionId" with
        | error e => exact ⟨e, rfl⟩
        | ok id =>
          cases readCommandId (data.property "sourceCommandId")
              "compaction/start sourceCommandId" with
          | error e => exact ⟨e, rfl⟩
          | ok command => exact ⟨_, rfl⟩
      rw [he] at hsome
      cases hsome
    · split at hsome
      · obtain ⟨e, he⟩ := validateMember_foreign call startSeq turn summarized "compaction/summary"
          hforeign
        unfold validateSummary at hsome
        rw [he] at hsome
        cases hsome
      · split at hsome
        · obtain ⟨e, he⟩ := validateMember_foreign call startSeq turn summarized "compaction/end"
            hforeign
          unfold validateEnd at hsome
          rw [he] at hsome
          cases hsome
        · cases hsome
  | _ =>
    simp only [advance, validateTurnBoundary, validateCompactionEvent, applyTurnBoundary, hdata]
      at h
    exact (Except.ok.inj h).symm

end CompactionSessionTrace

end Harness
