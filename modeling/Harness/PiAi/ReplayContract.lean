-- SUMMARY: A response can be replayed from its stored message exactly when its names are not empty and it was not truncated after a tool call.
import Harness.Persistence.JsonlLines
import Harness.PiAi.Exchange

namespace Harness

open List OrderedMap

namespace PiAi

/-! ## The replay state reads back -/

theorem replayBlock_type (block : Content) :
    asText (Json.get? "type" (replayBlock block)) = some block.toBlock.type := by
  cases block <;> rfl

theorem optionalText_str (fields : StoredFields) (key message : String) (text : Option JsString)
    (h : Json.get? key fields = text.map .str) : optionalText fields key message = .ok text := by
  rw [optionalText, h]
  cases text <;> rfl

theorem readBlock_replayBlock (index : Nat) (block : Content) :
    readBlock index (.obj (replayBlock block)) = .ok (replayBlock block) := by
  cases block with
  | text text textSignature => cases textSignature <;> rfl
  | thinking thinking thinkingSignature redacted =>
    cases thinkingSignature <;> cases redacted <;> rfl
  | toolCall call =>
    obtain ⟨id, name, arguments, thoughtSignature⟩ := call
    cases thoughtSignature <;> rfl

theorem readStopReason_name (reason : StopReason) :
    readStopReason (some (.str reason.name)) = some reason := by
  cases reason <;> rfl

theorem readBlocks_replayBlock (index : Nat) (content : List Content) :
    readBlocks index ((content.map replayBlock).map .obj) = .ok (content.map replayBlock) := by
  induction content generalizing index with
  | nil => rfl
  | cons block rest ih =>
    simp only [map_cons, readBlocks, readBlock_replayBlock, ih]
    rfl

theorem requireText_str {fields : StoredFields} {key : String} {text : JsString}
    (h : Json.get? key fields = some (.str text)) :
    requireText fields key
      = if text = ⟨[]⟩ then invalidReplay s!"{key} must be a non-empty string" else .ok text := by
  obtain ⟨units⟩ := text
  cases units with
  | nil => simp [requireText, h, asText]
  | cons u us => simp [requireText, h, asText]

variable (response : Assistant)

/-- The state of a response reads back, where none of its names is empty. -/
theorem readReplayState_toJson :
    readReplayState (toPiReplayState response).toJson
      = if response.api = ⟨[]⟩ then invalidReplay "api must be a non-empty string"
        else if response.provider = ⟨[]⟩ then invalidReplay "provider must be a non-empty string"
        else if response.model = ⟨[]⟩ then invalidReplay "model must be a non-empty string"
        else .ok (toPiReplayState response) := by
  obtain ⟨content, api, provider, model, responseModel, responseId, usage, stopReason, errorMessage,
    timestamp⟩ := response
  obtain ⟨state, hstate⟩ : ∃ state, (toPiReplayState ⟨content, api, provider, model, responseModel,
      responseId, usage, stopReason, errorMessage, timestamp⟩).toJson = .obj state := ⟨_, rfl⟩
  have hkind : asText (Json.get? "kind" state) = some replayKind := by cases hstate; rfl
  have hversion : isInteger (Json.get? "version" state) 1 = true := by cases hstate; rfl
  have hapi : Json.get? "api" state = some (.str api) := by cases hstate; rfl
  have hprovider : Json.get? "provider" state = some (.str provider) := by cases hstate; rfl
  have hmodel : Json.get? "model" state = some (.str model) := by cases hstate; rfl
  have hreason : readStopReason (Json.get? "stopReason" state) = some stopReason := by
    cases hstate
    rw [← readStopReason_name stopReason]
    cases responseModel <;> cases responseId <;> rfl
  have hresponseModel : Json.get? "responseModel" state = responseModel.map .str := by
    cases hstate
    cases responseModel <;> cases responseId <;> rfl
  have hresponseId : Json.get? "responseId" state = responseId.map .str := by
    cases hstate
    cases responseModel <;> cases responseId <;> rfl
  have hblocks : Json.get? "blocks" state = some (.arr ((content.map replayBlock).map .obj)) := by
    cases hstate
    cases responseModel <;> cases responseId <;> rfl
  rw [hstate]
  simp only [readReplayState, hkind, hversion, ne_eq, not_true_eq_false, if_false, Bool.not_true,
    Bool.false_eq_true, requireText_str hapi, requireText_str hprovider, requireText_str hmodel,
    hreason, optionalText_str state _ _ _ hresponseModel, optionalText_str state _ _ _ hresponseId,
    hblocks, readBlocks_replayBlock]
  split
  · rfl
  split
  · rfl
  · split <;> rfl

/-! ## Content meets its metadata -/

theorem parseArguments_endedCall {call : ToolCall} (h : (Json.obj call.arguments).Proper) :
    parseArguments (endedCall call).arguments = call.arguments := by
  simp only [parseArguments, endedCall, Json.parse_stringify h]

theorem replayedBlock_own {block : Content}
    (hplain : ∀ call, block = .toolCall call → (Json.obj call.arguments).Proper) (index : Nat) :
    replayedBlock index block.toBlock (replayBlock block) = .ok block := by
  cases block with
  | text text textSignature => cases textSignature <;> rfl
  | thinking thinking thinkingSignature redacted =>
    cases thinkingSignature <;> cases redacted <;> rfl
  | toolCall call =>
    have harguments := parseArguments_endedCall (hplain call rfl)
    obtain ⟨id, name, arguments, thoughtSignature⟩ := call
    have hsignature : asText (Json.get? "thoughtSignature"
        (replayBlock (.toolCall ⟨id, name, arguments, thoughtSignature⟩))) = thoughtSignature := by
      cases thoughtSignature <;> rfl
    simp only [Content.toBlock, replayedBlock, harguments, hsignature]
    rfl

/-- Content that kept every block meets each block's metadata at its own position. -/
theorem replayedContent_own (before : List Content) {content : List Content}
    (hplain : ∀ call, .toolCall call ∈ content → (Json.obj call.arguments).Proper) :
    replayedContent ((before ++ content).map replayBlock) before.length (content.map Content.toBlock)
      = .ok content := by
  induction content generalizing before with
  | nil => rfl
  | cons block rest ih =>
    have hget : ((before ++ block :: rest).map replayBlock)[before.length]?
        = some (replayBlock block) := by
      rw [map_append, getElem?_append_right (by simp)]
      simp
    have hrest := ih (before ++ [block]) fun call hcall =>
      hplain call (mem_cons_of_mem _ hcall)
    rw [append_assoc, length_append] at hrest
    have hblock := replayedBlock_own
      (fun call (h : block = _) => hplain call (h ▸ mem_cons_self)) before.length
    simp only [map_cons, replayedContent, hget, replayBlock_type, ne_eq, not_true_eq_false,
      if_false, hblock]
    simp only [singleton_append, length_cons, length_nil, Nat.zero_add] at hrest
    rw [hrest]
    rfl

/-- Adding blocks to what a truncated response kept: as many as there were, when none was lost. -/
theorem kept_length_eq_iff :
    response.kept.length = response.content.length ↔
      (response.stopReason = .length → ∀ block ∈ response.content, block.isToolCall = false) := by
  unfold Assistant.kept
  split
  case isTrue hlength =>
    rw [length_filter_eq_length_iff]
    simp [hlength]
  case isFalse hlength => simp [hlength]

theorem kept_eq_content {response : Assistant}
    (h : response.kept.length = response.content.length) : response.kept = response.content := by
  unfold Assistant.kept at h ⊢
  split at h
  case isTrue hlength =>
    rw [if_pos hlength]
    exact filter_eq_self.mpr (length_filter_eq_length_iff.mp h)
  case isFalse hlength => rw [if_neg hlength]

/-- The source of the message that a response is committed as. -/
def replaySource : ModelMessageSource where
  provider := response.provider
  model := response.model
  replayState := some (toPiReplayState response).toJson

theorem replayedAssistant_error {content : List ContentBlock} {source : ModelMessageSource}
    {raw : Json} {e : PiAiError} (h : readReplayState raw = .error e) :
    replayedAssistant content source raw = .error e := by
  rw [replayedAssistant, h]
  rfl

theorem replayedAssistant_ok {content : List ContentBlock} {source : ModelMessageSource}
    {raw : Json} {state : PiAiReplayState} (h : readReplayState raw = .ok state)
    (hprovider : state.provider = source.provider) (hmodel : state.model = source.model) :
    replayedAssistant content source raw
      = if state.blocks.length ≠ content.length then
          invalidReplay "block count does not match assistant content"
        else (replayedContent state.blocks 0 content).map fun content =>
          { content
            api := state.api
            provider := state.provider
            model := state.model
            responseModel := state.responseModel
            responseId := state.responseId
            usage := emptyPiUsage
            stopReason := state.stopReason
            timestamp := .int 0 } := by
  rw [replayedAssistant, h]
  simp only [hprovider, hmodel, ne_eq, not_true_eq_false, if_false, Except.map, bind, Except.bind]
  rfl

theorem toPiAssistant_kept {response : Assistant} (hplain : response.Plain)
    (h : response.Replayable) :
    ∃ assistant, toPiAssistant (response.kept.map Content.toBlock) (some (replaySource response))
        = .ok assistant ∧ assistant.content = response.kept := by
  have hread : readReplayState (toPiReplayState response).toJson = .ok (toPiReplayState response) := by
    rw [readReplayState_toJson, if_neg h.api, if_neg h.provider, if_neg h.model]
  have hkept := kept_eq_content ((kept_length_eq_iff response).mpr h.truncated)
  have hcontent := replayedContent_own [] hplain
  rw [hkept]
  simp only [toPiAssistant, replaySource]
  rw [replayedAssistant_ok hread rfl rfl, if_neg (by simp [toPiReplayState])]
  simp only [nil_append, length_nil] at hcontent
  rw [show (toPiReplayState response).blocks = response.content.map replayBlock from rfl, hcontent]
  exact ⟨_, rfl, rfl⟩

/-- The history refuses what cannot be replayed, whatever the request. -/
theorem toPiAssistant_refused {response : Assistant} (h : ¬ response.Replayable) :
    ∃ e, toPiAssistant (response.kept.map Content.toBlock) (some (replaySource response))
      = .error e := by
  have hread := readReplayState_toJson response
  simp only [toPiAssistant, replaySource]
  by_cases hapi : response.api = ⟨[]⟩
  · rw [if_pos hapi] at hread
    exact ⟨_, replayedAssistant_error hread⟩
  by_cases hprovider : response.provider = ⟨[]⟩
  · rw [if_neg hapi, if_pos hprovider] at hread
    exact ⟨_, replayedAssistant_error hread⟩
  by_cases hmodel : response.model = ⟨[]⟩
  · rw [if_neg hapi, if_neg hprovider, if_pos hmodel] at hread
    exact ⟨_, replayedAssistant_error hread⟩
  rw [if_neg hapi, if_neg hprovider, if_neg hmodel] at hread
  -- the names are there, so what is lost is a tool call
  have hlost : (toPiReplayState response).blocks.length
      ≠ (response.kept.map Content.toBlock).length := by
    intro hlength
    simp only [toPiReplayState, length_map] at hlength
    exact h ⟨hapi, hprovider, hmodel, (kept_length_eq_iff response).mp hlength.symm⟩
  rw [replayedAssistant_ok hread rfl rfl, if_pos hlost]
  exact ⟨_, rfl⟩

/-! ## The stored message -/

theorem proper_of_keys {fields : StoredFields} (keys : List JsString)
    (hkeys : (fields.map Prod.fst).Sublist keys) (hnodup : keys.Nodup) (h : Json.ProperFields fields) :
    (Json.obj fields).Proper :=
  ⟨hnodup.sublist hkeys, h⟩

theorem properFields_text (key : JsString) (text : Option JsString) :
    Json.ProperFields (optionalField key (text.map .str)) := by
  cases text with
  | none => trivial
  | some text => exact ⟨trivial, trivial⟩

theorem replayBlock_proper (block : Content) : (Json.obj (replayBlock block)).Proper := by
  cases block with
  | text text textSignature =>
    exact proper_of_keys ["type", "textSignature"] ((optionalField_keys _ _).cons_cons _) (by decide)
      ⟨trivial, properFields_text _ _⟩
  | thinking thinking thinkingSignature redacted =>
    have hredacted : Json.ProperFields (optionalField "redacted" (redacted.map .bool)) := by
      cases redacted with
      | none => trivial
      | some flag => exact ⟨trivial, trivial⟩
    refine proper_of_keys ["type", "thinkingSignature", "redacted"] ?_ (by decide)
      ⟨trivial, properFields_append (properFields_text _ _) hredacted⟩
    rw [replayBlock, map_cons, map_append]
    exact ((optionalField_keys _ _).append (optionalField_keys _ _)).cons_cons _
  | toolCall call =>
    exact proper_of_keys ["type", "thoughtSignature"] ((optionalField_keys _ _).cons_cons _) (by decide)
      ⟨trivial, properFields_text _ _⟩

def replayKeys : List JsString :=
  ["kind", "version", "api", "provider", "model", "responseModel", "responseId", "stopReason", "blocks"]

theorem toPiReplayState_proper : (toPiReplayState response).toJson.Proper := by
  have hblocks : (Json.arr ((response.content.map replayBlock).map .obj)).Proper := by
    rw [map_map]
    exact properItems_map _ replayBlock_proper
  refine proper_of_keys replayKeys ?_ (by decide) ?_
  · simp only [map_append]
    exact (((List.Sublist.refl _).append (optionalField_keys _ _)).append
      (optionalField_keys _ _)).append (List.Sublist.refl _)
  · refine properFields_append (properFields_append (properFields_append ?_ (properFields_text _ _))
      (properFields_text _ _)) ⟨trivial, hblocks, trivial⟩
    exact ⟨trivial, trivial, trivial, trivial, trivial, trivial⟩

theorem toBlock_proper (block : Content) : block.toBlock.toJson.Proper := by
  cases block with
  | text text textSignature =>
    exact proper_of_keys ["type", "text"] (List.Sublist.refl _) (by decide) ⟨trivial, trivial, trivial⟩
  | thinking thinking thinkingSignature redacted =>
    exact proper_of_keys ["type", "text"] (List.Sublist.refl _) (by decide) ⟨trivial, trivial, trivial⟩
  | toolCall call =>
    exact proper_of_keys ["type", "id", "name", "arguments"] (List.Sublist.refl _) (by decide)
      ⟨trivial, trivial, trivial, trivial, trivial⟩

theorem ofJson_toBlock (block : Content) :
    ContentBlock.ofJson block.toBlock.toJson = some block.toBlock := by
  cases block <;> rfl

theorem contentBlocks_toBlock (content : List Content) :
    contentBlocks ((content.map Content.toBlock).map ContentBlock.toJson)
      = some (content.map Content.toBlock) := by
  induction content with
  | nil => rfl
  | cons block rest ih =>
    simp only [map_cons, contentBlocks, ofJson_toBlock, ih]
    rfl

/-- The message that a response is committed as, with the blocks it kept. -/
def committed (id : MessageId) : AssistantMessage where
  id := id
  content := response.kept.map Content.toBlock
  source := replaySource response

theorem committed_proper (id : MessageId) : (committed response id).toJson.Proper := by
  have hcontent : (Json.arr ((response.kept.map Content.toBlock).map ContentBlock.toJson)).Proper := by
    rw [map_map]
    exact properItems_map _ toBlock_proper
  have hsource : (Json.obj
      ([("kind", .str "model"), ("provider", .str response.provider), ("model", .str response.model),
        ("replayState", (toPiReplayState response).toJson)] : StoredFields)).Proper :=
    proper_of_keys ["kind", "provider", "model", "replayState"] (List.Sublist.refl _) (by decide)
      ⟨trivial, trivial, trivial, toPiReplayState_proper response, trivial⟩
  exact proper_of_keys ["id", "role", "content", "source"] (List.Sublist.refl _) (by decide)
    ⟨trivial, trivial, hcontent, hsource, trivial⟩

/-- The message of a response comes back from the log as it was committed. -/
theorem reload_committed (id : MessageId) :
    (committed response id).reload = some (committed response id) := by
  rw [AssistantMessage.reload, Json.parse_stringify (committed_proper response id)]
  have hitems : contentItems (.arr ((response.kept.map Content.toBlock).map ContentBlock.toJson))
      = some (response.kept.map Content.toBlock) := contentBlocks_toBlock _
  have hread : AssistantMessage.ofJson (committed response id).toJson
      = (contentItems (.arr ((response.kept.map Content.toBlock).map ContentBlock.toJson))).bind
        fun content => some { committed response id with content } := rfl
  rw [Option.bind_some, hread, hitems]
  rfl

theorem contentHasImage_toBlock (content : List Content) :
    contentHasImage (content.map Content.toBlock) = false := by
  induction content with
  | nil => rfl
  | cons block rest ih =>
    cases block <;> simpa [Content.toBlock, contentHasImage, blockHasImage] using ih

/-- A message that reads back as native stands in no request's way. -/
theorem converts_of_native {stored : AssistantMessage} {content : List Content} {assistant : Assistant}
    (hcontent : stored.content = content.map Content.toBlock)
    (h : toPiAssistant stored.content (some stored.source) = .ok assistant)
    (attachments : Option AttachmentStore) :
    (convertMessage attachments [] stored.history).isOk = true := by
  have hassistant : (convertAssistant [] stored.history).isOk = true := by
    rw [convertAssistant, AssistantMessage.history, h]
    rfl
  cases attachments with
  | some attachments => exact hassistant
  | none =>
    simp only [convertMessage, convertText]
    rw [if_neg (by simp [AssistantMessage.history, hcontent, contentHasImage_toBlock])]
    exact hassistant

theorem replays_of_native {stored : AssistantMessage} {kept : List Content} {assistant : Assistant}
    (hcontent : stored.content = kept.map Content.toBlock)
    (h : toPiAssistant stored.content (some stored.source) = .ok assistant)
    (hkept : assistant.content = kept) : Replays stored kept where
  native := ⟨assistant, h, hkept⟩
  requests := by
    intro options attachments before after
    rw [toPiContext_isOk, toPiContext_isOk]
    simp only [all_append, all_cons, converts_of_native hcontent h, Bool.true_and]

/-! ## The assembled blocks -/

/-- The chunks of one streamed block at index `i`. -/
def deltaChunk (streamed : StreamedBlock) (i : Nat) (delta : JsString) : StreamChunk :=
  match streamed.block with
  | .text .. => .textDelta (.int i) delta
  | .thinking .. => .reasoningDelta (.int i) delta
  | .toolCall _ =>
    let started := startedCall streamed.sofar i
    .toolCallDelta (.int i) started.id
      ((some started.name).filter fun name => name.units.length > 0) delta

def blockChunks (streamed : StreamedBlock) (i : Nat) : List StreamChunk :=
  .blockStart (.int i) streamed.block.toBlock.type ::
    (streamed.deltas.map (deltaChunk streamed i) ++ [.blockEnd (.int i) streamed.block.toBlock])

variable (asks : Classifiers) (contextWindow : Option Num) (markers : List JsString)

/-- The translation of events that do not end it. -/
theorem toStreamChunks_cons {toolIds toolIds' : ToolIds} {event : AssistantMessageEvent}
    {chunk : StreamChunk} (h : translate toolIds event = (toolIds', some chunk))
    (events : List AssistantMessageEvent) :
    toStreamChunks asks contextWindow markers toolIds (event :: events)
      = (chunk :: (toStreamChunks asks contextWindow markers toolIds' events).1,
        (toStreamChunks asks contextWindow markers toolIds' events).2) := by
  cases event with
  | start => cases h
  | done message => cases h
  | error error => cases h
  | _ => simp only [toStreamChunks, h, Option.toList_some, singleton_append]

theorem toStreamChunks_deltas {toolIds : ToolIds} {event : JsString → AssistantMessageEvent}
    {chunk : JsString → StreamChunk}
    (h : ∀ delta, translate toolIds (event delta) = (toolIds, some (chunk delta)))
    (deltas : List JsString) (events : List AssistantMessageEvent) :
    toStreamChunks asks contextWindow markers toolIds (deltas.map event ++ events)
      = (deltas.map chunk ++ (toStreamChunks asks contextWindow markers toolIds events).1,
        (toStreamChunks asks contextWindow markers toolIds events).2) := by
  induction deltas with
  | nil => rfl
  | cons delta deltas ih =>
    rw [map_cons, cons_append, toStreamChunks_cons _ _ _ (h delta), ih]
    rfl

theorem toStreamChunks_block (toolIds : ToolIds) (streamed : StreamedBlock) (i : Nat)
    (events : List AssistantMessageEvent) :
    ∃ toolIds', toStreamChunks asks contextWindow markers toolIds (streamed.events i ++ events)
      = (blockChunks streamed i ++ (toStreamChunks asks contextWindow markers toolIds' events).1,
        (toStreamChunks asks contextWindow markers toolIds' events).2) := by
  obtain ⟨block, deltas, sofar⟩ := streamed
  cases block with
  | text text textSignature =>
    refine ⟨toolIds, ?_⟩
    simp only [StreamedBlock.events, cons_append, append_assoc, nil_append]
    rw [toStreamChunks_cons _ _ _ rfl, toStreamChunks_deltas _ _ _ (fun _ => rfl), toStreamChunks_cons _ _ _ rfl]
    simp [blockChunks, deltaChunk, Content.toBlock, ContentBlock.type]
  | thinking thinking thinkingSignature redacted =>
    refine ⟨toolIds, ?_⟩
    simp only [StreamedBlock.events, cons_append, append_assoc, nil_append]
    rw [toStreamChunks_cons _ _ _ rfl, toStreamChunks_deltas _ _ _ (fun _ => rfl), toStreamChunks_cons _ _ _ rfl]
    simp [blockChunks, deltaChunk, Content.toBlock, ContentBlock.type]
  | toolCall call =>
    refine ⟨set toolIds i (startedCall sofar i), ?_⟩
    have hknown : OrderedMap.get? (set toolIds i (startedCall sofar i)) i
        = some (startedCall sofar i) := by simp [get?_set]
    have hdelta : ∀ delta, translate (set toolIds i (startedCall sofar i))
        (.toolcallDelta i delta)
          = (set toolIds i (startedCall sofar i),
            some (deltaChunk ⟨.toolCall call, deltas, sofar⟩ i delta)) := by
      intro delta
      simp [translate, hknown, deltaChunk]
    simp only [StreamedBlock.events, cons_append, append_assoc, nil_append]
    rw [toStreamChunks_cons _ _ _ rfl, toStreamChunks_deltas _ _ _ hdelta, toStreamChunks_cons _ _ _ rfl]
    simp [blockChunks, Content.toBlock, ContentBlock.type]

/-- The chunks of the blocks from index `i` on. -/
def chunksFrom (i : Nat) : List StreamedBlock → List StreamChunk
  | [] => []
  | streamed :: rest => blockChunks streamed i ++ chunksFrom (i + 1) rest

theorem toStreamChunks_blocks (blocks : List StreamedBlock) (toolIds : ToolIds) (i : Nat)
    (events : List AssistantMessageEvent) :
    ∃ toolIds', toStreamChunks asks contextWindow markers toolIds (blockEvents i blocks ++ events)
      = (chunksFrom i blocks ++ (toStreamChunks asks contextWindow markers toolIds' events).1,
        (toStreamChunks asks contextWindow markers toolIds' events).2) := by
  induction blocks generalizing toolIds i with
  | nil => exact ⟨toolIds, rfl⟩
  | cons streamed rest ih =>
    obtain ⟨toolIds₁, hblock⟩ := toStreamChunks_block asks contextWindow markers toolIds streamed i
      (blockEvents (i + 1) rest ++ events)
    obtain ⟨toolIds₂, hrest⟩ := ih toolIds₁ (i + 1)
    refine ⟨toolIds₂, ?_⟩
    rw [blockEvents, append_assoc, hblock, hrest, chunksFrom, append_assoc]

/-- The assembler has closed these blocks, at the indices from zero on. -/
structure Built (a : BlockAssembler) (blocks : List ContentBlock) : Prop where
  keys : OrderedMap.keys a.partials = (List.range blocks.length).map fun i : Nat => Num.int i
  closed : a.partials.map (fun e => e.2.block) = blocks.map some

theorem Built.fresh {a : BlockAssembler} {blocks : List ContentBlock} (h : Built a blocks) :
    Num.int blocks.length ∉ OrderedMap.keys a.partials := by
  rw [h.keys]
  simp

/-- The assembler with one more partial. -/
def withPartial (a : BlockAssembler) (i : Nat) (p : PartialBlock) : BlockAssembler :=
  { a with partials := a.partials ++ [(.int i, p)] }

section

variable {a : BlockAssembler} {i : Nat} {p : PartialBlock}

theorem ensure_withPartial (blockType : JsString) :
    (withPartial a i p).ensure (.int i) blockType = withPartial a i p := by
  simp [BlockAssembler.ensure, withPartial, OrderedMap.keys]

theorem extend_withPartial (hfresh : Num.int i ∉ OrderedMap.keys a.partials) (hopen : p.block = none)
    (f : PartialBlock → PartialBlock) :
    (withPartial a i p).extend (.int i) f = withPartial a i (f p) := by
  simp [BlockAssembler.extend, withPartial, modify_append_fresh hfresh, hopen]

/-- The deltas of a block change nothing but its partial, which stays open. -/
theorem push_deltas (hfresh : Num.int i ∉ OrderedMap.keys a.partials) (hopen : p.block = none)
    (streamed : StreamedBlock) (deltas : List JsString) :
    ∃ p', p'.block = none ∧
      (deltas.map (deltaChunk streamed i)).foldl BlockAssembler.push (withPartial a i p)
        = withPartial a i p' := by
  induction deltas generalizing p with
  | nil => exact ⟨p, hopen, rfl⟩
  | cons delta deltas ih =>
    rw [map_cons, foldl_cons]
    have hpush : ∃ p', p'.block = none ∧
        (withPartial a i p).push (deltaChunk streamed i delta) = withPartial a i p' := by
      obtain ⟨block, all, sofar⟩ := streamed
      cases block with
      | _ =>
        simp only [deltaChunk, BlockAssembler.push, ensure_withPartial,
          extend_withPartial hfresh hopen]
        refine ⟨_, ?_, rfl⟩
        exact hopen
    obtain ⟨p', hopen', hpush⟩ := hpush
    rw [hpush]
    exact ih hopen'

end

theorem Built.block {a : BlockAssembler} {blocks : List ContentBlock} (h : Built a blocks)
    (streamed : StreamedBlock) :
    Built ((blockChunks streamed blocks.length).foldl BlockAssembler.push a)
      (blocks ++ [streamed.block.toBlock]) := by
  have hstart : a.push (.blockStart (.int blocks.length) streamed.block.toBlock.type)
      = withPartial a blocks.length { blockType := streamed.block.toBlock.type } := by
    simp [BlockAssembler.push, BlockAssembler.ensure, h.fresh, withPartial]
  obtain ⟨p, hopen, hdeltas⟩ := push_deltas h.fresh
    (p := { blockType := streamed.block.toBlock.type }) rfl streamed streamed.deltas
  rw [blockChunks, foldl_cons, hstart, foldl_append, hdeltas]
  simp only [foldl_cons, foldl_nil, BlockAssembler.push, ensure_withPartial,
    extend_withPartial h.fresh hopen]
  constructor
  · rw [withPartial, OrderedMap.keys_append, h.keys, length_append, length_singleton,
      range_succ, map_append]
    rfl
  · simp [withPartial, h.closed]

theorem Built.blocks {a : BlockAssembler} {blocks : List ContentBlock} (h : Built a blocks)
    (streamed : List StreamedBlock) :
    Built ((chunksFrom blocks.length streamed).foldl BlockAssembler.push a)
      (blocks ++ streamed.map fun s => s.block.toBlock) := by
  induction streamed generalizing a blocks with
  | nil => simpa [chunksFrom] using h
  | cons s rest ih =>
    have hrest := ih (h.block s)
    simpa [chunksFrom, foldl_append] using hrest

theorem assemble_closed {partials : OrderedMap Num PartialBlock} {blocks : List ContentBlock}
    (hclosed : partials.map (fun e => e.2.block) = blocks.map some) :
    (partials.mapM fun (index, p) => BlockAssembler.assemble p index) = .ok blocks := by
  induction partials generalizing blocks with
  | nil =>
    cases blocks with
    | nil => rfl
    | cons block rest => cases hclosed
  | cons e partials ih =>
    cases blocks with
    | nil => cases hclosed
    | cons block rest =>
      obtain ⟨hblock, hrest⟩ := cons.inj hclosed
      have hassemble : BlockAssembler.assemble e.2 e.1 = .ok block := by
        simp only [BlockAssembler.assemble, hblock]
      rw [mapM_cons, ih hrest]
      simp only [hassemble]
      rfl

/-! ## The contract -/

/-- A finish that succeeds is a truncation exactly when the response stopped at its length. -/
theorem mapStopReason_succeeded {response : Assistant}
    (h : (mapStopReason asks response contextWindow markers).succeeded = true) :
    mapStopReason asks response contextWindow markers = .maxTokens ↔ response.stopReason = .length := by
  cases hoverflow : asks.isContextOverflow response contextWindow ||
      (decide (response.stopReason = .error) &&
        response.errorMessage.any asks.isContextWindowExceededError) with
  | true => simp [mapStopReason, hoverflow, FinishReason.succeeded] at h
  | false =>
    simp only [mapStopReason, hoverflow, Bool.false_eq_true, if_false] at h ⊢
    cases hreason : response.stopReason with
    | length => simp
    | toolUse => simp
    | aborted => simp [hreason, FinishReason.succeeded] at h
    | error => simp [hreason, FinishReason.succeeded] at h
    | stop =>
      simp only [reduceCtorEq, iff_false]
      split
      · simp
      · split <;> simp

theorem kept_toBlock (content : List Content) :
    (content.map Content.toBlock).filter (fun block => block.toolCall?.isNone)
      = (content.filter fun block => !block.isToolCall).map Content.toBlock := by
  rw [filter_map]
  congr 1
  refine filter_congr fun block _ => ?_
  cases block <;> rfl

/-- The assembler holds what the response kept, and the state of the whole response. -/
theorem assembled_response {response : Assistant} {blocks : List StreamedBlock}
    (hblocks : blocks.map StreamedBlock.block = response.content)
    (hfinish : (mapStopReason asks response contextWindow markers).succeeded = true)
    (id : MessageId) (request : LlmCallConfig)
    (hprovider : request.provider = response.provider) (hmodel : request.model = response.model) :
    (assembled asks contextWindow markers (responseEvents blocks response)).assistantMessage id request
      = .ok (committed response id) := by
  obtain ⟨toolIds, hchunks⟩ := toStreamChunks_blocks asks contextWindow markers blocks [] 0
    [.done response]
  have hbuilt : Built ((chunksFrom 0 blocks).foldl BlockAssembler.push {})
      (response.content.map Content.toBlock) := by
    have hempty : Built {} [] := ⟨rfl, rfl⟩
    have := hempty.blocks blocks
    simpa [← hblocks, Function.comp_def] using this
  have hassemble := assemble_closed hbuilt.closed
  have hevents : (toStreamChunks asks contextWindow markers [] (responseEvents blocks response)).1
      = chunksFrom 0 blocks ++ [.usage (mapUsage response.usage),
        .finish (mapStopReason asks response contextWindow markers)
          (some (toPiReplayState response).toJson)] := by
    simp only [responseEvents, toStreamChunks, translate, hchunks, Option.toList_none,
      nil_append]
  have htruncated := mapStopReason_succeeded asks contextWindow markers hfinish
  rw [BlockAssembler.assistantMessage, assembled, hevents, foldl_append]
  generalize (chunksFrom 0 blocks).foldl BlockAssembler.push {} = a at hassemble
  generalize mapStopReason asks response contextWindow markers = finish at htruncated
  have hheld : BlockAssembler.blocks
      { a with
        usage := some (mapUsage response.usage)
        finish? := some finish
        replayState := some (toPiReplayState response).toJson }
      = .ok (response.kept.map Content.toBlock) := by
    simp only [BlockAssembler.blocks, hassemble, BlockAssembler.finish, Option.getD_some]
    by_cases hlength : response.stopReason = .length
    · rw [htruncated.mpr hlength, Assistant.kept, if_pos hlength, kept_toBlock]
    have hfinish : finish ≠ .maxTokens := fun h => hlength (htruncated.mp h)
    rw [Assistant.kept, if_neg hlength]
    cases finish with
    | maxTokens => exact absurd rfl hfinish
    | _ => rfl
  simp only [foldl_cons, foldl_nil, BlockAssembler.push, hheld]
  simp only [Except.map, committed, replaySource, hprovider, hmodel]

/-- A response that streams block by block and succeeds is committed, comes back from the log, and
can be replayed in every later request, with each block it kept, exactly when its names are not
empty and it was not truncated after a tool call. -/
theorem adapter_replay (id : MessageId) (request : LlmCallConfig) {response : Assistant}
    {blocks : List StreamedBlock} (hblocks : blocks.map StreamedBlock.block = response.content)
    (hplain : response.Plain)
    (hfinish : (mapStopReason asks response contextWindow markers).succeeded = true)
    (hprovider : request.provider = response.provider) (hmodel : request.model = response.model) :
    ∃ message stored,
      (assembled asks contextWindow markers (responseEvents blocks response)).assistantMessage id request
          = .ok message ∧
        message.reload = some stored ∧ (Replays stored response.kept ↔ response.Replayable) := by
  refine ⟨_, _, assembled_response asks contextWindow markers hblocks hfinish id request hprovider
    hmodel, reload_committed response id, fun hreplays => ?_, fun hreplayable => ?_⟩
  · by_contra hnot
    obtain ⟨e, he⟩ := toPiAssistant_refused hnot
    obtain ⟨assistant, hassistant, -⟩ := hreplays.native
    rw [committed, he] at hassistant
    cases hassistant
  · obtain ⟨assistant, hassistant, hkept⟩ := toPiAssistant_kept hplain hreplayable
    exact replays_of_native rfl hassistant hkept

/-! ## Two responses -/

def noUsage : PiUsage := { emptyPiUsage with output := .int 7 }

/-- A call that a provider streams with a signature. -/
def listCall : ToolCall where
  id := "call-1"
  name := "bash"
  arguments := [("command", .str "ls")]
  thoughtSignature := some ("sig" : JsString)

/-- A short text and a call. -/
def lookUp (stopReason : StopReason) : Assistant where
  content := [.text "Let me look." none, .toolCall listCall]
  api := "openai-completions"
  provider := "openrouter"
  model := "some-model"
  usage := noUsage
  stopReason := stopReason
  timestamp := .int 0

def lookUpStream : List StreamedBlock :=
  [{ block := .text "Let me look." none, deltas := ["Let me", " look."], sofar := [] },
    { block := .toolCall listCall, deltas := ["\x7b\"command\":", "\"ls\"\x7d"], sofar := [] }]

def lookUpRequest : LlmCallConfig where
  provider := "openrouter"
  model := "some-model"

/-- What pi-ai and the classifiers answer about messages without an error text, far from the end
of their window. -/
def noOverflow : Classifiers where
  isContextOverflow := fun _ _ => false
  isContextWindowExceededError := fun _ => false
  classifyPiAiError := fun _ => "PI_AI_ERROR"

theorem lookUp_plain (stopReason : StopReason) : (lookUp stopReason).Plain := by
  intro call hcall
  simp only [lookUp, mem_cons, reduceCtorEq, Content.toolCall.injEq, not_mem_nil, or_false,
    false_or] at hcall
  rw [hcall]
  exact ⟨nodup_singleton _, trivial, trivial⟩

theorem adapter_replay_lookUp : ∃ message stored,
    (assembled noOverflow none [] (responseEvents lookUpStream (lookUp .toolUse))).assistantMessage
        "m-1" lookUpRequest = .ok message ∧
      message.reload = some stored ∧
        (Replays stored (lookUp .toolUse).kept ↔ (lookUp .toolUse).Replayable) :=
  adapter_replay noOverflow none [] "m-1" lookUpRequest rfl (lookUp_plain _) rfl rfl rfl

/-- The same response, cut off at its length: its message keeps the text alone and its state lists
the call too, so no later request converts. -/
theorem truncatedCall_stranded : ∃ message stored,
    mapStopReason noOverflow (lookUp .length) none [] = .maxTokens ∧
      (assembled noOverflow none [] (responseEvents lookUpStream (lookUp .length))).assistantMessage
        "m-1" lookUpRequest = .ok message ∧
      message.reload = some stored ∧
        toPiAssistant stored.content (some stored.source)
          = .error
            { message :=
                "invalid pi-ai replay state: block count does not match assistant content"
              code := "INVALID_REPLAY_STATE" } ∧
        (toPiContext { messages := [stored.history] } none).isOk = false ∧
        ¬ Replays stored (lookUp .length).kept := by
  have hrefused : toPiAssistant (committed (lookUp .length) "m-1").content
      (some (committed (lookUp .length) "m-1").source)
      = .error
        { message := "invalid pi-ai replay state: block count does not match assistant content"
          code := "INVALID_REPLAY_STATE" } := rfl
  refine ⟨_, _, rfl, assembled_response noOverflow none [] rfl rfl "m-1" lookUpRequest rfl rfl,
    reload_committed _ _, hrefused, rfl, fun hreplays => ?_⟩
  obtain ⟨assistant, hassistant, -⟩ := hreplays.native
  rw [hrefused] at hassistant
  cases hassistant

end PiAi

end Harness
