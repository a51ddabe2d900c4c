-- SUMMARY: Request history as a pi-ai context, with and without durable images: `llm-pi-ai/src/context.ts`.
import Harness.PiAi.Replay
import Harness.Session.Repair

namespace Harness

/-! ## Histories -/

/-- Provider-neutral conversation role. -/
inductive Role where
  | system
  | user
  | assistant
  deriving DecidableEq

/-- One message of a request as an adapter reads it: `source` where its kind is `model`. -/
structure HistoryMessage where
  role : Role
  content : List ContentBlock
  source : Option ModelMessageSource := none

def AssistantMessage.history (message : AssistantMessage) : HistoryMessage where
  role := .assistant
  content := message.content
  source := some message.source

mutual

/-- True when typed model content contains an image block, walking nested tool results. -/
def contentHasImage : List ContentBlock → Bool
  | [] => false
  | block :: rest => blockHasImage block || contentHasImage rest

def blockHasImage : ContentBlock → Bool
  | .image _ => true
  | .toolResult _ content _ => contentHasImage content
  | _ => false

end

namespace PiAi

/-- A tool of a request, as pi-ai takes it. -/
structure PiTool where
  name : JsString
  description : JsString
  parameters : Json

structure GenerateOptions where
  system : Option JsString := none
  messages : List HistoryMessage
  tools : Option (List PiTool) := none

/-! ## pi-ai's vocabulary -/

/-- One part of user or tool-result content. An image holds its bytes, which pi-ai takes in
base64. -/
inductive UserPart where
  | text (text : JsString)
  | image (data : List UInt8) (mimeType : JsString)

inductive UserContent where
  | text (text : JsString)
  | parts (parts : List UserPart)

inductive PiMessage where
  | user (content : UserContent)
  | assistant (message : Assistant)
  | toolResult (toolCallId : CallId) (toolName : JsString) (content : List UserPart) (isError : Bool)

structure PiContext where
  systemPrompt : Option JsString
  messages : List PiMessage
  tools : Option (List PiTool)

/-- The bytes behind an image reference. -/
structure StoredImage where
  data : List UInt8
  mediaType : JsString

/-- The durable byte resolver for image references. -/
abbrev AttachmentStore := Json → Except PiAiError StoredImage

/-! ## Texts -/

def joinTexts (texts : List JsString) : JsString := ⟨texts.flatMap JsString.units⟩

/-- Join the text blocks of a message. -/
def flattenText (content : List ContentBlock) : JsString :=
  joinTexts <| content.filterMap fun
    | .text text => some text
    | _ => none

mutual

def toolResultText : List ContentBlock → JsString
  | [] => ⟨[]⟩
  | block :: rest => blockText block ++ toolResultText rest

def blockText : ContentBlock → JsString
  | .text text => text
  | .toolResult _ content _ => toolResultText content
  | _ => ⟨[]⟩

end

def UserPart.text? : UserPart → Option JsString
  | .text body => some body
  | .image .. => none

/-- Content without images is one text. -/
def settleParts (parts : List UserPart) : UserContent :=
  if parts.all fun part => part.text?.isSome then .text (joinTexts (parts.filterMap UserPart.text?))
  else .parts parts

def nestedParts : UserContent → List UserPart
  | .text text => if text.units.length > 0 then [.text text] else []
  | .parts parts => parts

mutual

/-- The parts of user content, its images read in order. -/
def userParts (attachments : AttachmentStore) : List ContentBlock → Except PiAiError (List UserPart)
  | [] => .ok []
  | block :: rest => do
    let parts ← blockParts attachments block
    let more ← userParts attachments rest
    return parts ++ more

def blockParts (attachments : AttachmentStore) : ContentBlock → Except PiAiError (List UserPart)
  | .text text => .ok (if text.units.length > 0 then [.text text] else [])
  | .image attachment => do
    let stored ← attachments attachment
    return [.image stored.data stored.mediaType]
  | .toolResult _ content _ => do
    let nested ← userParts attachments content
    return nestedParts (settleParts nested)
  -- other block types are not user-input vocabulary for pi-ai
  | _ => .ok []

end

def userContent (attachments : AttachmentStore) (blocks : List ContentBlock) :
    Except PiAiError UserContent :=
  (userParts attachments blocks).map settleParts

/-- `text || '(no output)'`. -/
def outputOr (text : JsString) : JsString := if text.units.length = 0 then "(no output)" else text

def ContentBlock.toolResult? : ContentBlock → Option ToolResultBlock
  | .toolResult toolCallId content isError => some { toolCallId, content, isError }
  | _ => none

/-! ## Messages -/

/-- The names of the calls so far, by their ids. -/
abbrev ToolNames := OrderedMap CallId JsString

/-- The names after an assistant message. -/
def nameCalls (toolNames : ToolNames) (content : List Content) : ToolNames :=
  content.foldl (fun names block =>
    match block with
    | .toolCall call => OrderedMap.set names call.id call.name
    | _ => names) toolNames

def resultMessage (toolNames : ToolNames) (result : ToolResultBlock) (content : List UserPart) :
    PiMessage :=
  .toolResult result.toolCallId ((OrderedMap.get? toolNames result.toolCallId).getD "unknown")
    content (result.isError.getD false)

/-- What one message becomes, and the names after it. -/
abbrev Converted := Except PiAiError (ToolNames × List PiMessage)

def convertAssistant (toolNames : ToolNames) (message : HistoryMessage) : Converted := do
  let assistant ← toPiAssistant message.content message.source
  return (nameCalls toolNames assistant.content, [.assistant assistant])

/-- One message of the synchronous conversion. -/
def convertText (toolNames : ToolNames) (message : HistoryMessage) : Converted :=
  if contentHasImage message.content then
    .error
      { message := "pi-ai image conversion requires the durable attachment service"
        code := "UNSUPPORTED_CONTENT" }
  else
    match message.role with
    | .system => .ok (toolNames, [.user (.text (flattenText message.content))])
    | .assistant => convertAssistant toolNames message
    | .user =>
      let text := flattenText message.content
      let results := message.content.filterMap ContentBlock.toolResult?
      let user := if text.units.length > 0 || results.isEmpty then [PiMessage.user (.text text)] else []
      .ok (toolNames, user ++ results.map fun result =>
        resultMessage toolNames result [.text (outputOr (toolResultText result.content))])

def UserContent.isEmpty : UserContent → Bool
  | .text body => body.units.length = 0
  | .parts contents => contents.isEmpty

/-- The content of a tool result's message. -/
def resultParts : UserContent → List UserPart
  | .text text => [.text (outputOr text)]
  | .parts parts => parts

def convertResults (attachments : AttachmentStore) (toolNames : ToolNames) :
    List ToolResultBlock → Except PiAiError (List PiMessage)
  | [] => .ok []
  | result :: results => do
    let content ← userContent attachments result.content
    let messages ← convertResults attachments toolNames results
    return resultMessage toolNames result (resultParts content) :: messages

/-- One message of the conversion that resolves durable images. -/
def convertWithImages (attachments : AttachmentStore) (toolNames : ToolNames)
    (message : HistoryMessage) : Converted :=
  match message.role with
  | .system =>
    if contentHasImage message.content then
      .error
        { message := "pi-ai cannot represent an image in an in-history system message"
          code := "UNSUPPORTED_CONTENT" }
    else .ok (toolNames, [.user (.text (flattenText message.content))])
  | .assistant => convertAssistant toolNames message
  | .user => do
    let regular := message.content.filter fun block => (ContentBlock.toolResult? block).isNone
    let content ← userContent attachments regular
    let results := message.content.filterMap ContentBlock.toolResult?
    let messages ← convertResults attachments toolNames results
    let user := if !content.isEmpty || results.isEmpty then [PiMessage.user content] else []
    return (toolNames, user ++ messages)

def convertAll (convert : ToolNames → HistoryMessage → Converted) (toolNames : ToolNames) :
    List HistoryMessage → Except PiAiError (List PiMessage)
  | [] => .ok []
  | message :: rest => do
    let (toolNames, converted) ← convert toolNames message
    let messages ← convertAll convert toolNames rest
    return converted ++ messages

/-! ## Contexts -/

/-- How one message converts, with or without the attachment service. -/
def convertMessage (attachments : Option AttachmentStore) : ToolNames → HistoryMessage → Converted :=
  match attachments with
  | none => convertText
  | some attachments => convertWithImages attachments

/-- Convert harness history to a pi-ai context. -/
def toPiContext (options : GenerateOptions) (attachments : Option AttachmentStore) :
    Except PiAiError PiContext := do
  let messages ← convertAll (convertMessage attachments) [] options.messages
  return {
    systemPrompt := options.system
    messages
    tools := options.tools.filter fun tools => tools.length > 0 }

/-! ## What converts -/

theorem isOk_bind {ε α β : Type} {x : Except ε α} {f g : α → Except ε β}
    (h : ∀ a, (f a).isOk = (g a).isOk) : (x >>= f).isOk = (x >>= g).isOk := by
  cases x with
  | error e => rfl
  | ok a => exact h a

theorem isOk_bind_true {ε α β : Type} {x : Except ε α} {f : α → Except ε β}
    (h : ∀ a, (f a).isOk = true) : (x >>= f).isOk = x.isOk := by
  cases x with
  | error e => rfl
  | ok a => exact h a

theorem convertResults_isOk (attachments : AttachmentStore) (toolNames toolNames' : ToolNames)
    (results : List ToolResultBlock) :
    (convertResults attachments toolNames results).isOk
      = (convertResults attachments toolNames' results).isOk := by
  induction results with
  | nil => rfl
  | cons result results ih =>
    refine isOk_bind fun content => ?_
    rw [isOk_bind_true fun _ => rfl, isOk_bind_true fun _ => rfl, ih]

/-- Whether a message converts does not depend on the messages before it. -/
theorem convertMessage_isOk (attachments : Option AttachmentStore) (toolNames toolNames' : ToolNames)
    (message : HistoryMessage) :
    (convertMessage attachments toolNames message).isOk
      = (convertMessage attachments toolNames' message).isOk := by
  have hassistant : (convertAssistant toolNames message).isOk
      = (convertAssistant toolNames' message).isOk := isOk_bind fun _ => rfl
  cases attachments with
  | none =>
    simp only [convertMessage, convertText]
    split
    · rfl
    cases message.role with
    | system => rfl
    | assistant => exact hassistant
    | user => rfl
  | some attachments =>
    simp only [convertMessage, convertWithImages]
    cases message.role with
    | system =>
      simp only
      split <;> rfl
    | assistant => exact hassistant
    | user =>
      refine isOk_bind fun content => ?_
      rw [isOk_bind_true fun _ => rfl, isOk_bind_true fun _ => rfl]
      exact convertResults_isOk attachments toolNames toolNames' _

/-- A history converts exactly when each of its messages does. -/
theorem convertAll_isOk (attachments : Option AttachmentStore) (toolNames : ToolNames)
    (messages : List HistoryMessage) :
    (convertAll (convertMessage attachments) toolNames messages).isOk
      = messages.all fun message => (convertMessage attachments [] message).isOk := by
  induction messages generalizing toolNames with
  | nil => rfl
  | cons message rest ih =>
    rw [List.all_cons, ← convertMessage_isOk attachments toolNames []]
    simp only [convertAll]
    cases convertMessage attachments toolNames message with
    | error e => rfl
    | ok converted =>
      obtain ⟨names, converted⟩ := converted
      have hrest : (do
          let messages ← convertAll (convertMessage attachments) names rest
          return converted ++ messages : Except PiAiError (List PiMessage)).isOk
            = (convertAll (convertMessage attachments) names rest).isOk :=
        isOk_bind_true fun _ => rfl
      exact hrest.trans (ih names)

/-- A request converts exactly when each of its messages does. -/
theorem toPiContext_isOk (options : GenerateOptions) (attachments : Option AttachmentStore) :
    (toPiContext options attachments).isOk
      = options.messages.all fun message => (convertMessage attachments [] message).isOk :=
  (isOk_bind_true fun _ => rfl).trans (convertAll_isOk attachments [] options.messages)

end PiAi

end Harness
