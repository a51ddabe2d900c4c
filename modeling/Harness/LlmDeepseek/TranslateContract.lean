-- SUMMARY: What a translated DeepSeek stream is: its grammar, its blocks, and exactly when its deltas assemble to the blocks it ends with.
import Harness.Llm.StreamGrammar
import Harness.LlmDeepseek.Translate

namespace Harness

open List OrderedMap
namespace LlmDeepseek

open StreamGrammar

/-! ## What a stream should be -/

/-- The fragments of a sequence of chunks, in order. -/
def fragmentsOf (chunks : List WireChunk) : List Fragment :=
  chunks.flatMap fun chunk => chunk.choices.flatMap fun choice => choice.delta.fragments

/-- The channels of fragments, each where it first appears. -/
def channels (fragments : List Fragment) : List Channel :=
  fragments.foldl
    (fun seen fragment => if fragment.channel ∈ seen then seen else seen ++ [fragment.channel]) []

def own (fragments : List Fragment) (channel : Channel) : List Fragment :=
  fragments.filter (·.channel = channel)

def textOf (fragments : List Fragment) : JsString := ⟨fragments.flatMap fun f => f.text.units⟩

/-- The id that fragments carry: the last one. -/
def idOf (fragments : List Fragment) : Option JsString :=
  (fragments.filterMap Fragment.id).getLast?

def namesOf (fragments : List Fragment) : List JsString := fragments.filterMap Fragment.name

/-- The block of a channel: its fragments put together, with the id and the name they carried. -/
def blockOf (fragments : List Fragment) (channel : Channel) : ContentBlock :=
  let own := own fragments channel
  match channel with
  | .reasoning => .reasoning (textOf own)
  | .text => .text (textOf own)
  | .tool _ =>
    .toolCall
      { id := (idOf own).getD ⟨[]⟩
        name := (namesOf own).getLast?.getD ⟨[]⟩
        arguments := textOf own }

def startOf : StreamChunk → Option (Num × JsString)
  | .blockStart index blockType => some (index, blockType)
  | _ => none

def endOf : StreamChunk → Option (Num × ContentBlock)
  | .blockEnd index block => some (index, block)
  | _ => none

def isUsage : StreamChunk → Bool
  | .usage _ => true
  | _ => false

def isFinish : StreamChunk → Bool
  | .finish .. => true
  | _ => false

/-- A delta of the block at an index. -/
def isDeltaAt (index : Num) : StreamChunk → Bool
  | .textDelta i _ | .reasoningDelta i _ | .toolCallDelta i .. => i = index
  | _ => false

/-- The blocks that an assembler makes of the deltas of one block alone. -/
def assembledAlone (index : Num) (chunks : List StreamChunk) : Except String (List ContentBlock) :=
  ((chunks.filter (isDeltaAt index)).foldl BlockAssembler.push {}).blocks

/-- A translated stream: it meets the grammar, its blocks in the order of their starts are those of
the channels, and the deltas of a block alone assemble to the block it ends with. -/
structure Streams (fragments : List Fragment) (output : Output) : Prop where
  complete : output.error = none
  accepted : validateStream output.chunks = .ok ()
  started : output.chunks.filterMap startOf =
    (channels fragments).zipIdx.map fun e => (.int e.2, e.1.kind.blockType)
  ended : output.chunks.filterMap endOf =
    (channels fragments).zipIdx.map fun e => (.int e.2, blockOf fragments e.1)
  usageOnce : (output.chunks.filter isUsage).length ≤ 1
  finishLast : ∃ before reason, output.chunks = before ++ [.finish reason none]
    ∧ before.any isFinish = false
  assembled : ∀ index block, (index, block) ∈ output.chunks.filterMap endOf →
    assembledAlone index output.chunks = .ok [block]

/-- A stream that ends in an error, and says nowhere that it has finished. -/
def Throws (output : Output) : Prop :=
  output.error ≠ none ∧ output.chunks.any isFinish = false

/-- A tool call whose last name is empty had no other name before. -/
def NamesSettle (fragments : List Fragment) : Prop :=
  ∀ index, (namesOf (own fragments (.tool index))).getLast? = some ⟨[]⟩ →
    ∀ name ∈ namesOf (own fragments (.tool index)), name = ⟨[]⟩

/-! ## Fragments -/

theorem channels_snoc (fragments : List Fragment) (f : Fragment) :
    channels (fragments ++ [f]) =
      if f.channel ∈ channels fragments then channels fragments
      else channels fragments ++ [f.channel] := by
  rw [channels, foldl_append]
  rfl

theorem nodup_channels (fragments : List Fragment) : (channels fragments).Nodup := by
  induction fragments using List.reverseRecOn with
  | nil => exact nodup_nil
  | append_singleton fragments f ih =>
    rw [channels_snoc]
    split
    · exact ih
    · rename_i hnew
      exact nodup_append_comm.mp (nodup_cons.mpr ⟨hnew, ih⟩)

theorem mem_channels_snoc (fragments : List Fragment) (f : Fragment) :
    f.channel ∈ channels (fragments ++ [f]) := by
  rw [channels_snoc]
  split
  · assumption
  · exact mem_append_right _ (mem_singleton_self _)

theorem own_snoc_self (fragments : List Fragment) (f : Fragment) :
    own (fragments ++ [f]) f.channel = own fragments f.channel ++ [f] := by
  rw [own, filter_append, filter_singleton]
  simp [own]

variable {channel : Channel} {f : Fragment} {fragments : List Fragment}

theorem own_snoc_other
    (h : channel ≠ f.channel) : own (fragments ++ [f]) channel = own fragments channel := by
  rw [own, filter_append, filter_singleton]
  simp [own, Ne.symm h]

theorem own_of_not_mem (h : channel ∉ channels fragments) : own fragments channel = [] := by
  induction fragments using List.reverseRecOn with
  | nil => rfl
  | append_singleton fragments f ih =>
    have hne : channel ≠ f.channel := fun heq => h (heq ▸ mem_channels_snoc fragments f)
    rw [own_snoc_other hne]
    apply ih
    intro hmem
    apply h
    rw [channels_snoc]
    split
    · exact hmem
    · exact mem_append_left _ hmem

theorem textOf_snoc (fragments : List Fragment) (f : Fragment) :
    textOf (fragments ++ [f]) = textOf fragments ++ f.text := by
  rw [textOf, flatMap_append, flatMap_singleton]
  rfl

theorem getLast?_filterMap_snoc (g : Fragment → Option JsString) (fragments : List Fragment)
    (f : Fragment) :
    ((fragments ++ [f]).filterMap g).getLast? = (g f).or (fragments.filterMap g).getLast? := by
  rw [filterMap_append, getLast?_append]
  cases hg : g f with
  | none => simp [hg]
  | some value => simp [hg]

def openBlockOf (fragments : List Fragment) (channel : Channel) (index : Nat) : OpenBlock where
  index := index
  kind := channel.kind
  text := textOf (own fragments channel)
  callId := idOf (own fragments channel)
  name := (namesOf (own fragments channel)).getLast?

theorem closeBlock_openBlockOf (fragments : List Fragment) (channel : Channel) (index : Nat) :
    closeBlock (openBlockOf fragments channel index) = blockOf fragments channel := by
  cases channel <;> rfl

theorem openBlockOf_take (fragments : List Fragment) (f : Fragment) (index : Nat) :
    (openBlockOf fragments f.channel index).take f =
      openBlockOf (fragments ++ [f]) f.channel index := by
  simp only [openBlockOf, OpenBlock.take, own_snoc_self, textOf_snoc, idOf, namesOf,
    getLast?_filterMap_snoc]

theorem openBlockOf_other (h : channel ≠ f.channel) (index : Nat) :
    openBlockOf (fragments ++ [f]) channel index = openBlockOf fragments channel index := by
  simp only [openBlockOf, own_snoc_other h]

/-! ## One fragment -/

/-- What the translator holds after fragments. -/
structure Holds (fragments : List Fragment) (s : State) : Prop where
  nextIndex : s.nextIndex = (channels fragments).length
  blockOf : ∀ channel, s.blockOf channel =
    if channel ∈ channels fragments then some ((channels fragments).idxOf channel) else none
  order : s.order =
    (channels fragments).zipIdx.map fun e => openBlockOf fragments e.1 e.2

def passed (fragments : List Fragment) (f : Fragment) : List StreamChunk :=
  let index := (channels (fragments ++ [f])).idxOf f.channel
  (if f.channel ∈ channels fragments then []
    else [StreamChunk.blockStart (.int index) f.channel.kind.blockType]) ++
  [(openBlockOf (fragments ++ [f]) f.channel index).delta f]

theorem blockOf_opened (s : State) (channel channel' : Channel) :
    (s.opened channel).blockOf channel' =
      if channel' = channel then some s.nextIndex else s.blockOf channel' := by
  cases channel <;> cases channel' <;>
    simp [State.opened, State.blockOf, get?_set]

theorem filter_zipIdx {α : Type} (l : List α) (k j : Nat) :
    ((l.zipIdx k).filter fun e => e.2 = k + j) = (l[j]?.map fun x => (x, k + j)).toList := by
  induction l generalizing k j with
  | nil => rfl
  | cons x l ih =>
    rw [zipIdx_cons, filter_cons]
    cases j with
    | zero =>
      have hrest : ((l.zipIdx (k + 1)).filter fun e => e.2 = k + 0) = [] := by
        rw [filter_eq_nil_iff]
        intro e he
        have := le_snd_of_mem_zipIdx he
        simp only [decide_eq_true_eq]
        omega
      rw [if_pos (by simp), hrest]
      rfl
    | succ j =>
      rw [if_neg (by simp), show k + (j + 1) = k + 1 + j by omega, ih (k + 1) j,
        getElem?_cons_succ]

/-- The block of a fragment's channel takes it in, the others stay. -/
theorem take_order (fragments : List Fragment) (f : Fragment) :
    let l := channels (fragments ++ [f])
    let order := (l.zipIdx.map fun e => openBlockOf fragments e.1 e.2).map fun block =>
      if block.index = l.idxOf f.channel then block.take f else block
    order = l.zipIdx.map (fun e => openBlockOf (fragments ++ [f]) e.1 e.2)
      ∧ (order.filter (·.index = l.idxOf f.channel)).map (fun block => block.delta f) =
        [(openBlockOf (fragments ++ [f]) f.channel (l.idxOf f.channel)).delta f] := by
  intro l order
  have hmem : f.channel ∈ l := mem_channels_snoc fragments f
  have horder : order = l.zipIdx.map (fun e => openBlockOf (fragments ++ [f]) e.1 e.2) := by
    unfold order
    rw [map_map]
    apply map_congr_left
    rintro ⟨channel, index⟩ he
    have hget := mem_zipIdx_iff_getElem?.mp he
    dsimp only [Function.comp_apply]
    by_cases hsame : channel = f.channel
    · subst hsame
      have hindex : l.idxOf f.channel = index := by
        obtain ⟨hlt, hat⟩ := List.getElem?_eq_some_iff.mp hget
        dsimp only at hlt hat
        rw [← hat]
        exact (nodup_channels _).idxOf_getElem index hlt
      rw [if_pos (show (openBlockOf _ _ index).index = _ from hindex.symm), openBlockOf_take]
    · have hindex : index ≠ l.idxOf f.channel := by
        rintro rfl
        rw [getElem?_idxOf hmem] at hget
        exact hsame (Option.some.inj hget).symm
      rw [if_neg (show (openBlockOf _ _ index).index ≠ _ from hindex), openBlockOf_other hsame]
  refine ⟨horder, ?_⟩
  rw [horder, filter_map, map_map]
  have hfilter := filter_zipIdx l 0 (l.idxOf f.channel)
  rw [Nat.zero_add, getElem?_idxOf hmem] at hfilter
  change ((l.zipIdx.filter fun e => e.2 = l.idxOf f.channel).map _) = _
  rw [hfilter]
  rfl

/-- What becomes of the blocks when the one at an index takes in a fragment. -/
def takeAt (f : Fragment) (index : Nat) (order : List OpenBlock) : List OpenBlock :=
  order.map fun block => if block.index = index then block.take f else block

variable {s : State}

theorem feed_known {index : Nat} (h : s.blockOf f.channel = some index) :
    s.feed f = ({ s with order := takeAt f index s.order },
      ((takeAt f index s.order).filter (·.index = index)).map fun block => block.delta f) := by
  rw [State.feed, h]
  rfl

theorem feed_new (h : s.blockOf f.channel = none) : s.feed f =
      ({ s.opened f.channel with order := takeAt f s.nextIndex (s.opened f.channel).order },
        StreamChunk.blockStart (.int s.nextIndex) f.channel.kind.blockType ::
          ((takeAt f s.nextIndex (s.opened f.channel).order).filter
            (·.index = s.nextIndex)).map fun block => block.delta f) := by
  rw [State.feed, h]
  rfl

theorem opened_order (s : State) (channel : Channel) :
    (s.opened channel).order = s.order ++ [{ index := s.nextIndex, kind := channel.kind }] := by
  cases channel <;> rfl

theorem opened_nextIndex (s : State) (channel : Channel) :
    (s.opened channel).nextIndex = s.nextIndex + 1 := by
  cases channel <;> rfl

theorem blockOf_order (s : State) (order : List OpenBlock) (channel : Channel) :
    State.blockOf { s with order } channel = s.blockOf channel := by
  cases channel <;> rfl

theorem Holds.feed (h : Holds fragments s) (f : Fragment) :
    Holds (fragments ++ [f]) (s.feed f).1 ∧ (s.feed f).2 = passed fragments f := by
  obtain ⟨horder, hdelta⟩ := take_order fragments f
  rw [← takeAt] at horder hdelta
  have hsnoc := channels_snoc fragments f
  by_cases hmem : f.channel ∈ channels fragments
  · rw [if_pos hmem] at hsnoc
    have hblock : s.blockOf f.channel = some ((channels fragments).idxOf f.channel) := by
      rw [h.blockOf, if_pos hmem]
    rw [hsnoc, ← h.order] at horder hdelta
    rw [feed_known hblock, passed, if_pos hmem, hsnoc]
    refine ⟨⟨?_, fun channel => ?_, ?_⟩, hdelta⟩
    · rw [hsnoc]
      exact h.nextIndex
    · rw [hsnoc]
      exact (blockOf_order _ _ _).trans (h.blockOf channel)
    · rw [hsnoc]
      exact horder
  rw [if_neg hmem] at hsnoc
  have hblock : s.blockOf f.channel = none := by
    rw [h.blockOf, if_neg hmem]
  have hindex : (channels (fragments ++ [f])).idxOf f.channel = s.nextIndex := by
    rw [hsnoc, idxOf_append, if_neg hmem, h.nextIndex, idxOf_cons_self, Nat.zero_add]
  have hopened : (s.opened f.channel).order =
      (channels (fragments ++ [f])).zipIdx.map fun e => openBlockOf fragments e.1 e.2 := by
    have hfresh : openBlockOf fragments f.channel s.nextIndex =
        { index := s.nextIndex, kind := f.channel.kind } := by
      simp only [openBlockOf, own_of_not_mem hmem]
      rfl
    rw [opened_order, hsnoc, h.order, zipIdx_append, map_append, ← hfresh, h.nextIndex]
    simp
  rw [← hopened, hindex] at horder hdelta
  rw [feed_new hblock, passed, if_neg hmem, hindex]
  refine ⟨⟨?_, fun channel => ?_, horder⟩, by rw [hdelta]; rfl⟩
  · rw [hsnoc, length_append, length_singleton, ← h.nextIndex]
    exact opened_nextIndex s f.channel
  rw [blockOf_order, blockOf_opened, h.blockOf]
  by_cases hsame : channel = f.channel
  · rw [if_pos hsame, hsame, if_pos (mem_channels_snoc fragments f), hindex]
  rw [if_neg hsame, hsnoc]
  simp only [mem_append, mem_singleton, hsame, or_false]
  split
  · rename_i hold
    rw [idxOf_append, if_pos hold]
  · rfl

/-! ## Whole streams -/

def passedAll (before : List Fragment) : List Fragment → List StreamChunk
  | [] => []
  | f :: rest => passed before f ++ passedAll (before ++ [f]) rest

theorem passedAll_append (before fragments more : List Fragment) :
    passedAll before (fragments ++ more) =
      passedAll before fragments ++ passedAll (before ++ fragments) more := by
  induction fragments generalizing before with
  | nil => rw [append_nil]; rfl
  | cons f fragments ih =>
    rw [cons_append, passedAll, passedAll, ih, append_assoc, append_assoc,
      singleton_append]

theorem passedAll_snoc (fragments : List Fragment) (f : Fragment) :
    passedAll [] (fragments ++ [f]) = passedAll [] fragments ++ passed fragments f := by
  rw [passedAll_append, passedAll, passedAll, append_nil, nil_append]

/-- A step over some fragments: the blocks take them in, and they are passed on. -/
def Steps (before : List Fragment) (fragments : List Fragment)
    (result : State × List StreamChunk) : Prop :=
  Holds (before ++ fragments) result.1 ∧ result.2 = passedAll before fragments

theorem Steps.append {before fragments more : List Fragment} {s s' : State}
    {chunks chunks' : List StreamChunk} (h : Steps before fragments (s, chunks))
    (h' : Steps (before ++ fragments) more (s', chunks')) :
    Steps before (fragments ++ more) (s', chunks ++ chunks') := by
  refine ⟨?_, ?_⟩
  · rw [← append_assoc]
    exact h'.1
  · rw [passedAll_append, ← h.2, ← h'.2]

theorem Holds.pending (h : Holds fragments s) (finish : Option FinishReason) (usage : Option Json) :
    Holds fragments { s with pendingFinish := finish, pendingUsage := usage } where
  nextIndex := h.nextIndex
  blockOf channel := by
    rw [← h.blockOf channel]
    cases channel <;> rfl
  order := h.order

theorem Holds.feedAll {before : List Fragment} (h : Holds before s)
    (fragments : List Fragment) : Steps before fragments (s.feedAll fragments) := by
  induction fragments generalizing before s with
  | nil => exact ⟨by rwa [append_nil], rfl⟩
  | cons f fragments ih =>
    obtain ⟨hnext, hpassed⟩ := h.feed f
    have hfirst : Steps before [f] ((s.feed f).1, (s.feed f).2) :=
      ⟨hnext, by rw [hpassed, passedAll, passedAll, append_nil]⟩
    exact hfirst.append (ih hnext)

section

variable (js : Primitives)

variable {before : List Fragment} {s : State}

theorem Holds.choice (h : Holds before s)
    (choice : WireChoice) : Steps before choice.delta.fragments (s.choice js choice) := by
  obtain ⟨hnext, hpassed⟩ := h.feedAll choice.delta.fragments
  exact ⟨hnext.pending _ _, hpassed⟩

theorem Holds.choices (h : Holds before s) (choices : List WireChoice) :
    Steps before (choices.flatMap fun choice => choice.delta.fragments) (s.choices js choices) := by
  induction choices generalizing before s with
  | nil => exact ⟨by rwa [flatMap_nil, append_nil], rfl⟩
  | cons choice choices ih =>
    have hfirst := h.choice js choice
    rw [flatMap_cons]
    exact Steps.append hfirst (ih hfirst.1)

theorem Holds.chunk (h : Holds before s)
    (chunk : WireChunk) : Steps before (fragmentsOf [chunk]) (s.chunk js chunk) := by
  obtain ⟨hnext, hpassed⟩ := h.choices js chunk.choices
  rw [fragmentsOf, flatMap_singleton]
  exact ⟨hnext.pending _ _, hpassed⟩

theorem holds_nil : Holds [] {} where
  nextIndex := rfl
  blockOf channel := by cases channel <;> rfl
  order := rfl

/-- The ends that are flushed when a stream is done. -/
def ends (fragments : List Fragment) : List StreamChunk :=
  (channels fragments).zipIdx.map fun e =>
    StreamChunk.blockEnd (.int e.2) (blockOf fragments e.1)

def whole (fragments : List Fragment) (usage : Option Json) (reason : FinishReason) :
    List StreamChunk :=
  passedAll [] fragments ++ (ends fragments ++
    ((usage.map StreamChunk.usage).toList ++ [.finish reason none]))

theorem Holds.closing {fragments : List Fragment} (h : Holds fragments s) :
    s.closing = ends fragments ++
      ((s.pendingUsage.map StreamChunk.usage).toList ++ [.finish s.finishReason none]) := by
  rw [State.closing, h.order, map_map, ends, append_assoc]
  simp only [Function.comp_def, closeBlock_openBlockOf]
  rfl

theorem translateFrom_done (h : Holds before s) (chunks : List WireChunk) (rest : List Payload) :
    ∃ s', Holds (before ++ fragmentsOf chunks) s' ∧
      translateFrom js s (chunks.map .chunk ++ .done :: rest) =
        ⟨passedAll before (fragmentsOf chunks) ++ s'.closing, none⟩ := by
  induction chunks generalizing before s with
  | nil => exact ⟨s, by rwa [fragmentsOf, flatMap_nil, append_nil], rfl⟩
  | cons chunk chunks ih =>
    obtain ⟨hnext, hpassed⟩ := h.chunk js chunk
    obtain ⟨s', hs', htranslate⟩ := ih hnext
    have hfragments : fragmentsOf (chunk :: chunks) =
        fragmentsOf [chunk] ++ fragmentsOf chunks := by
      rw [fragmentsOf, flatMap_cons, ← fragmentsOf, fragmentsOf, fragmentsOf,
        flatMap_singleton]
    refine ⟨s', by rwa [hfragments, ← append_assoc], ?_⟩
    rw [map_cons, cons_append, translateFrom]
    dsimp only
    rw [htranslate, hpassed, hfragments, passedAll_append, append_assoc]

theorem translate_done (chunks : List WireChunk) (rest : List Payload) :
    ∃ usage reason, translate js (chunks.map .chunk ++ .done :: rest) =
      ⟨whole (fragmentsOf chunks) usage reason, none⟩ := by
  obtain ⟨s, hs, htranslate⟩ := translateFrom_done js holds_nil chunks rest
  rw [nil_append] at hs
  refine ⟨s.pendingUsage, s.finishReason, ?_⟩
  rw [translate, htranslate, hs.closing]
  rfl

/-! ## Starts, ends and the last chunk -/

@[simp] theorem startOf_delta (block : OpenBlock) (f : Fragment) :
    startOf (block.delta f) = none := by
  unfold OpenBlock.delta
  cases block.kind <;> rfl

@[simp] theorem endOf_delta (block : OpenBlock) (f : Fragment) : endOf (block.delta f) = none := by
  unfold OpenBlock.delta
  cases block.kind <;> rfl

@[simp] theorem isUsage_delta (block : OpenBlock) (f : Fragment) :
    isUsage (block.delta f) = false := by
  unfold OpenBlock.delta
  cases block.kind <;> rfl

@[simp] theorem isFinish_delta (block : OpenBlock) (f : Fragment) :
    isFinish (block.delta f) = false := by
  unfold OpenBlock.delta
  cases block.kind <;> rfl

/-- A fragment ends nothing: it opens a block, if at all, and is a delta. -/
theorem passed_plain (fragments : List Fragment) (f : Fragment) :
    (passed fragments f).filterMap endOf = [] ∧ (passed fragments f).filter isUsage = []
      ∧ (passed fragments f).any isFinish = false := by
  have hend (index : Num) (type : JsString) : endOf (.blockStart index type) = none := rfl
  have husage (index : Num) (type : JsString) : isUsage (.blockStart index type) = false := rfl
  have hfinish (index : Num) (type : JsString) : isFinish (.blockStart index type) = false := rfl
  unfold passed
  split <;> simp [hend, husage, hfinish]

theorem passedAll_plain (before fragments : List Fragment) :
    (passedAll before fragments).filterMap endOf = []
      ∧ (passedAll before fragments).filter isUsage = []
      ∧ (passedAll before fragments).any isFinish = false := by
  induction fragments generalizing before with
  | nil => exact ⟨rfl, rfl, rfl⟩
  | cons f fragments ih =>
    obtain ⟨hend, husage, hfinish⟩ := passed_plain before f
    obtain ⟨hend', husage', hfinish'⟩ := ih (before ++ [f])
    rw [passedAll, filterMap_append, filter_append, any_append]
    exact ⟨by rw [hend, hend']; rfl, by rw [husage, husage']; rfl, by rw [hfinish, hfinish']; rfl⟩

theorem idxOf_snoc_new {fragments : List Fragment} {f : Fragment}
    (h : f.channel ∉ channels fragments) :
    (channels (fragments ++ [f])).idxOf f.channel = (channels fragments).length := by
  rw [channels_snoc, if_neg h, idxOf_append, if_neg h, idxOf_cons_self, Nat.zero_add]

theorem passedAll_started (fragments : List Fragment) :
    (passedAll [] fragments).filterMap startOf =
      (channels fragments).zipIdx.map fun e => (Num.int e.2, e.1.kind.blockType) := by
  have hstart (index : Num) (type : JsString) :
      startOf (.blockStart index type) = some (index, type) := rfl
  induction fragments using List.reverseRecOn with
  | nil => rfl
  | append_singleton fragments f ih =>
    rw [passedAll_snoc, filterMap_append, ih, passed]
    by_cases hmem : f.channel ∈ channels fragments
    · simp [if_pos hmem, channels_snoc]
    · rw [idxOf_snoc_new hmem, channels_snoc, if_neg hmem]
      simp [if_neg hmem, hstart, zipIdx_append]

theorem whole_started (fragments : List Fragment) (usage : Option Json) (reason : FinishReason) :
    (whole fragments usage reason).filterMap startOf =
      (channels fragments).zipIdx.map fun e => (Num.int e.2, e.1.kind.blockType) := by
  have hends : (ends fragments).filterMap startOf = [] := by
    rw [filterMap_eq_nil_iff]
    intro chunk hchunk
    obtain ⟨e, -, rfl⟩ := mem_map.mp hchunk
    rfl
  rw [whole, filterMap_append, filterMap_append, passedAll_started, hends]
  cases usage <;> simp [startOf]

theorem whole_ended (fragments : List Fragment) (usage : Option Json) (reason : FinishReason) :
    (whole fragments usage reason).filterMap endOf =
      (channels fragments).zipIdx.map fun e => (Num.int e.2, blockOf fragments e.1) := by
  rw [whole, filterMap_append, filterMap_append, (passedAll_plain [] fragments).1, ends,
    filterMap_map]
  cases usage <;> simp [endOf, Function.comp_def]

theorem whole_usage (fragments : List Fragment) (usage : Option Json) (reason : FinishReason) :
    ((whole fragments usage reason).filter isUsage).length ≤ 1 := by
  have hends : (ends fragments).filter isUsage = [] := by
    rw [filter_eq_nil_iff]
    intro chunk hchunk
    obtain ⟨e, -, rfl⟩ := mem_map.mp hchunk
    exact Bool.false_ne_true
  rw [whole, filter_append, filter_append, (passedAll_plain [] fragments).2.1, hends]
  cases usage
  · exact Nat.zero_le 1
  · exact Nat.le_refl 1

theorem whole_finish (fragments : List Fragment) (usage : Option Json) (reason : FinishReason) :
    ∃ before reason', whole fragments usage reason = before ++ [.finish reason' none]
      ∧ before.any isFinish = false := by
  have hends : (ends fragments).any isFinish = false := by
    rw [ends, any_map]
    exact any_eq_false.mpr fun e _ => Bool.false_ne_true
  refine ⟨passedAll [] fragments ++ (ends fragments ++ (usage.map StreamChunk.usage).toList),
    reason, by simp only [whole, append_assoc], ?_⟩
  rw [any_append, any_append, (passedAll_plain [] fragments).2.2, hends]
  cases usage <;> rfl

end

/-! ## The grammar -/

/-- The types of the blocks that are open, the first at index `k`. -/
def table (k : Nat) (l : List Channel) : OrderedMap Num JsString :=
  (l.zipIdx k).map fun e => (.int e.2, e.1.kind.blockType)

theorem get?_table (k i : Nat) (l : List Channel) :
    OrderedMap.get? (table k l) (.int ((k + i : Nat) : Int)) =
      l[i]?.map fun channel => channel.kind.blockType := by
  induction l generalizing k i with
  | nil => rfl
  | cons channel l ih =>
    rw [table, zipIdx_cons, map_cons, get?_cons, ← table]
    cases i with
    | zero => simp
    | succ i =>
      rw [if_neg (by simp; omega), show k + (i + 1) = k + 1 + i by omega, ih,
        getElem?_cons_succ]

theorem table_append (l : List Channel) (channel : Channel) :
    table 0 (l ++ [channel]) = table 0 l ++ [(.int l.length, channel.kind.blockType)] := by
  simp [table, zipIdx_append]

theorem asSafeInteger_nat (i : Nat) :
    (Num.int i).asSafeInteger = if i ≤ maxSafeInteger then some (i : Int) else none := by
  have hsafe : isSafeInt i = decide (i ≤ maxSafeInteger) := by
    unfold isSafeInt
    apply decide_eq_decide.mpr
    omega
  simp only [Num.asSafeInteger, hsafe, decide_eq_true_eq]

variable {i : Nat}

theorem validateIndex_ok : validateIndex (.int i) = .ok () ↔ i ≤ maxSafeInteger := by
  rw [validateIndex, asSafeInteger_nat]
  by_cases hsafe : i ≤ maxSafeInteger
  · simp [hsafe]
  · simp [hsafe]

variable {l : List Channel}

theorem advance_start (channel : Channel) (hsafe : l.length ≤ maxSafeInteger) :
    advance { openBlocks := table 0 l } (.blockStart (.int l.length) channel.kind.blockType) =
      .ok { openBlocks := table 0 (l ++ [channel]) } := by
  have hfresh : Num.int l.length ∉ OrderedMap.keys (table 0 l) := by
    have hget := get?_table 0 l.length l
    rw [Nat.zero_add, getElem?_eq_none (Nat.le_refl _)] at hget
    exact get?_eq_none_iff.mp hget
  simp only [advance, Bool.false_eq_true, if_false, validateIndex_ok.mpr hsafe, if_neg hfresh,
    OrderedMap.set, table_append]
  rfl

theorem validateDelta_ok {expected : String}
    (hget : l[i]? = some channel) (hsafe : i ≤ maxSafeInteger)
    (hkind : channel.kind.blockType = JsString.ofString expected) :
    validateDelta { openBlocks := table 0 l } (.int i) expected = .ok () := by
  have htype := get?_table 0 i l
  rw [Nat.zero_add, hget, Option.map_some, hkind] at htype
  simp only [validateDelta, validateIndex_ok.mpr hsafe, htype]
  rfl

theorem advance_delta {block : OpenBlock} (f : Fragment)
    (hget : l[block.index]? = some channel) (hsafe : block.index ≤ maxSafeInteger)
    (hkind : block.kind = channel.kind) :
    advance { openBlocks := table 0 l } (block.delta f) = .ok { openBlocks := table 0 l } := by
  unfold OpenBlock.delta
  cases hblock : block.kind <;>
    simp only [advance, Bool.false_eq_true, if_false] <;>
    rw [validateDelta_ok hget hsafe (by rw [← hkind, hblock]; rfl)] <;>
    rfl

theorem passed_accepted (hsafe : (channels (fragments ++ [f])).length ≤ maxSafeInteger + 1) :
    (passed fragments f).foldlM advance { openBlocks := table 0 (channels fragments) } =
      .ok { openBlocks := table 0 (channels (fragments ++ [f])) } := by
  have hget := getElem?_idxOf (mem_channels_snoc fragments f)
  have hlt := (List.getElem?_eq_some_iff.mp hget).1
  have hdelta : advance { openBlocks := table 0 (channels (fragments ++ [f])) }
      ((openBlockOf (fragments ++ [f]) f.channel
        ((channels (fragments ++ [f])).idxOf f.channel)).delta f) =
      .ok { openBlocks := table 0 (channels (fragments ++ [f])) } := by
    apply advance_delta f _ _ rfl
    · exact hget
    · exact Nat.le_of_lt_succ (Nat.lt_of_lt_of_le hlt hsafe)
  unfold passed
  dsimp only
  by_cases hmem : f.channel ∈ channels fragments
  · have hsame : channels (fragments ++ [f]) = channels fragments := by
      rw [channels_snoc, if_pos hmem]
    rw [if_pos hmem, nil_append, ← hsame]
    dsimp only [List.foldlM]
    rw [hdelta]
    rfl
  have hnew : channels (fragments ++ [f]) = channels fragments ++ [f.channel] := by
    rw [channels_snoc, if_neg hmem]
  have hstart := @advance_start (channels fragments) f.channel (by
    rw [hnew, length_append, length_singleton] at hsafe
    omega)
  rw [idxOf_snoc_new hmem] at hdelta ⊢
  rw [if_neg hmem, singleton_append]
  dsimp only [List.foldlM]
  rw [hstart, ← hnew]
  change (advance _ _ >>= _) = _
  rw [hdelta]
  rfl

theorem length_channels_snoc_le (fragments : List Fragment) (f : Fragment) :
    (channels fragments).length ≤ (channels (fragments ++ [f])).length := by
  rw [channels_snoc]
  split
  · exact Nat.le_refl _
  · rw [length_append]
    exact Nat.le_add_right _ _

theorem passedAll_accepted (hsafe : (channels fragments).length ≤ maxSafeInteger + 1) :
    (passedAll [] fragments).foldlM advance {} =
      .ok { openBlocks := table 0 (channels fragments) } := by
  induction fragments using List.reverseRecOn with
  | nil => rfl
  | append_singleton fragments f ih =>
    rw [passedAll_snoc, foldlM_append,
      ih (Nat.le_trans (length_channels_snoc_le fragments f) hsafe)]
    exact passed_accepted hsafe

theorem type_blockOf (fragments : List Fragment) (channel : Channel) :
    (blockOf fragments channel).type = channel.kind.blockType := by
  cases channel <;> rfl

theorem delete_table (k : Nat) (channel : Channel) (l : List Channel) :
    delete (table k (channel :: l)) (.int k) = table (k + 1) l := by
  rw [table, zipIdx_cons, map_cons, delete, filter_cons_of_neg (by simp)]
  rw [← table, filter_eq_self]
  intro e he
  obtain ⟨⟨other, index⟩, hmem, rfl⟩ := mem_map.mp he
  have := le_snd_of_mem_zipIdx hmem
  simp only [ne_eq, Num.int.injEq, decide_not, Bool.not_eq_eq_eq_not, Bool.not_true,
    decide_eq_false_iff_not]
  dsimp only at this
  omega

theorem ends_accepted (fragments : List Fragment) (k : Nat) (l : List Channel)
    (hsafe : k + l.length ≤ maxSafeInteger + 1) :
    ((l.zipIdx k).map fun e => StreamChunk.blockEnd (.int e.2) (blockOf fragments e.1)).foldlM
        advance { openBlocks := table k l } = .ok {} := by
  induction l generalizing k with
  | nil => rfl
  | cons channel l ih =>
    rw [length_cons] at hsafe
    have hget := get?_table k 0 (channel :: l)
    rw [Nat.add_zero, getElem?_cons_zero, Option.map_some] at hget
    have hend : advance { openBlocks := table k (channel :: l) }
        (.blockEnd (.int k) (blockOf fragments channel)) =
        .ok { openBlocks := table (k + 1) l } := by
      have hindex : validateIndex (.int k) = .ok () := validateIndex_ok.mpr (by omega)
      simp only [advance, Bool.false_eq_true, if_false, hindex, hget, type_blockOf, delete_table,
        ne_eq, not_true_eq_false]
      rfl
    rw [zipIdx_cons, map_cons, foldlM_cons, hend]
    exact ih (k + 1) (by omega)

theorem whole_accepted (usage : Option Json) (reason : FinishReason)
    (hsafe : (channels fragments).length ≤ maxSafeInteger + 1) :
    validateStream (whole fragments usage reason) = .ok () := by
  unfold validateStream whole
  rw [foldlM_append, passedAll_accepted hsafe]
  change ((List.foldlM advance { openBlocks := table 0 (channels fragments) } _) >>= _) = _
  rw [foldlM_append, ends, ends_accepted fragments 0 _ (by omega)]
  cases usage <;> cases reason <;> rfl

/-! ## Assembling deltas -/

def named (name : JsString) : Bool := name.units.length > 0

/-- What an assembler holds of a channel whose deltas it has seen. -/
def partialOf (fragments : List Fragment) (channel : Channel) : PartialBlock :=
  let own := own fragments channel
  match channel with
  | .reasoning | .text => { blockType := channel.kind.blockType, text := textOf own }
  | .tool _ =>
    { blockType := channel.kind.blockType
      toolCallId := some ((idOf own).getD ⟨[]⟩)
      toolCallName := ((namesOf own).filter named).getLast?
      toolCallArguments := textOf own }

theorem partialOf_other
    (h : channel ≠ f.channel) : partialOf (fragments ++ [f]) channel = partialOf fragments channel := by
  cases channel <;> simp only [partialOf, own_snoc_other h]

theorem lastNamed (names : List JsString) :
    (names.getLast?.filter named).or (names.filter named).getLast? =
      (names.filter named).getLast? := by
  induction names using List.reverseRecOn with
  | nil => rfl
  | append_singleton names name =>
    rw [getLast?_concat, filter_append]
    by_cases hname : named name
    · simp [Option.filter, hname]
    · simp [Option.filter, hname]

/-- The last name that is not empty, after one more fragment. -/
theorem lastNamed_snoc (fragments : List Fragment) (f : Fragment) :
    ((namesOf (fragments ++ [f])).getLast?.filter named).or
        ((namesOf fragments).filter named).getLast? =
      ((namesOf (fragments ++ [f])).filter named).getLast? := by
  rw [namesOf, filterMap_append, ← namesOf]
  cases hname : f.name with
  | none => simpa [hname] using lastNamed (namesOf fragments)
  | some name =>
    by_cases hnamed : named name
    · simp [Option.filter, hname, hnamed]
    · simp [Option.filter, hname, hnamed]

/-- A delta for the one block that an assembler has, or for its first. -/
theorem extend_ensure {a : BlockAssembler} {index : Num} {type : JsString} {p : PartialBlock}
    (g : PartialBlock → PartialBlock)
    (h : a.partials = [(index, p)] ∨ a.partials = [] ∧ p = { blockType := type })
    (hopen : p.block = none) :
    (a.ensure index type).extend index g = { a with partials := [(index, g p)] } := by
  rcases h with h | ⟨h, hfresh⟩
  · simp [BlockAssembler.ensure, BlockAssembler.extend, OrderedMap.modify, OrderedMap.keys, h, hopen]
  · simp [BlockAssembler.ensure, BlockAssembler.extend, OrderedMap.modify, OrderedMap.keys, h, hfresh]

theorem push_delta {a : BlockAssembler}
    (h : a.partials = [(Num.int i, partialOf fragments f.channel)]
      ∨ a.partials = [] ∧ own fragments f.channel = []) :
    a.push ((openBlockOf (fragments ++ [f]) f.channel i).delta f) =
      { a with partials := [(Num.int i, partialOf (fragments ++ [f]) f.channel)] } := by
  have hself := own_snoc_self fragments f
  have htext := textOf_snoc (own fragments f.channel) f
  generalize hchannel : f.channel = channel at *
  cases channel with
  | reasoning =>
    change (a.ensure (.int i) "reasoning").extend (.int i) _ = _
    have hp : a.partials = [(Num.int i, partialOf fragments .reasoning)]
        ∨ a.partials = [] ∧ partialOf fragments .reasoning = { blockType := "reasoning" } := by
      refine h.imp_right fun h => ⟨h.1, ?_⟩
      simp only [partialOf, h.2]
      rfl
    rw [extend_ensure _ hp rfl]
    simp only [partialOf, hself, htext]
    rfl
  | text =>
    change (a.ensure (.int i) "text").extend (.int i) _ = _
    have hp : a.partials = [(Num.int i, partialOf fragments .text)]
        ∨ a.partials = [] ∧ partialOf fragments .text = { blockType := "text" } := by
      refine h.imp_right fun h => ⟨h.1, ?_⟩
      simp only [partialOf, h.2]
      rfl
    rw [extend_ensure _ hp rfl]
    simp only [partialOf, hself, htext]
    rfl
  | tool index =>
    change (a.ensure (.int i) "tool-call").extend (.int i) _ = _
    have hnames := lastNamed_snoc (own fragments (.tool index)) f
    rcases h with h | ⟨h, hown⟩
    · rw [extend_ensure _ (.inl h) rfl]
      simp only [partialOf, openBlockOf, hself, htext, ← hnames]
      rfl
    · rw [extend_ensure _ (.inr ⟨h, rfl⟩) rfl]
      rw [hown] at hnames htext hself
      simp only [partialOf, openBlockOf, hself, htext, ← hnames]
      rfl

theorem filter_passed (fragments : List Fragment) (f : Fragment) (i : Nat) :
    (passed fragments f).filter (isDeltaAt (.int i)) =
      if (channels (fragments ++ [f])).idxOf f.channel = i then
        [(openBlockOf (fragments ++ [f]) f.channel i).delta f]
      else [] := by
  have hstart (index : Num) (type : JsString) :
      isDeltaAt (.int i) (.blockStart index type) = false := rfl
  have hdelta (block : OpenBlock) :
      isDeltaAt (.int i) (block.delta f) = decide (block.index = i) := by
    unfold OpenBlock.delta
    cases block.kind <;> simp [isDeltaAt]
  unfold passed
  dsimp only
  by_cases hindex : (channels (fragments ++ [f])).idxOf f.channel = i
  · rw [if_pos hindex, hindex]
    split <;> simp [hstart, hdelta, openBlockOf]
  · rw [if_neg hindex]
    split <;> simp [hstart, hdelta, openBlockOf, hindex]

/-- Deltas of one block alone give its part of what was seen. -/
theorem assembled_passedAll (fragments : List Fragment) (i : Nat) :
    ((passedAll [] fragments).filter (isDeltaAt (.int i))).foldl BlockAssembler.push {} =
      { partials := ((channels fragments)[i]?.map fun channel =>
          (Num.int i, partialOf fragments channel)).toList } := by
  induction fragments using List.reverseRecOn with
  | nil => rfl
  | append_singleton fragments f ih =>
    rw [passedAll_snoc, filter_append, foldl_append, ih, filter_passed]
    by_cases hindex : (channels (fragments ++ [f])).idxOf f.channel = i
    · have hget : (channels (fragments ++ [f]))[i]? = some f.channel := by
        rw [← hindex]
        exact getElem?_idxOf (mem_channels_snoc fragments f)
      rw [if_pos hindex, hget, foldl_cons, foldl_nil, push_delta]
      · rfl
      by_cases hmem : f.channel ∈ channels fragments
      · rw [channels_snoc, if_pos hmem] at hget
        rw [hget]
        exact .inl rfl
      · rw [idxOf_snoc_new hmem] at hindex
        rw [getElem?_eq_none (by omega)]
        exact .inr ⟨rfl, own_of_not_mem hmem⟩
    · rw [if_neg hindex, foldl_nil]
      have hget : (channels (fragments ++ [f]))[i]? = (channels fragments)[i]? := by
        by_cases hmem : f.channel ∈ channels fragments
        · rw [channels_snoc, if_pos hmem]
        rw [idxOf_snoc_new hmem] at hindex
        rw [channels_snoc, if_neg hmem]
        rcases Nat.lt_or_gt_of_ne hindex with hlt | hgt
        · rw [getElem?_eq_none (by simp; omega), getElem?_eq_none (by omega)]
        · rw [getElem?_append_left hgt]
      rw [hget]
      cases hchannel : (channels fragments)[i]? with
      | none => rfl
      | some channel =>
        have hne : channel ≠ f.channel := by
          rintro rfl
          rw [← hget] at hchannel
          obtain ⟨hlt, hat⟩ := List.getElem?_eq_some_iff.mp hchannel
          apply hindex
          rw [← hat]
          exact (nodup_channels _).idxOf_getElem i hlt
        rw [Option.map_some, Option.map_some, partialOf_other hne]

/-- The block that the deltas of a channel assemble to. -/
def assembledOf (fragments : List Fragment) (channel : Channel) : ContentBlock :=
  match channel with
  | .tool _ =>
    .toolCall
      { id := (idOf (own fragments channel)).getD ⟨[]⟩
        name := ((namesOf (own fragments channel)).filter named).getLast?.getD ⟨[]⟩
        arguments := textOf (own fragments channel) }
  | _ => blockOf fragments channel

theorem whole_assembled (hget : (channels fragments)[i]? = some channel) (usage : Option Json)
    (reason : FinishReason) :
    assembledAlone (.int i) (whole fragments usage reason) =
      .ok [assembledOf fragments channel] := by
  have hends : (ends fragments).filter (isDeltaAt (.int i)) = [] := by
    rw [filter_eq_nil_iff]
    intro chunk hchunk
    obtain ⟨e, -, rfl⟩ := mem_map.mp hchunk
    exact Bool.false_ne_true
  have hfilter : (whole fragments usage reason).filter (isDeltaAt (.int i)) =
      (passedAll [] fragments).filter (isDeltaAt (.int i)) := by
    rw [whole, filter_append, filter_append, hends]
    cases usage <;> exact append_nil _
  rw [assembledAlone, hfilter, assembled_passedAll, hget]
  cases channel <;> rfl

theorem named_iff {name : JsString} : named name = true ↔ name ≠ ⟨[]⟩ := by
  obtain ⟨units⟩ := name
  cases units <;> simp [named]

theorem lastNamed_eq_iff (names : List JsString) :
    (names.filter named).getLast?.getD ⟨[]⟩ = names.getLast?.getD ⟨[]⟩ ↔
      (names.getLast? = some ⟨[]⟩ → ∀ name ∈ names, name = ⟨[]⟩) := by
  induction names using List.reverseRecOn with
  | nil => simp
  | append_singleton names name =>
    rw [getLast?_concat, filter_append]
    by_cases hname : named name
    · have hne := named_iff.mp hname
      simp [hname, hne]
    have hempty : name = ⟨[]⟩ := not_not.mp (named_iff.not.mp hname)
    subst hempty
    have hnot : [(⟨[]⟩ : JsString)].filter named = [] := rfl
    rw [hnot, append_nil, Option.getD_some]
    constructor
    · intro hlast _ other hmem
      rcases mem_append.mp hmem with hmem | hmem
      · by_contra hne
        -- the last name that is kept would not be empty
        obtain ⟨kept, hkept⟩ := getLast?_isSome.mpr
          (ne_nil_of_mem (mem_filter.mpr ⟨hmem, named_iff.mpr hne⟩)) |>
          Option.isSome_iff_exists.mp
        rw [hkept, Option.getD_some] at hlast
        have hin := mem_of_getLast? hkept
        exact named_iff.mp (mem_filter.mp hin).2 hlast
      · exact mem_singleton.mp hmem
    · intro hall
      have hnone : names.filter named = [] := by
        rw [filter_eq_nil_iff]
        intro other hmem hnamed
        exact named_iff.mp hnamed (hall rfl other (mem_append_left _ hmem))
      rw [hnone]
      rfl

theorem namesSettle_iff : NamesSettle fragments ↔
      ∀ channel ∈ channels fragments, assembledOf fragments channel = blockOf fragments channel := by
  constructor
  · intro hsettle channel _
    cases channel with
    | reasoning => rfl
    | text => rfl
    | tool index =>
      have hname := (lastNamed_eq_iff _).mpr (hsettle index)
      simp only [assembledOf, blockOf, hname]
  · intro hall index
    apply (lastNamed_eq_iff _).mp
    by_cases hmem : Channel.tool index ∈ channels fragments
    · have hsame := hall _ hmem
      simp only [assembledOf, blockOf, ContentBlock.toolCall.injEq, ToolCallBlock.mk.injEq,
        true_and, and_true] at hsame
      exact hsame
    · rw [own_of_not_mem hmem]
      rfl

/-! ## The stream -/

theorem advance_ok_of_foldlM {chunks : List StreamChunk} {s s' : StreamGrammar.State}
    (h : chunks.foldlM advance s = .ok s') :
    ∀ chunk ∈ chunks, ∃ t t', advance t chunk = .ok t' := by
  induction chunks generalizing s with
  | nil => exact fun chunk hmem => absurd hmem not_mem_nil
  | cons first chunks ih =>
    rw [foldlM_cons] at h
    obtain ⟨t, hfirst, h⟩ := Except.bind_eq_ok.mp h
    intro chunk hmem
    rcases mem_cons.mp hmem with rfl | hmem
    · exact ⟨s, t, hfirst⟩
    · exact ih h chunk hmem

theorem validateIndex_of_start {s s' : StreamGrammar.State} {index : Num} {type : JsString}
    (h : advance s (.blockStart index type) = .ok s') : validateIndex index = .ok () := by
  unfold advance at h
  split at h
  · cases h
  cases hindex : validateIndex index with
  | error e =>
    simp only [hindex] at h
    cases h
  | ok => rfl

/-- The grammar knows safe integers only, so it lets no more blocks through. -/
theorem safe_of_accepted {usage : Option Json} {reason : FinishReason}
    (h : validateStream (whole fragments usage reason) = .ok ()) :
    (channels fragments).length ≤ maxSafeInteger + 1 := by
  by_contra hover
  obtain ⟨channel, hchannel⟩ : ∃ channel, (channels fragments)[maxSafeInteger + 1]? = some channel :=
    ⟨_, getElem?_eq_getElem (by omega)⟩
  have hstart : (Num.int ((maxSafeInteger + 1 : Nat) : Int), channel.kind.blockType) ∈
      (whole fragments usage reason).filterMap startOf := by
    rw [whole_started]
    exact mem_map.mpr ⟨(channel, maxSafeInteger + 1),
      mem_zipIdx_iff_getElem?.mpr hchannel, rfl⟩
  obtain ⟨chunk, hmem, hchunk⟩ := mem_filterMap.mp hstart
  unfold validateStream at h
  obtain ⟨s, hfold, h⟩ := Except.bind_eq_ok.mp h
  obtain ⟨t, t', hadvance⟩ := advance_ok_of_foldlM hfold chunk hmem
  cases chunk with
  | blockStart index type =>
    cases Option.some.inj hchunk
    have hsafe := validateIndex_ok.mp (validateIndex_of_start hadvance)
    omega
  | _ => cases hchunk

section

variable (js : Primitives)

theorem translateFrom_throws {before : List Fragment} {s : State} (h : Holds before s)
    {body tail : List Payload} (hdone : .done ∉ body)
    (hfails : tail = [] ∨ ∃ text, .malformed text ∈ body) :
    Throws (translateFrom js s (body ++ tail)) := by
  induction body generalizing before s with
  | nil =>
    obtain rfl : tail = [] := hfails.resolve_right fun ⟨text, hmem⟩ => absurd hmem not_mem_nil
    exact ⟨Option.some_ne_none _, rfl⟩
  | cons payload body ih =>
    rw [mem_cons, not_or] at hdone
    cases payload with
    | done => exact absurd rfl hdone.1
    | malformed text => exact ⟨Option.some_ne_none _, rfl⟩
    | chunk chunk =>
      obtain ⟨hnext, hpassed⟩ := h.chunk js chunk
      have hrest : tail = [] ∨ ∃ text, .malformed text ∈ body := by
        refine hfails.imp_right fun ⟨text, hmem⟩ => ⟨text, ?_⟩
        exact (mem_cons.mp hmem).resolve_left nofun
      obtain ⟨herror, hplain⟩ := ih hnext hdone.2 hrest
      refine ⟨herror, ?_⟩
      rw [cons_append, translateFrom]
      dsimp only
      rw [any_append, hpassed, (passedAll_plain _ _).2.2, hplain]
      rfl

/-- A stream that is done is well formed and assembles to its own blocks exactly when no tool call
loses its name again; one that is cut off or has a malformed payload ends in an error. -/
theorem translate_iff (chunks : List WireChunk) (rest : List Payload) :
    (Streams (fragmentsOf chunks) (translate js (chunks.map .chunk ++ .done :: rest)) ↔
        NamesSettle (fragmentsOf chunks)
          ∧ (channels (fragmentsOf chunks)).length ≤ maxSafeInteger + 1)
      ∧ ∀ body tail, .done ∉ body → (tail = [] ∨ ∃ text, .malformed text ∈ body) →
          Throws (translate js (body ++ tail)) := by
  refine ⟨?_, fun body tail hdone hfails => translateFrom_throws js holds_nil hdone hfails⟩
  obtain ⟨usage, reason, htranslate⟩ := translate_done js chunks rest
  rw [htranslate, namesSettle_iff]
  have hended := whole_ended (fragmentsOf chunks) usage reason
  constructor
  · intro h
    refine ⟨fun channel hmem => ?_, safe_of_accepted h.accepted⟩
    have hget := getElem?_idxOf hmem
    have hend := mem_map_of_mem (f := fun e : Channel × Nat =>
      (Num.int e.2, blockOf (fragmentsOf chunks) e.1)) (mem_zipIdx_iff_getElem?.mpr
        (show (channels (fragmentsOf chunks))[((channel,
          (channels (fragmentsOf chunks)).idxOf channel) : Channel × Nat).2]? = _ from hget))
    rw [← hended] at hend
    have hsame := h.assembled _ _ hend
    dsimp only at hsame
    rw [whole_assembled hget] at hsame
    exact (cons.inj (Except.ok.inj hsame)).1
  · rintro ⟨hsettle, hsafe⟩
    refine ⟨rfl, whole_accepted usage reason hsafe, whole_started _ _ _, hended,
      whole_usage _ _ _, whole_finish _ _ _, fun index block hmem => ?_⟩
    rw [hended] at hmem
    obtain ⟨⟨channel, i⟩, hat, heq⟩ := mem_map.mp hmem
    obtain ⟨rfl, rfl⟩ := Prod.mk.inj heq
    have hget := mem_zipIdx_iff_getElem?.mp hat
    rw [whole_assembled hget, hsettle channel (mem_of_getElem? hget)]

end

/-- Subtraction of integers, and `toUpperCase` on ASCII. -/
def asciiPrimitives : Primitives where
  subtract a b :=
    match a, b with
    | .int a, .int b => .int (a - b)
    | a, _ => a
  toUpperCase s := ⟨s.units.map fun u => if 97 ≤ u ∧ u ≤ 122 then u - 32 else u⟩

/-- A chunk with one fragment of the tool call at index 0. -/
def callChunk (id : Option JsString) (name arguments : JsString) : WireChunk :=
  { choices :=
      [{ delta := { toolCalls := [{ index := .int 0, id, name := some name, arguments }] } }] }

/-- A call that is named first and has an empty name in its second fragment. -/
def unnamedCall : List WireChunk :=
  [callChunk (some "c") "read" "\x7b", callChunk none ⟨[]⟩ "\x7d"]

/-- The block ends without a name, its deltas assemble to one with the name. -/
theorem unnamedCall_parts :
    ¬ Streams (fragmentsOf unnamedCall)
      (translate asciiPrimitives (unnamedCall.map .chunk ++ [.done])) := by
  intro h
  have hend : (Num.int 0, ContentBlock.toolCall ⟨"c", ⟨[]⟩, "\x7b\x7d"⟩) ∈
      (translate asciiPrimitives (unnamedCall.map .chunk ++ [.done])).chunks.filterMap endOf :=
    mem_singleton.mpr rfl
  have hdeltas : assembledAlone (.int 0)
      (translate asciiPrimitives (unnamedCall.map .chunk ++ [.done])).chunks =
      .ok [.toolCall ⟨"c", "read", "\x7b\x7d"⟩] := rfl
  have hsame := hdeltas.symm.trans (h.assembled _ _ hend)
  have hcall := ContentBlock.toolCall.inj (cons.inj (Except.ok.inj hsame)).1
  exact absurd (congrArg ToolCallBlock.name hcall) (by decide)

end LlmDeepseek

end Harness
