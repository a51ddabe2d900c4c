-- SUMMARY: The read tool's pages (`tool-fs/src/read.ts`): following its footers covers a file exactly when each line fits in a page.
import Harness.FsRead.WindowContract

namespace Harness

open List
namespace FsRead

/-! ## Arguments -/

/-- The read caps of a deployment; each is asserted to be a positive integer. -/
structure ReadToolCaps where
  limit : Nat
  maxLineLength : Nat
  maxBytes : Nat
  limitPositive : 0 < limit
  maxLineLengthPositive : 0 < maxLineLength
  maxBytesPositive : 0 < maxBytes

structure ReadArgs where
  filePath : JsString
  offset : Option ℚ
  limit : Option ℚ

structure ReadInput where
  filePath : JsString
  offset : Nat
  limit : Nat

def parsePositiveInteger (value : ℚ) (name : String) : Except String Nat :=
  if value.den ≠ 1 ∨ value < 1 then .error s!"{name} must be a positive integer"
  else .ok value.num.toNat

/-- A number that may be absent. -/
def parseOptional (value : Option ℚ) (fallback : Nat) (name : String) : Except String Nat :=
  match value with
  | none => .ok fallback
  | some value => parsePositiveInteger value name

def parseReadArgs (args : ReadArgs) (maxLimit : Nat) : Except String ReadInput :=
  if args.filePath.trim.units.length = 0 then .error "file_path must be a non-empty string"
  else
    match parseOptional args.offset 1 "offset" with
    | .error message => .error message
    | .ok offset =>
      match parseOptional args.limit maxLimit "limit" with
      | .error message => .error message
      | .ok limit =>
        if limit > maxLimit then .error s!"limit must be less than or equal to {maxLimit}"
        else .ok ⟨args.filePath, offset, limit⟩

/-! ## Footers -/

/-- The last line of a read's text. -/
inductive Footer where
  | capped (offset endLine : Nat)
  | showing (offset endLine totalLines : Nat)
  | endOfFile (totalLines : Nat)
  deriving DecidableEq

def Footer.text : Footer → String
  | .capped offset endLine =>
    s!"(Output capped. Showing lines {offset}-{endLine}. Use offset={endLine + 1} to continue.)"
  | .showing offset endLine totalLines =>
    s!"(Showing lines {offset}-{endLine} of {totalLines}. Use offset={endLine + 1} to continue.)"
  | .endOfFile totalLines => s!"(End of file - total {totalLines} lines)"

/-- The offset a footer asks to continue with. -/
def Footer.continuation : Footer → Option Nat
  | .capped _ endLine => some (endLine + 1)
  | .showing _ endLine _ => some (endLine + 1)
  | .endOfFile _ => none

structure FileReadOutcome where
  offset : Nat
  lines : List FileTextLine
  totalLines : Nat
  truncatedByBytes : Bool

def FileReadOutcome.endLine (outcome : FileReadOutcome) : Nat :=
  match outcome.lines.getLast? with
  | some line => line.number
  | none => outcome.offset - 1

def FileReadOutcome.footer (outcome : FileReadOutcome) : Footer :=
  if outcome.truncatedByBytes then .capped outcome.offset outcome.endLine
  else if outcome.endLine < outcome.totalLines then
    .showing outcome.offset outcome.endLine outcome.totalLines
  else .endOfFile outcome.totalLines

def numberedLines (lines : List FileTextLine) : JsString :=
  ⟨[10].intercalate <| lines.map fun line =>
    (JsString.ofString s!"{line.number}: " ++ line.text).units⟩

def formatReadOutput (displayPath : JsString) (outcome : FileReadOutcome) : JsString :=
  let footer := JsString.ofString outcome.footer.text
  let body := if outcome.lines.length > 0 then
      numberedLines outcome.lines ++ JsString.ofString "\n\n" ++ footer
    else footer
  JsString.ofString "<path>" ++ displayPath ++
    JsString.ofString "</path>\n<type>file</type>\n<content>\n" ++ body ++
    JsString.ofString "\n</content>"

/-! ## One read -/

structure ReadOutput where
  path : JsString
  offset : Nat
  lines : List FileTextLine
  totalLines : Nat

/-- The outcome that is rendered: whether bytes ran out is read off the lines. -/
def ReadOutput.outcome (value : ReadOutput) (limit : Nat) : FileReadOutcome :=
  let endLine := match value.lines.getLast? with
    | some line => line.number
    | none => value.offset - 1
  { offset := value.offset
    lines := value.lines
    totalLines := value.totalLines
    truncatedByBytes := value.lines.length < limit && endLine < value.totalLines }

inductive ReadError where
  | arguments (message : String)
  | outOfRange (error : OutOfRange)

variable (caps : ReadToolCaps)

def execute (args : ReadArgs) (chunks : List (List UInt16)) (displayPath : JsString) :
    Except ReadError ReadOutput :=
  match parseReadArgs args caps.limit with
  | .error message => .error (.arguments message)
  | .ok input =>
    match buildWindow ⟨input.offset, input.limit, caps.maxLineLength, caps.maxBytes⟩ chunks
      displayPath with
    | .error error => .error (.outOfRange error)
    | .ok window => .ok ⟨displayPath, input.offset, window.lines, window.totalLines⟩

/-- What the model reads of an output. -/
def render (args : ReadArgs) (value : ReadOutput) : Except ReadError JsString :=
  match parseReadArgs args caps.limit with
  | .error message => .error (.arguments message)
  | .ok input => .ok (formatReadOutput value.path (value.outcome input.limit))

/-- The footer that `render` prints. -/
def renderedFooter (args : ReadArgs) (value : ReadOutput) : Option Footer :=
  match parseReadArgs args caps.limit with
  | .error _ => none
  | .ok input => some (value.outcome input.limit).footer

/-! ## Following the footers -/

/-- The reads of one file, from `offset` on: each is followed by the one its footer asks for, until
one says that the file has ended. However the file reaches the tool, its text is the same. -/
inductive PagedRead (filePath displayPath : JsString) (limit : Option ℚ) (text : List UInt16) :
    Nat → List ReadOutput → Prop where
  | last {offset : Nat} {chunks value footer} : chunks.flatten = text →
      execute caps ⟨filePath, some (offset : ℚ), limit⟩ chunks displayPath = .ok value →
      renderedFooter caps ⟨filePath, some (offset : ℚ), limit⟩ value = some footer →
      footer.continuation = none → PagedRead filePath displayPath limit text offset [value]
  | more {offset : Nat} {chunks value footer next rest} : chunks.flatten = text →
      execute caps ⟨filePath, some (offset : ℚ), limit⟩ chunks displayPath = .ok value →
      renderedFooter caps ⟨filePath, some (offset : ℚ), limit⟩ value = some footer →
      footer.continuation = some next →
      PagedRead filePath displayPath limit text next rest →
      PagedRead filePath displayPath limit text offset (value :: rest)

/-- Following the footers from the first line on comes to an end, visits every line once and in
order, and moves on with every page. -/
def Covers (filePath displayPath : JsString) (limit : Option ℚ) (text : List UInt16) : Prop :=
  ∃ pages, PagedRead caps filePath displayPath limit text 1 pages
    ∧ pages.flatMap (fun page => page.lines.map FileTextLine.number) =
      List.range' 1 (linesOf text).length
    ∧ ∀ page ∈ pages, ∀ footer next,
      renderedFooter caps ⟨filePath, some (page.offset : ℚ), limit⟩ page = some footer →
        footer.continuation = some next → page.offset < next

/-! ## What is printed -/

/-! ## One page -/

theorem parsePositiveInteger_natCast {n : Nat} (h : 0 < n) (name : String) :
    parsePositiveInteger (n : ℚ) name = .ok n := by
  have hnot : ¬ ((n : ℚ).den ≠ 1 ∨ (n : ℚ) < 1) := by
    rw [not_or]
    refine ⟨fun hden => hden (Rat.den_natCast n), not_lt_of_ge ?_⟩
    exact_mod_cast h
  rw [parsePositiveInteger, if_neg hnot, Rat.num_natCast, Int.toNat_natCast]

theorem parsePositiveInteger_pos {value : ℚ} {name : String} {n : Nat}
    (h : parsePositiveInteger value name = .ok n) : 0 < n := by
  unfold parsePositiveInteger at h
  split at h
  · cases h
  rename_i hnot
  rw [not_or, not_lt] at hnot
  cases h
  have hnum : 0 < value.num := Rat.num_pos.mpr (lt_of_lt_of_le one_pos hnot.2)
  omega

theorem parseReadArgs_ok {args : ReadArgs} {maxLimit : Nat} {input : ReadInput} :
    parseReadArgs args maxLimit = .ok input ↔
      args.filePath.trim.units.length ≠ 0 ∧ parseOptional args.offset 1 "offset" = .ok input.offset
        ∧ parseOptional args.limit maxLimit "limit" = .ok input.limit
        ∧ input.limit ≤ maxLimit ∧ input.filePath = args.filePath := by
  unfold parseReadArgs
  split
  · rename_i hblank
    simp [hblank]
  rename_i hpath
  cases hoffset : parseOptional args.offset 1 "offset" with
  | error message => simp
  | ok offset =>
    cases hlimit : parseOptional args.limit maxLimit "limit" with
    | error message => simp
    | ok limit =>
      dsimp only
      split
      · rename_i hover
        simp only [reduceCtorEq, Except.ok.injEq, false_iff, not_and]
        intro _ _ hsame
        omega
      rename_i hwithin
      obtain ⟨inputPath, inputOffset, inputLimit⟩ := input
      simp only [Except.ok.injEq, ReadInput.mk.injEq]
      constructor
      · rintro ⟨rfl, rfl, rfl⟩
        exact ⟨hpath, rfl, rfl, by omega, rfl⟩
      · rintro ⟨-, rfl, rfl, -, rfl⟩
        exact ⟨rfl, rfl, rfl⟩

/-- A limit that is accepted with one offset is accepted with every one, as the same. -/
theorem parseReadArgs_offset {filePath : JsString} {limit : Option ℚ} {maxLimit : Nat}
    {input : ReadInput} {value : ℚ}
    (h : parseReadArgs ⟨filePath, some value, limit⟩ maxLimit = .ok input)
    {offset : Nat} (hoffset : 0 < offset) :
    parseReadArgs ⟨filePath, some (offset : ℚ), limit⟩ maxLimit =
      .ok ⟨filePath, offset, input.limit⟩ := by
  obtain ⟨hpath, -, hlimit, hmax, -⟩ := parseReadArgs_ok.mp h
  apply parseReadArgs_ok.mpr
  exact ⟨hpath, parsePositiveInteger_natCast hoffset _, hlimit, hmax, rfl⟩

theorem parseReadArgs_limit_pos {args : ReadArgs} {maxLimit : Nat} (hmax : 0 < maxLimit)
    {input : ReadInput} (h : parseReadArgs args maxLimit = .ok input) : 0 < input.limit := by
  obtain ⟨-, -, hlimit, -, -⟩ := parseReadArgs_ok.mp h
  cases hgiven : args.limit with
  | none =>
    rw [hgiven] at hlimit
    cases hlimit
    exact hmax
  | some value =>
    rw [hgiven] at hlimit
    exact parsePositiveInteger_pos hlimit

theorem keepWithin_spec (maxBytes used count : Nat) (texts : List JsString) :
    keepWithin maxBytes used count texts <+: texts
      ∧ ∀ text ∈ keepWithin maxBytes used count texts, text.byteLength ≤ maxBytes := by
  induction texts generalizing used count with
  | nil => exact ⟨prefix_rfl, fun text hmem => absurd hmem not_mem_nil⟩
  | cons text texts ih =>
    rw [keepWithin]
    split
    · exact ⟨List.nil_prefix, fun text hmem => absurd hmem not_mem_nil⟩
    rename_i hfits
    obtain ⟨hbefore, hall⟩ := ih (used + lineByteSize text count) (count + 1)
    refine ⟨cons_prefix_cons.mpr ⟨rfl, hbefore⟩, fun other hmem => ?_⟩
    rcases mem_cons.mp hmem with rfl | hmem
    · unfold lineByteSize at hfits
      omega
    · exact hall other hmem

/-- A page shows consecutive lines from its offset on, none above the byte cap. -/
structure Shows (text : List UInt16) (offset : Nat) (value : ReadOutput) : Prop where
  offset_eq : value.offset = offset
  totalLines : value.totalLines = (linesOf text).length
  numbers : value.lines.map FileTextLine.number = List.range' offset value.lines.length
  inside : value.lines.length ≤ (linesOf text).length - (offset - 1)
  fits : ∀ line ∈ value.lines, ∃ raw, (linesOf text)[line.number - 1]? = some raw
    ∧ (bufferedLine caps.maxLineLength raw).byteLength ≤ caps.maxBytes

/-- The texts a page keeps. -/
def keptTexts (text : List UInt16) (offset limit : Nat) : List JsString :=
  keepWithin caps.maxBytes 0 0
    ((windowLines ⟨offset, limit, caps.maxLineLength, caps.maxBytes⟩ text).map
      (bufferedLine caps.maxLineLength))

theorem keptTexts_spec (text : List UInt16) (offset wanted : Nat) :
    (keptTexts caps text offset wanted).length ≤ wanted
      ∧ (keptTexts caps text offset wanted).length ≤ (linesOf text).length - (offset - 1)
      ∧ ∀ index kept, (keptTexts caps text offset wanted)[index]? = some kept →
          ∃ raw, (linesOf text)[offset - 1 + index]? = some raw
            ∧ (bufferedLine caps.maxLineLength raw).byteLength ≤ caps.maxBytes := by
  obtain ⟨hbefore, hfits⟩ := keepWithin_spec caps.maxBytes 0 0
    ((windowLines ⟨offset, wanted, caps.maxLineLength, caps.maxBytes⟩ text).map
      (bufferedLine caps.maxLineLength))
  change keptTexts caps text offset wanted <+: _ at hbefore
  have hle := hbefore.length_le
  rw [length_map, windowLines, length_take, length_drop] at hle
  refine ⟨by dsimp only at hle; omega, by dsimp only at hle; omega, fun index kept hkept => ?_⟩
  have hbyte := hfits kept (mem_of_getElem? hkept)
  obtain ⟨rest, hrest⟩ := hbefore
  have hwindow : ((windowLines ⟨offset, wanted, caps.maxLineLength, caps.maxBytes⟩ text).map
      (bufferedLine caps.maxLineLength))[index]? = some kept := by
    rw [← hrest, getElem?_append_left (List.getElem?_eq_some_iff.mp hkept).1, hkept]
  rw [getElem?_map] at hwindow
  obtain ⟨raw, hraw, rfl⟩ := Option.map_eq_some_iff.mp hwindow
  rw [windowLines, getElem?_take] at hraw
  split at hraw
  · rw [getElem?_drop] at hraw
    exact ⟨raw, hraw, hbyte⟩
  · cases hraw

section
variable {filePath displayPath : JsString} {limit : Option ℚ} {offset wanted : Nat}

/-- A read within the file gives the kept texts, numbered from its offset on. -/
theorem execute_eq (hoffset : 0 < offset)
    (hparse : parseReadArgs ⟨filePath, some (offset : ℚ), limit⟩ caps.limit =
      .ok ⟨filePath, offset, wanted⟩) (chunks : List (List UInt16)) :
    execute caps ⟨filePath, some (offset : ℚ), limit⟩ chunks displayPath =
      if offset > max 1 (linesOf chunks.flatten).length then
        .error (.outOfRange ⟨offset, displayPath, (linesOf chunks.flatten).length⟩)
      else
        .ok ⟨displayPath, offset,
          ((keptTexts caps chunks.flatten offset wanted).zipIdx offset).map fun e => ⟨e.2, e.1⟩,
          (linesOf chunks.flatten).length⟩ := by
  rw [execute, hparse]
  dsimp only
  rw [buildWindow_eq, wholeWindow]
  dsimp only
  by_cases hpast : offset > max 1 (linesOf chunks.flatten).length
  · rw [if_pos hpast, if_pos hpast]
  · rw [if_neg hpast, if_neg hpast, show max 1 offset = offset by omega]
    rfl

theorem map_number_zipIdx (texts : List JsString) (start : Nat) :
    (((texts.zipIdx start).map fun e => (⟨e.2, e.1⟩ : FileTextLine)).map FileTextLine.number) =
      List.range' start texts.length := by
  rw [map_map]
  exact zipIdx_map_snd start texts

theorem execute_shows (hoffset : 0 < offset)
    (hparse : parseReadArgs ⟨filePath, some (offset : ℚ), limit⟩ caps.limit =
      .ok ⟨filePath, offset, wanted⟩) {chunks : List (List UInt16)} {value : ReadOutput}
    (h : execute caps ⟨filePath, some (offset : ℚ), limit⟩ chunks displayPath = .ok value) :
    Shows caps chunks.flatten offset value
      ∧ value.lines.length = (keptTexts caps chunks.flatten offset wanted).length := by
  rw [execute_eq caps hoffset hparse] at h
  split at h
  · cases h
  cases h
  obtain ⟨-, hinside, hkept⟩ := keptTexts_spec caps chunks.flatten offset wanted
  refine ⟨⟨rfl, rfl, ?_, ?_, fun line hline => ?_⟩, ?_⟩
  · rw [map_number_zipIdx, length_map, length_zipIdx]
  · rwa [length_map, length_zipIdx]
  · obtain ⟨e, he, rfl⟩ := mem_map.mp hline
    obtain ⟨index, hindex⟩ := mem_iff_getElem?.mp he
    rw [getElem?_zipIdx] at hindex
    obtain ⟨text, htext, rfl⟩ := Option.map_eq_some_iff.mp hindex
    obtain ⟨raw, hraw, hbyte⟩ := hkept index text htext
    refine ⟨raw, ?_, hbyte⟩
    rwa [show offset + index - 1 = offset - 1 + index by omega]
  · rw [length_map, length_zipIdx]

theorem exists_execute (hoffset : 0 < offset)
    (hparse : parseReadArgs ⟨filePath, some (offset : ℚ), limit⟩ caps.limit =
      .ok ⟨filePath, offset, wanted⟩) {chunks : List (List UInt16)}
    (hinside : offset ≤ max 1 (linesOf chunks.flatten).length) :
    ∃ value, execute caps ⟨filePath, some (offset : ℚ), limit⟩ chunks displayPath = .ok value := by
  rw [execute_eq caps hoffset hparse, if_neg (by omega)]
  exact ⟨_, rfl⟩

/-- Where the first line fits, a page within the file shows one. -/
theorem keptTexts_pos {text : List UInt16} (hwanted : 0 < wanted) (hoffset : 0 < offset)
    (hinside : offset ≤ (linesOf text).length)
    (hfits : ∀ raw ∈ linesOf text,
      (bufferedLine caps.maxLineLength raw).byteLength ≤ caps.maxBytes) :
    0 < (keptTexts caps text offset wanted).length := by
  obtain ⟨room, rfl⟩ : ∃ room, wanted = room + 1 := ⟨wanted - 1, by omega⟩
  obtain ⟨raw, hraw⟩ : ∃ raw, (linesOf text)[offset - 1]? = some raw :=
    ⟨_, getElem?_eq_getElem (by omega)⟩
  obtain ⟨hlt, hget⟩ := List.getElem?_eq_some_iff.mp hraw
  rw [keptTexts, windowLines]
  dsimp only
  rw [drop_eq_getElem_cons hlt, hget, take_succ_cons, map_cons, keepWithin, if_neg]
  · exact Nat.succ_pos _
  have hbyte := hfits raw (mem_of_getElem? hraw)
  rw [lineByteSize, if_neg (Nat.lt_irrefl 0)]
  omega

/-- The footer goes on behind the last line shown, while there are lines left. -/
theorem Shows.continuation {text : List UInt16} {value : ReadOutput}
    (h : Shows caps text offset value) (hoffset : 0 < offset) (wanted : Nat) :
    (value.outcome wanted).footer.continuation =
      if offset - 1 + value.lines.length < (linesOf text).length then
        some (offset - 1 + value.lines.length + 1)
      else none := by
  have hend : (value.outcome wanted).endLine = offset - 1 + value.lines.length := by
    rw [FileReadOutcome.endLine]
    change (match value.lines.getLast? with
      | some line => line.number
      | none => value.offset - 1) = _
    have hnumbers := congrArg List.getLast? h.numbers
    rw [getLast?_map, getLast?_range'] at hnumbers
    cases hlast : value.lines.getLast? with
    | none =>
      have hnone := getLast?_eq_none_iff.mp hlast
      simp only [hnone, h.offset_eq, length_nil, Nat.add_zero]
    | some line =>
      have hpos : value.lines.length ≠ 0 := by
        intro hzero
        rw [length_eq_zero_iff.mp hzero] at hlast
        cases hlast
      rw [hlast, if_neg hpos] at hnumbers
      have hnumber := Option.some.inj hnumbers
      dsimp only
      omega
  have htotal : (value.outcome wanted).totalLines = (linesOf text).length := h.totalLines
  have hcapped : (value.outcome wanted).truncatedByBytes = true →
      offset - 1 + value.lines.length < (linesOf text).length := by
    intro hcut
    have hboth := (Bool.and_eq_true _ _ ▸ hcut :
      decide (value.lines.length < wanted) = true ∧ _ = true).2
    have hless := of_decide_eq_true hboth
    change (value.outcome wanted).endLine < _ at hless
    rwa [hend, h.totalLines] at hless
  unfold FileReadOutcome.footer
  rw [hend, htotal]
  split
  · rename_i hcut
    rw [if_pos (hcapped hcut)]
    rfl
  · split <;> rfl

end

/-! ## Every page -/

section
variable {filePath displayPath : JsString} {limit : Option ℚ} {text : List UInt16} {offset : Nat}

theorem PagedRead.fits {pages : List ReadOutput} {input : ReadInput}
    (hparse : parseReadArgs ⟨filePath, some ((1 : Nat) : ℚ), limit⟩ caps.limit = .ok input)
    (h : PagedRead caps filePath displayPath limit text offset pages) (hoffset : 0 < offset) :
    ∀ page ∈ pages, ∀ line ∈ page.lines, ∃ raw, (linesOf text)[line.number - 1]? = some raw
      ∧ (bufferedLine caps.maxLineLength raw).byteLength ≤ caps.maxBytes := by
  induction h with
  | @last offset chunks value footer hchunks hexecute =>
    have hshows := (execute_shows caps hoffset (parseReadArgs_offset hparse hoffset) hexecute).1
    rw [hchunks] at hshows
    intro page hpage
    rw [mem_singleton.mp hpage]
    exact hshows.fits
  | @more offset chunks value footer next rest hchunks hexecute hfooter hnext _ ih =>
    have hparse' := parseReadArgs_offset hparse hoffset
    have hshows := (execute_shows caps hoffset hparse' hexecute).1
    rw [hchunks] at hshows
    intro page hpage
    rcases mem_cons.mp hpage with rfl | hpage
    · exact hshows.fits
    apply ih ?_ page hpage
    rw [renderedFooter, hparse'] at hfooter
    rw [← Option.some.inj hfooter, hshows.continuation caps hoffset] at hnext
    split at hnext
    · have := Option.some.inj hnext
      omega
    · cases hnext

/-- Where every line fits, the footers lead to the end of the file. -/
theorem exists_pagedRead {input : ReadInput}
    (hparse : parseReadArgs ⟨filePath, some ((1 : Nat) : ℚ), limit⟩ caps.limit = .ok input)
    (hfits : ∀ raw ∈ linesOf text,
      (bufferedLine caps.maxLineLength raw).byteLength ≤ caps.maxBytes)
    (hoffset : 0 < offset) (hinside : offset ≤ max 1 (linesOf text).length) :
    ∃ pages, PagedRead caps filePath displayPath limit text offset pages
      ∧ pages.flatMap (fun page => page.lines.map FileTextLine.number) =
        List.range' offset ((linesOf text).length - (offset - 1))
      ∧ ∀ page ∈ pages, ∀ footer next,
        renderedFooter caps ⟨filePath, some (page.offset : ℚ), limit⟩ page = some footer →
          footer.continuation = some next → page.offset < next := by
  induction hleft : (linesOf text).length - offset using Nat.strongRecOn generalizing offset with
  | _ left ih =>
    have hparse' := parseReadArgs_offset hparse hoffset
    have hchunks : [text].flatten = text := flatten_singleton
    obtain ⟨value, hexecute⟩ := @exists_execute caps filePath displayPath limit offset input.limit
      hoffset hparse' [text] (by rwa [hchunks])
    obtain ⟨hshows, hlength⟩ := execute_shows caps hoffset hparse' hexecute
    rw [hchunks] at hshows hlength
    have hfooter : renderedFooter caps ⟨filePath, some (offset : ℚ), limit⟩ value =
        some (value.outcome input.limit).footer := by
      rw [renderedFooter, hparse']
    have hcontinue := hshows.continuation caps hoffset input.limit
    have hprogress : offset ≤ (linesOf text).length → 0 < value.lines.length := fun hle => by
      rw [hlength]
      exact keptTexts_pos caps (parseReadArgs_limit_pos caps.limitPositive hparse) hoffset hle hfits
    have hown : ∀ footer next,
        renderedFooter caps ⟨filePath, some (value.offset : ℚ), limit⟩ value = some footer →
          footer.continuation = some next → value.offset < next := by
      intro footer next hsome hnext
      rw [hshows.offset_eq, hfooter] at hsome
      rw [← Option.some.inj hsome, hcontinue] at hnext
      split at hnext
      · rename_i hmore
        have := Option.some.inj hnext
        have := hprogress (by omega)
        rw [hshows.offset_eq]
        omega
      · cases hnext
    have hinsideLines := hshows.inside
    by_cases hmore : offset - 1 + value.lines.length < (linesOf text).length
    · rw [if_pos hmore] at hcontinue
      have hpos := hprogress (by omega)
      obtain ⟨rest, hrest, hnumbers, hgoes⟩ := ih
        ((linesOf text).length - (offset - 1 + value.lines.length + 1)) (by omega)
        (Nat.succ_pos _) (by omega) rfl
      refine ⟨value :: rest, .more hchunks hexecute hfooter hcontinue hrest, ?_, ?_⟩
      · rw [flatMap_cons, hnumbers, hshows.numbers, Nat.succ_sub_one,
          show (offset - 1 + value.lines.length).succ = offset + 1 * value.lines.length by omega,
          range'_append]
        congr 1
        omega
      · intro page hpage
        rcases mem_cons.mp hpage with rfl | hpage
        · exact hown
        · exact hgoes page hpage
    · rw [if_neg hmore] at hcontinue
      refine ⟨[value], .last hchunks hexecute hfooter hcontinue, ?_, ?_⟩
      · rw [flatMap_singleton, hshows.numbers]
        congr 1
        omega
      · intro page hpage
        rw [mem_singleton.mp hpage]
        exact hown

/-- Following the footers covers the file exactly when each of its lines, as it is shown, fits in a
page by itself; a footer says that the file has ended exactly when no line is left. -/
theorem covers_iff {input : ReadInput}
    (hparse : parseReadArgs ⟨filePath, some ((1 : Nat) : ℚ), limit⟩ caps.limit = .ok input) :
    (∀ (offset : Nat) chunks value footer, 0 < offset → chunks.flatten = text →
        execute caps ⟨filePath, some (offset : ℚ), limit⟩ chunks displayPath = .ok value →
        renderedFooter caps ⟨filePath, some (offset : ℚ), limit⟩ value = some footer →
        (footer.continuation = none ↔ (linesOf text).length < offset + value.lines.length))
      ∧ (Covers caps filePath displayPath limit text ↔
          ∀ raw ∈ linesOf text,
            (bufferedLine caps.maxLineLength raw).byteLength ≤ caps.maxBytes) := by
  constructor
  · intro offset chunks value footer hoffset hchunks hexecute hfooter
    have hparse' := parseReadArgs_offset hparse hoffset
    have hshows := (execute_shows caps hoffset hparse' hexecute).1
    rw [hchunks] at hshows
    rw [renderedFooter, hparse'] at hfooter
    rw [← Option.some.inj hfooter, hshows.continuation caps hoffset]
    split
    · simp only [reduceCtorEq, false_iff]
      omega
    · simp only [true_iff]
      omega
  · constructor
    · rintro ⟨pages, hpages, hnumbers, -⟩ raw hraw
      obtain ⟨index, hindex⟩ := mem_iff_getElem?.mp hraw
      have hlt := (List.getElem?_eq_some_iff.mp hindex).1
      -- the line's number is on some page, and what a page shows fits
      have hshown : index + 1 ∈ List.range' 1 (linesOf text).length := by
        rw [mem_range'_1]
        omega
      rw [← hnumbers] at hshown
      obtain ⟨page, hpage, hline⟩ := mem_flatMap.mp hshown
      obtain ⟨line, hline, hnumber⟩ := mem_map.mp hline
      obtain ⟨other, hother, hbyte⟩ := hpages.fits caps hparse Nat.one_pos page hpage line hline
      rw [hnumber, Nat.add_sub_cancel, hindex] at hother
      rwa [Option.some.inj hother]
    · intro hfits
      obtain ⟨pages, hpages, hnumbers, hgoes⟩ := @exists_pagedRead caps filePath displayPath limit
        text 1 input hparse hfits Nat.one_pos (Nat.le_max_left _ _)
      exact ⟨pages, hpages, hnumbers, hgoes⟩

end

/-! ## Pages without room for a line -/

/-- Caps whose pages have room for a single byte. -/
def oneByteCaps : ReadToolCaps := ⟨2000, 2000, 1, by decide, by decide, by decide⟩

def notes : JsString := JsString.ofString "notes"

theorem parseReadArgs_notes :
    parseReadArgs ⟨notes, some ((1 : Nat) : ℚ), none⟩ oneByteCaps.limit = .ok ⟨notes, 1, 2000⟩ := by
  apply parseReadArgs_ok.mpr
  exact ⟨by decide, parsePositiveInteger_natCast Nat.one_pos _, rfl, Nat.le_refl 2000, rfl⟩

/-- Lines of one letter fit. -/
theorem covers_iff_letters :
    Covers oneByteCaps notes notes none [97, 10, 98, 10] ∧ linesOf [97, 10, 98, 10] = [[97], [98]] :=
  ⟨(covers_iff oneByteCaps parseReadArgs_notes).2.mpr (by decide), by decide⟩

/-- A line of two letters is on no page, though its read is accepted. -/
theorem word_not_covered :
    (∃ input, parseReadArgs ⟨notes, some ((1 : Nat) : ℚ), none⟩ oneByteCaps.limit = .ok input)
      ∧ ¬ Covers oneByteCaps notes notes none [97, 98, 10] := by
  refine ⟨⟨_, parseReadArgs_notes⟩, ?_⟩
  rintro ⟨pages, hpages, hnumbers, -⟩
  have hshown : 1 ∈ List.range' 1 (linesOf [97, 98, 10]).length := by decide
  rw [← hnumbers] at hshown
  obtain ⟨page, hpage, hline⟩ := mem_flatMap.mp hshown
  obtain ⟨line, hline, hnumber⟩ := mem_map.mp hline
  obtain ⟨raw, hraw, hbyte⟩ := hpages.fits oneByteCaps parseReadArgs_notes Nat.one_pos page hpage
    line hline
  rw [hnumber] at hraw
  cases hraw
  exact absurd hbyte (by decide)

end FsRead

end Harness
