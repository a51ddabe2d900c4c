-- SUMMARY: The chunked scan is the whole-text window, but for a carriage return that is cut off with the rest of its line.
import Harness.FsRead.Window

namespace Harness

open List
namespace FsRead

/-! ## One line -/

section
variable {request : ReadWindow}

theorem appendToLineBuffer_eq (acc : WindowAccumulator) (line segment : List UInt16) :
    Scan.appendToLineBuffer request ⟨acc, line.take (lineBufferCap request)⟩ segment =
      ⟨acc, (line ++ segment).take (lineBufferCap request)⟩ := by
  unfold Scan.appendToLineBuffer
  split
  · rename_i hfull
    rw [length_take] at hfull
    rw [take_append_of_le_length (by omega)]
  rename_i hroom
  rw [length_take] at hroom
  rw [take_of_length_le (by omega)]
  dsimp only
  split
  · rfl
  · rename_i hshort
    rw [take_of_length_le (by omega)]

/-- What the scan makes of a finished line. -/
def consumed (request : ReadWindow) (acc : WindowAccumulator) (line : List UInt16) :
    WindowAccumulator :=
  consumeLine request acc (stripCarriageReturn (line.take (lineBufferCap request)))

/-- The scan after a text is the scan of its complete lines and a piece of what follows them. -/
def scanned (request : ReadWindow) (text : List UInt16) : Scan where
  acc := (TornLog.lines 10 text).1.foldl (consumed request) {}
  lineBuffer := (TornLog.lines 10 text).2.take (lineBufferCap request)

theorem foldl_segments (segments : List (List UInt16)) (acc : WindowAccumulator) :
    segments.foldl (fun s segment => (Scan.appendToLineBuffer request s segment).flushLine request)
        ⟨acc, []⟩ = ⟨segments.foldl (consumed request) acc, []⟩ := by
  induction segments generalizing acc with
  | nil => rfl
  | cons segment segments ih =>
    have happend := @appendToLineBuffer_eq request acc [] segment
    rw [take_nil, nil_append] at happend
    rw [foldl_cons, foldl_cons, happend]
    exact ih _

/-- A chunk continues the scan of the text before it. -/
theorem scanned_chunk (text chunk : List UInt16) :
    (scanned request text).chunk request chunk = scanned request (text ++ chunk) := by
  obtain ⟨-, -, htorn⟩ := @TornLog.lines_spec _ (10 : UInt16) _ text
  have hlines := @TornLog.lines_append _ (10 : UInt16) _ text chunk
  rw [TornLog.lines_clean_append htorn] at hlines
  rw [scanned, scanned, hlines, Scan.chunk]
  rcases TornLog.lines 10 chunk with ⟨segments, last⟩
  cases segments with
  | nil =>
    simp only [foldl_nil, append_nil]
    exact appendToLineBuffer_eq _ _ _
  | cons segment segments =>
    have hlast (acc : WindowAccumulator) : Scan.appendToLineBuffer request ⟨acc, []⟩ last =
        ⟨acc, last.take (lineBufferCap request)⟩ := by
      have happend := @appendToLineBuffer_eq request acc [] last
      rwa [take_nil, nil_append] at happend
    simp only [foldl_cons, foldl_append, appendToLineBuffer_eq]
    rw [Scan.flushLine, foldl_segments, hlast]
    rfl

theorem scanned_chunks (text : List UInt16) (chunks : List (List UInt16)) :
    chunks.foldl (Scan.chunk request) (scanned request text) =
      scanned request (text ++ chunks.flatten) := by
  induction chunks generalizing text with
  | nil => rw [foldl_nil, flatten_nil, append_nil]
  | cons chunk chunks ih =>
    rw [foldl_cons, scanned_chunk, ih, flatten_cons, append_assoc]

/-- What follows the last line feed is a line, unless it is empty. -/
theorem flush_last (complete : List (List UInt16)) (last : List UInt16) (s : Scan)
    (hs : s = ⟨complete.foldl (consumed request) {}, last.take (lineBufferCap request)⟩) :
    (if s.lineBuffer.length > 0 then s.flushLine request else s).acc =
      (if last.isEmpty then complete else complete ++ [last]).foldl (consumed request) {} := by
  subst hs
  cases last with
  | nil => rfl
  | cons unit last =>
    have hpos : ((unit :: last).take (lineBufferCap request)).length > 0 := by
      rw [length_take, length_cons, lineBufferCap]
      omega
    rw [if_pos hpos]
    simp only [isEmpty_cons, Bool.false_eq_true, if_false, foldl_append]
    rfl

/-- Every line of the text is consumed once, however the text is cut into chunks. -/
theorem buildWindow_chunks (chunks : List (List UInt16)) (displayPath : JsString) :
    buildWindow request chunks displayPath =
      finish request ((linesOf chunks.flatten).foldl (consumed request) {}) displayPath := by
  have hscan := @scanned_chunks request [] chunks
  have hstart : scanned request [] = {} := by
    simp [scanned, TornLog.lines]
  rw [nil_append, hstart] at hscan
  exact congrArg (finish request · displayPath) (flush_last _ _ _ hscan)

end

/-! ## The fold over the lines -/

section
variable {request : ReadWindow}

variable {acc : WindowAccumulator}

/-- A line that is not wanted is only counted. -/
theorem consumed_skip (h : acc.truncatedByBytes = true ∨ acc.totalLines + 1 < request.offset
      ∨ request.limit ≤ acc.lines.length) (line : List UInt16) :
    consumed request acc line = { acc with totalLines := acc.totalLines + 1 } := by
  rw [consumed, consumeLine, if_pos]
  simpa [Bool.or_eq_true, or_assoc] using h

theorem foldl_skip (lines : List (List UInt16))
    (h : acc.truncatedByBytes = true ∨ acc.totalLines + lines.length < request.offset
      ∨ request.limit ≤ acc.lines.length) :
    lines.foldl (consumed request) acc =
      { acc with totalLines := acc.totalLines + lines.length } := by
  induction lines generalizing acc with
  | nil => rfl
  | cons line lines ih =>
    rw [length_cons] at h
    have hnext : acc.truncatedByBytes = true ∨ acc.totalLines + 1 + lines.length < request.offset
        ∨ request.limit ≤ acc.lines.length := h.imp_right fun h => h.imp_left fun h => by omega
    rw [foldl_cons, consumed_skip (hnext.imp_right fun h => h.imp_left fun h => by omega),
      ih hnext, length_cons]
    simp only [WindowAccumulator.mk.injEq, true_and, and_true]
    omega

/-- How the scan shows a line: it sees no more of it than the buffer holds. -/
def bufferedLine (maxLineLength : Nat) (line : List UInt16) : JsString :=
  truncateLine (stripCarriageReturn (line.take (maxLineLength + 1))) maxLineLength

/-- From the offset on, the lines that fit are kept. -/
theorem foldl_window (lines : List (List UInt16))
    (hfits : acc.truncatedByBytes = false) (hoffset : request.offset ≤ acc.totalLines + 1) :
    let window := (lines.take (request.limit - acc.lines.length)).map
      (bufferedLine request.maxLineLength)
    let kept := keepWithin request.maxBytes acc.outputBytes acc.lines.length window
    (lines.foldl (consumed request) acc).lines =
        acc.lines ++ (kept.zipIdx (acc.totalLines + 1)).map (fun e => ⟨e.2, e.1⟩)
      ∧ (lines.foldl (consumed request) acc).totalLines = acc.totalLines + lines.length
      ∧ (lines.foldl (consumed request) acc).truncatedByBytes =
        decide (kept.length < window.length) := by
  induction lines generalizing acc with
  | nil => simp [keepWithin, hfits]
  | cons line lines ih =>
    rcases Nat.lt_or_ge acc.lines.length request.limit with hroom | hfull
    · obtain ⟨room, hlimit⟩ : ∃ room, request.limit - acc.lines.length = room + 1 :=
        ⟨request.limit - acc.lines.length - 1, by omega⟩
      have hwanted : ¬ ((acc.truncatedByBytes || decide (acc.totalLines + 1 < request.offset) ||
          decide (acc.lines.length ≥ request.limit)) = true) := by
        simp only [hfits, Bool.false_or, Bool.or_eq_true, decide_eq_true_eq]
        omega
      have hconsumed : consumed request acc line =
          if acc.outputBytes + lineByteSize (bufferedLine request.maxLineLength line)
              acc.lines.length > request.maxBytes then
            { acc with totalLines := acc.totalLines + 1, truncatedByBytes := true }
          else
            { acc with
              totalLines := acc.totalLines + 1
              outputBytes := acc.outputBytes +
                lineByteSize (bufferedLine request.maxLineLength line) acc.lines.length
              lines := acc.lines ++
                [⟨acc.totalLines + 1, bufferedLine request.maxLineLength line⟩] } := by
        rw [consumed, consumeLine, if_neg hwanted]
        rfl
      dsimp only
      rw [hlimit, take_succ_cons, map_cons, keepWithin, foldl_cons, hconsumed]
      split
      · rw [foldl_skip _ (.inl rfl)]
        simp only [zipIdx_nil, map_nil, append_nil, length_nil,
          length_cons, true_and]
        exact ⟨by omega, by simp⟩
      obtain ⟨hlines, htotal, hcapped⟩ := @ih ⟨acc.lines ++
          [⟨acc.totalLines + 1, bufferedLine request.maxLineLength line⟩], acc.totalLines + 1,
          acc.outputBytes + lineByteSize (bufferedLine request.maxLineLength line)
            acc.lines.length, acc.truncatedByBytes⟩ hfits (by dsimp only; omega)
      have hroom' : request.limit - (acc.lines.length + 1) = room := by omega
      simp only [length_append, length_singleton, hroom'] at hlines htotal hcapped
      refine ⟨?_, ?_, ?_⟩
      · rw [hlines, zipIdx_cons, map_cons, append_assoc, singleton_append]
      · rw [htotal, length_cons]
        omega
      · rw [hcapped, length_cons, length_cons]
        simp
    · dsimp only
      rw [foldl_skip _ (.inr (.inr hfull)), show request.limit - acc.lines.length = 0 by omega]
      simp [keepWithin, hfits]

end

/-! ## The whole window -/

theorem finish_eq {request : ReadWindow} {acc : WindowAccumulator}
    (h : acc.truncatedByBytes = true → request.offset ≤ max 1 acc.totalLines)
    (displayPath : JsString) :
    finish request acc displayPath =
      if request.offset > max 1 acc.totalLines then
        .error ⟨request.offset, displayPath, acc.totalLines⟩
      else .ok ⟨acc.lines, acc.totalLines, acc.truncatedByBytes⟩ := by
  have hiff : (!acc.truncatedByBytes && decide (request.offset > acc.totalLines) &&
      !(decide (acc.totalLines = 0) && decide (request.offset = 1))) = true ↔
        request.offset > max 1 acc.totalLines := by
    cases hcapped : acc.truncatedByBytes with
    | true =>
      have hle := h hcapped
      simp only [Bool.not_true, Bool.false_and, Bool.false_eq_true, false_iff]
      omega
    | false =>
      simp only [Bool.not_false, Bool.true_and, Bool.and_eq_true, decide_eq_true_eq,
        Bool.not_eq_true', Bool.and_eq_false_iff, decide_eq_false_iff_not]
      omega
  rw [finish, if_congr hiff rfl rfl]

/-- The scan is the window of the whole text, its lines shown as the buffer shows them. -/
theorem buildWindow_eq (request : ReadWindow) (chunks : List (List UInt16))
    (displayPath : JsString) :
    buildWindow request chunks displayPath =
      wholeWindow request (bufferedLine request.maxLineLength) chunks.flatten displayPath := by
  rw [buildWindow_chunks]
  generalize hlines : linesOf chunks.flatten = lines
  have hbefore : (lines.take (request.offset - 1)).foldl (consumed request) {} =
      { totalLines := (lines.take (request.offset - 1)).length } := by
    rcases Nat.eq_zero_or_pos request.offset with hzero | hpos
    · rw [hzero]
      rfl
    rw [foldl_skip _ (.inr (.inl ?_)), Nat.zero_add]
    rw [length_take]
    dsimp only
    omega
  have hsplit : lines.foldl (consumed request) {} =
      (lines.drop (request.offset - 1)).foldl (consumed request)
        { totalLines := (lines.take (request.offset - 1)).length } := by
    rw [← hbefore, ← foldl_append, take_append_drop]
  rw [hsplit]
  simp only [wholeWindow, windowLines, hlines]
  rcases Nat.lt_or_ge lines.length (request.offset - 1) with hpast | hinside
  · rw [drop_of_length_le (by omega), take_of_length_le (by omega), foldl_nil,
      finish_eq (fun hfalse => by cases hfalse), if_pos (by dsimp only; omega), if_pos (by omega)]
  have hlength : (lines.take (request.offset - 1)).length = request.offset - 1 := by
    rw [length_take]
    omega
  obtain ⟨hshown, htotal, hcapped⟩ := @foldl_window request
    { totalLines := (lines.take (request.offset - 1)).length } (lines.drop (request.offset - 1))
    rfl (by rw [hlength]; dsimp only; omega)
  simp only [length_nil, Nat.sub_zero, nil_append] at hshown htotal hcapped
  rw [hlength] at hshown htotal hcapped ⊢
  rw [length_drop, Nat.add_sub_cancel' hinside] at htotal
  rw [finish_eq, hshown, htotal, hcapped,
    show request.offset - 1 + 1 = max 1 request.offset by omega]
  rw [htotal, hcapped]
  intro hcut
  have hshort := of_decide_eq_true hcut
  rw [length_map, length_take, length_drop] at hshort
  omega

/-! ## Lines whose end is not seen -/

/-- A line longer than the buffer, with a carriage return where the buffer ends. -/
def Unmarked (maxLineLength : Nat) (line : List UInt16) : Prop :=
  maxLineLength + 1 < line.length ∧ (line)[maxLineLength]? = some 13

instance (maxLineLength : Nat) (line : List UInt16) : Decidable (Unmarked maxLineLength line) :=
  inferInstanceAs (Decidable (_ ∧ _))

variable {line : List UInt16}

theorem getLast?_take_succ {n : Nat} (h : n < line.length) :
    (line.take (n + 1)).getLast? = (line)[n]? := by
  rw [getLast?_eq_getElem?, length_take, Nat.min_eq_left h, Nat.succ_sub_one,
    getElem?_take, if_pos (Nat.lt_succ_self n)]

variable {maxLineLength : Nat}

/-- Such a line loses its carriage return, and with it the sign that it was cut. -/
theorem bufferedLine_unmarked
    (h : Unmarked maxLineLength line) : bufferedLine maxLineLength line = ⟨line.take maxLineLength⟩ := by
  obtain ⟨hlength, hreturn⟩ := h
  have hlast := @getLast?_take_succ line maxLineLength (by omega)
  rw [bufferedLine, stripCarriageReturn, hlast, if_pos hreturn, dropLast_take (by omega),
    Nat.add_sub_cancel, truncateLine, if_neg]
  rw [length_take]
  omega

/-- A longer line should be cut and say so, whatever it ends with. -/
theorem shownLine_long (h : maxLineLength + 1 < line.length) : shownLine maxLineLength line =
      ⟨line.take maxLineLength ++ (truncationMarker maxLineLength).units⟩ := by
  unfold shownLine stripCarriageReturn
  split
  · rw [truncateLine, if_pos (by rw [length_dropLast]; omega), dropLast_eq_take,
      take_take, Nat.min_eq_left (by omega)]
  · rw [truncateLine, if_pos (by omega)]

theorem bufferedLine_marked (h : ¬ Unmarked maxLineLength line) :
    bufferedLine maxLineLength line = shownLine maxLineLength line := by
  rcases Nat.lt_or_ge (maxLineLength + 1) line.length with hlong | hshort
  · have hlast := @getLast?_take_succ line maxLineLength (by omega)
    rw [shownLine_long hlong, bufferedLine, stripCarriageReturn, hlast,
      if_neg fun hreturn => h ⟨hlong, hreturn⟩, truncateLine, if_pos, take_take,
      Nat.min_eq_left (Nat.le_succ _)]
    rw [length_take]
    omega
  · rw [bufferedLine, take_of_length_le hshort]
    rfl

theorem truncationMarker_units (maxLineLength : Nat) :
    ∃ rest, (truncationMarker maxLineLength).units = 46 :: rest := by
  have hstart : (JsString.ofString "... (line truncated to ").units =
      46 :: (JsString.ofString ".. (line truncated to ").units := by decide +kernel
  refine ⟨_, congrArg (· ++ (JsString.ofString s!"{maxLineLength} chars)").units) hstart⟩

theorem byteLength_unmarked_lt (h : Unmarked maxLineLength line) :
    (bufferedLine maxLineLength line).byteLength < (shownLine maxLineLength line).byteLength := by
  obtain ⟨rest, hmarker⟩ := truncationMarker_units maxLineLength
  rw [bufferedLine_unmarked h, shownLine_long h.1, hmarker]
  simp only [JsString.byteLength, JsString.utf8]
  rw [Unicode.points_append (by decide), flatMap_append, length_append,
    Unicode.points_single_append (by decide), flatMap_cons, length_append]
  have hdot : (Unicode.bytes (Unicode.single 46)).length = 1 := by decide
  omega

/-! ## Where the two windows agree -/

/-- The bytes of shown lines, those before them being `count`. -/
def sizeFrom : Nat → List JsString → Nat
  | _, [] => 0
  | count, text :: texts => lineByteSize text count + sizeFrom (count + 1) texts

/-- The bytes of a window: its lines, and a separator between any two. -/
def windowSize (texts : List JsString) : Nat := sizeFrom 0 texts

theorem lineByteSize_lt {text text' : JsString} (h : text.byteLength < text'.byteLength)
    (count : Nat) : lineByteSize text count < lineByteSize text' count :=
  Nat.add_lt_add_right h _

/-- The kept lines are the same exactly where each line that does not show its cut comes too late
to fit. -/
theorem keepWithin_buffered_iff (maxBytes maxLineLength used count : Nat)
    (lines : List (List UInt16)) :
    keepWithin maxBytes used count (lines.map (bufferedLine maxLineLength)) =
        keepWithin maxBytes used count (lines.map (shownLine maxLineLength)) ↔
      ∀ front line back, lines = front ++ line :: back → Unmarked maxLineLength line →
        maxBytes < used +
          sizeFrom count (front.map (shownLine maxLineLength) ++ [⟨line.take maxLineLength⟩]) := by
  induction lines generalizing used count with
  | nil =>
    refine ⟨fun _ front line back hsplit => ?_, fun _ => rfl⟩
    simp at hsplit
  | cons line lines ih =>
    have hfront : (∀ front other back, line :: lines = front ++ other :: back →
          Unmarked maxLineLength other → maxBytes < used +
            sizeFrom count (front.map (shownLine maxLineLength) ++ [⟨other.take maxLineLength⟩])) ↔
        (Unmarked maxLineLength line →
            maxBytes < used + lineByteSize ⟨line.take maxLineLength⟩ count) ∧
          ∀ front other back, lines = front ++ other :: back → Unmarked maxLineLength other →
            maxBytes < used + lineByteSize (shownLine maxLineLength line) count +
              sizeFrom (count + 1)
                (front.map (shownLine maxLineLength) ++ [⟨other.take maxLineLength⟩]) := by
      constructor
      · intro h
        refine ⟨fun hunmarked => h [] line lines rfl hunmarked, ?_⟩
        rintro front other back rfl hunmarked
        rw [Nat.add_assoc]
        exact h (line :: front) other back rfl hunmarked
      · rintro ⟨hfirst, hrest⟩ front other back hsplit hunmarked
        cases front with
        | nil =>
          obtain ⟨rfl, -⟩ := cons_eq_cons.mp hsplit
          exact hfirst hunmarked
        | cons first front =>
          obtain ⟨rfl, hlines⟩ := cons_eq_cons.mp hsplit
          have hlate := hrest front other back hlines hunmarked
          rwa [Nat.add_assoc] at hlate
    rw [hfront, map_cons, map_cons, keepWithin, keepWithin]
    by_cases hunmarked : Unmarked maxLineLength line
    · have hless := lineByteSize_lt (byteLength_unmarked_lt hunmarked) count
      rw [bufferedLine_unmarked hunmarked] at hless ⊢
      split
      · rename_i hlate
        rw [if_pos (by omega)]
        refine ⟨fun _ => ⟨fun _ => hlate, fun _ _ _ _ _ => by omega⟩, fun _ => rfl⟩
      rename_i hfits
      refine ⟨fun hsame => ?_, fun h => absurd (h.1 hunmarked) hfits⟩
      split at hsame
      · cases hsame
      · rw [(cons_eq_cons.mp hsame).1] at hless
        exact absurd hless (Nat.lt_irrefl _)
    · rw [bufferedLine_marked hunmarked]
      split
      · rename_i hlate
        refine ⟨fun _ => ⟨fun h => absurd h hunmarked, fun _ _ _ _ _ => by omega⟩, fun _ => rfl⟩
      · rw [cons_eq_cons, ih]
        exact ⟨fun h => ⟨fun h => absurd h hunmarked, h.2⟩, fun h => ⟨rfl, h.2⟩⟩

/-- No line of the window that hides its cut fits in it. -/
def CutsMarked (request : ReadWindow) (text : List UInt16) : Prop :=
  ∀ front line back, windowLines request text = front ++ line :: back →
    Unmarked request.maxLineLength line →
      request.maxBytes < windowSize
        (front.map (shownLine request.maxLineLength) ++ [⟨line.take request.maxLineLength⟩])

theorem wholeWindow_eq_iff (request : ReadWindow) (shown shown' : List UInt16 → JsString)
    (text : List UInt16) (displayPath : JsString) :
    wholeWindow request shown text displayPath = wholeWindow request shown' text displayPath ↔
      keepWithin request.maxBytes 0 0 ((windowLines request text).map shown) =
        keepWithin request.maxBytes 0 0 ((windowLines request text).map shown') := by
  unfold wholeWindow
  dsimp only
  split
  · rename_i hpast
    have hnone : windowLines request text = [] := by
      rw [windowLines, drop_of_length_le (by omega), take_nil]
    simp [hnone]
  · constructor
    · intro hsame
      have hlines := congrArg (List.map FileTextLine.text)
        (WindowResult.mk.inj (Except.ok.inj hsame)).1
      simpa [map_map, Function.comp_def] using hlines
    · intro hsame
      rw [hsame, length_map, length_map]

/-- The scan does not depend on the chunks; it is the window of the whole text exactly where no
line that hides its cut fits in the window. -/
theorem buildWindow_iff (request : ReadWindow) (chunks : List (List UInt16))
    (displayPath : JsString) :
    (∀ others : List (List UInt16), others.flatten = chunks.flatten →
        buildWindow request others displayPath = buildWindow request chunks displayPath)
      ∧ (buildWindow request chunks displayPath =
          wholeWindow request (shownLine request.maxLineLength) chunks.flatten displayPath ↔
            CutsMarked request chunks.flatten) := by
  refine ⟨fun others hsame => ?_, ?_⟩
  · rw [buildWindow_eq, buildWindow_eq, hsame]
  · rw [buildWindow_eq, wholeWindow_eq_iff, keepWithin_buffered_iff]
    simp only [CutsMarked, windowSize, Nat.zero_add]

/-- The line `abc`, a carriage return and `def`, cut after three characters, is shown as `abc`. -/
theorem buildWindow_hides_cut :
    ¬ ∀ (request : ReadWindow) (chunks : List (List UInt16)) (displayPath : JsString),
      buildWindow request chunks displayPath =
        wholeWindow request (shownLine request.maxLineLength) chunks.flatten displayPath := by
  intro h
  have hsame := h ⟨1, 10, 3, 1000⟩ [[97, 98, 99, 13, 100, 101, 102, 10]] ⟨[]⟩
  exact absurd hsame (by decide +kernel)

end FsRead

end Harness
