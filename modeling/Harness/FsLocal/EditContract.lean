-- SUMMARY: A literal edit of a file with one kind of line ending: exactly when it changes nothing but its matches and can be read back.
import Harness.FsLocal.LiteralEdit

namespace Harness

open Option
open List (head? flatten_cons map_cons length_cons length flatMap_cons cons_ne_nil mem_cons cons_append mem_singleton mem_cons_self mem_cons_of_mem length_append)
namespace FsLocal

open Occurrences Unicode

/-! ## What an edit should do -/

/-- The mark a file starts with, if any. -/
def markOf (file : List UInt8) : List UInt8 := if byteOrderMark <+: file then byteOrderMark else []

/-- A text whose line breaks are all of one style. One without line breaks counts as `LF`. -/
def Uniform (text : List UInt16) : LineEndings → Prop
  | .LF => ∀ before after, text = before ++ 10 :: after → before.getLast? ≠ some 13
  | .CRLF => 10 ∈ text ∧ ∀ before after, text = before ++ 10 :: after → before.getLast? = some 13

/-- A text in a style, from one whose line breaks are line feeds. -/
def inStyle : LineEndings → List UInt16 → List UInt16
  | .LF, text => text
  | .CRLF, text => text.flatMap fun u => if u = 10 then [13, 10] else [u]

/-- The bytes of `parts`, each in the style of the file. -/
def styledBytes (style : LineEndings) (parts : List (List UInt16)) : List UInt8 :=
  parts.flatMap fun part => encodeUtf8 (inStyle style part)

/-- The edit changed its matches only: the file is made of pieces with the old text between them, the
bytes written are the same pieces with the new text between them, and what is read back is what was
reported. -/
structure TouchesOnlyMatches (style : LineEndings) (text : List UInt16) (file : List UInt8)
    (edit : FsEditRequest) (displayPath : JsString) (written : List UInt8)
    (outcome : FsEditOutcome) (pieces : List (List UInt16)) : Prop where
  matched : Leftmost (normalizeLineEndings edit.oldString.units) (normalizeLineEndings text) pieces
  single : edit.replaceAll = false → pieces.length = 2
  original : file = markOf file ++
    styledBytes style (pieces.intersperse (normalizeLineEndings edit.oldString.units))
  replaced : written = markOf file ++
    styledBytes style (pieces.intersperse (normalizeLineEndings edit.newString.units))
  readBack : ∃ basis, readForEdit written displayPath = .ok basis ∧ basis.content = outcome.after

/-- No carriage return comes to stand before a line feed, in a part or where parts meet. -/
def NoBreakForms (parts : List (List UInt16)) : Prop :=
  (∀ part ∈ parts, ¬ [13, 10] <:+: part)
    ∧ ∀ before after, parts = before ++ after →
        before.flatten.getLast? = some 13 → after.flatten.head? ≠ some 10

/-- What the file and the request must be like. `parts` are the unmatched pieces of the file, with
line feeds for its line breaks, and the new text between them. -/
structure Clean (style : LineEndings) (text : List UInt16) (file : List UInt8)
    (old new : List UInt16) (parts : List (List UInt16)) : Prop where
  unmarked : markOf file = []
  oldWhole : WellFormed old
  newWhole : WellFormed new
  newText : 0 ∉ new
  noBreakForms : NoBreakForms parts
  noMarkForms : parts.findSome? head? ≠ some 0xFEFF
  styleSeen : style = .CRLF → 10 ∈ text.take 4096 ∨ ∀ part ∈ parts, 10 ∉ part

/-! ## Styles -/

theorem inStyle_append (style : LineEndings) (a b : List UInt16) :
    inStyle style (a ++ b) = inStyle style a ++ inStyle style b := by
  cases style
  · rfl
  · exact List.flatMap_append

theorem inStyle_flatten (style : LineEndings) (parts : List (List UInt16)) :
    inStyle style parts.flatten = (parts.map (inStyle style)).flatten := by
  induction parts with
  | nil => cases style <;> rfl
  | cons part parts ih =>
    rw [flatten_cons, inStyle_append, ih, map_cons, flatten_cons]

variable {rest : List UInt16} {u : UInt16}

theorem normalize_cons (h : u = 13 → rest.head? ≠ some 10) :
    normalizeLineEndings (u :: rest) = u :: normalizeLineEndings rest := by
  rw [normalizeLineEndings]
  rintro rest' rfl rfl
  exact h rfl rfl

theorem head?_inStyle_ne (style : LineEndings) (text : List UInt16) (h : style = .CRLF) :
    (inStyle style text).head? ≠ some 10 := by
  subst h
  cases text with
  | nil => exact nofun
  | cons u rest =>
    change ((if u = 10 then [13, 10] else [u]) ++ _).head? ≠ _
    split
    · exact nofun
    · rename_i hu
      exact fun heq => hu (some.inj heq)

/-- Collapsing undoes a style. -/
theorem normalize_inStyle_crlf (text : List UInt16) :
    normalizeLineEndings (inStyle .CRLF text) = text := by
  induction text with
  | nil => rfl
  | cons u rest ih =>
    change normalizeLineEndings ((if u = 10 then [13, 10] else [u]) ++ inStyle .CRLF rest) = _
    split
    · rename_i hu
      rw [hu]
      exact congrArg (10 :: ·) ih
    · rw [List.singleton_append, normalize_cons fun _ => head?_inStyle_ne _ _ rfl, ih]

theorem length_normalize_le (text : List UInt16) :
    (normalizeLineEndings text).length ≤ text.length := by
  induction text using normalizeLineEndings.induct with
  | case1 rest ih =>
    rw [normalizeLineEndings]
    simp only [length_cons]
    omega
  | case2 u rest hnot ih =>
    rw [normalizeLineEndings.eq_2 _ _ hnot]
    simp only [length_cons]
    omega
  | case3 => exact Nat.le_refl _

variable {text : List UInt16}

theorem normalize_eq_iff : normalizeLineEndings text = text ↔ ¬ [13, 10] <:+: text := by
  induction text using normalizeLineEndings.induct with
  | case1 rest ih =>
    have hlength := length_normalize_le rest
    refine ⟨fun heq => ?_, fun hnot => absurd ⟨[], rest, rfl⟩ hnot⟩
    have := congrArg length heq
    rw [normalizeLineEndings] at this
    simp only [length_cons] at this
    omega
  | case2 u rest hnot ih =>
    rw [normalizeLineEndings.eq_2 _ _ hnot, List.infix_cons_iff, List.cons_eq_cons, ih, not_or]
    refine ⟨fun h => ⟨?_, h.2⟩, fun h => ⟨rfl, h.2⟩⟩
    rintro ⟨after, hafter⟩
    injection hafter with hu hrest
    exact hnot after hu.symm hrest.symm
  | case3 => exact ⟨fun _ h => by simp at h, fun _ => rfl⟩

/-- What an encoding makes of a unit that is no half of a pair. -/
def mended (u : UInt16) : UInt16 := if IsHigh u ∨ IsLow u then 0xFFFD else u

theorem repaired_cons (h : IsHigh u → ∀ v ∈ rest.head?, ¬ IsLow v) :
    repaired (u :: rest) = mended u :: repaired rest := by
  cases rest with
  | nil => rw [repaired, points, List.flatMap_singleton, units_single]; rfl
  | cons v rest =>
    rw [repaired, points, if_neg fun hpair => h hpair.1 v rfl hpair.2, flatMap_cons, units_single]
    rfl

theorem mended_eq_feed : mended u = 10 ↔ u = 10 := by
  unfold mended
  split
  · rename_i hhalf
    refine ⟨fun heq => absurd heq (by decide), fun heq => ?_⟩
    rw [heq] at hhalf
    exact absurd hhalf (by decide)
  · exact Iff.rfl

theorem inStyle_crlf_cons (u : UInt16) (rest : List UInt16) :
    inStyle .CRLF (u :: rest) = (if u = 10 then [13, 10] else [u]) ++ inStyle .CRLF rest := rfl

theorem repaired_inStyle_crlf (text : List UInt16) :
    repaired (inStyle .CRLF text) = inStyle .CRLF (repaired text) := by
  induction text using points.induct with
  | case1 => rfl
  | case2 u =>
    have hlast : IsHigh u → ∀ v ∈ ([] : List UInt16).head?, ¬ IsLow v :=
      fun _ v hv => absurd hv (not_mem_none v)
    rw [repaired_cons hlast]
    by_cases hu : u = 10
    · subst hu
      decide
    · rw [inStyle_crlf_cons, inStyle_crlf_cons, if_neg hu, if_neg (mended_eq_feed.not.mpr hu)]
      exact repaired_cons hlast
  | case3 u v rest hpair ih =>
    have hu : u ≠ 10 := fun heq => absurd (heq ▸ hpair.1) (by decide)
    have hv : v ≠ 10 := fun heq => absurd (heq ▸ hpair.2) (by decide)
    have hrepaired (more : List UInt16) : repaired (u :: v :: more) = u :: v :: repaired more := by
      rw [repaired, points, if_pos hpair, flatMap_cons, units_pair hpair.1 hpair.2]
      rfl
    rw [hrepaired, inStyle_crlf_cons, inStyle_crlf_cons, inStyle_crlf_cons, inStyle_crlf_cons,
      if_neg hu, if_neg hv, ← ih]
    exact hrepaired _
  | case4 u v rest hpair ih =>
    have hnot : IsHigh u → ∀ w ∈ (v :: rest).head?, ¬ IsLow w := by
      intro hhigh w hw
      cases some.inj hw
      exact fun hlow => hpair ⟨hhigh, hlow⟩
    rw [repaired_cons hnot, inStyle_crlf_cons u, inStyle_crlf_cons (mended u)]
    by_cases hu : u = 10
    · subst hu
      rw [if_pos rfl, if_pos (mended_eq_feed.mpr rfl), ← ih]
      exact repaired_ascii_append (by simp) _
    rw [if_neg hu, if_neg (mended_eq_feed.not.mpr hu), ← ih]
    apply repaired_cons
    intro hhigh w hw
    rw [inStyle_crlf_cons] at hw
    split at hw
    · cases some.inj hw
      decide
    · cases some.inj hw
      exact hnot hhigh v rfl

theorem inStyle_injective (style : LineEndings) : Function.Injective (inStyle style) := by
  cases style with
  | LF => exact fun _ _ h => h
  | CRLF => exact Function.LeftInverse.injective normalize_inStyle_crlf

variable {style : LineEndings}

theorem wellFormed_inStyle : WellFormed (inStyle style text) ↔ WellFormed text := by
  cases style with
  | LF => exact Iff.rfl
  | CRLF =>
    rw [← repaired_eq_iff, ← repaired_eq_iff, repaired_inStyle_crlf,
      (inStyle_injective .CRLF).eq_iff]

/-- Each line feed has a carriage return before it. -/
def AllCrlf (text : List UInt16) : Prop :=
  ∀ before after, text = before ++ 10 :: after → before.getLast? = some 13

theorem AllCrlf.tail_pair (h : AllCrlf (13 :: 10 :: rest)) : AllCrlf rest := by
  rintro before after rfl
  have hlast := h (13 :: 10 :: before) after rfl
  cases before with
  | nil => exact absurd hlast (by decide)
  | cons u before => simpa using hlast

theorem AllCrlf.tail (h : AllCrlf (u :: rest))
    (hnot : ∀ more, u = 13 → rest ≠ 10 :: more) : u ≠ 10 ∧ AllCrlf rest := by
  constructor
  · rintro rfl
    exact absurd (h [] rest rfl) (by decide)
  rintro before after rfl
  have hlast := h (u :: before) after rfl
  cases before with
  | nil => exact absurd rfl (hnot after (some.inj hlast))
  | cons v before => simpa using hlast

theorem AllCrlf.inStyle_normalize (h : AllCrlf text) :
    inStyle .CRLF (normalizeLineEndings text) = text := by
  induction text using normalizeLineEndings.induct with
  | case1 rest ih =>
    rw [normalizeLineEndings, inStyle_crlf_cons, if_pos rfl, ih h.tail_pair]
    rfl
  | case2 u rest hnot ih =>
    obtain ⟨hu, hrest⟩ := h.tail fun more hcr hmore => hnot more hcr hmore
    rw [normalizeLineEndings.eq_2 _ _ hnot, inStyle_crlf_cons, if_neg hu, ih hrest]
    rfl
  | case3 => rfl

theorem Uniform.noBreak (h : Uniform text .LF) : ¬ [13, 10] <:+: text := by
  rintro ⟨before, after, rfl⟩
  exact h (before ++ [13]) after (by simp) (by simp)

/-- A uniform text is its line-feed form in its style. -/
theorem Uniform.inStyle_normalize
    (h : Uniform text style) : inStyle style (normalizeLineEndings text) = text := by
  cases style with
  | LF => exact normalize_eq_iff.mpr h.noBreak
  | CRLF => exact AllCrlf.inStyle_normalize h.2

/-! ## Restoring and detecting -/

variable {pieces : List (List UInt16)}

theorem intercalate_modifyHead (sep : List UInt16) (u : UInt16) (hne : pieces ≠ []) :
    sep.intercalate (pieces.modifyHead (u :: ·)) = u :: sep.intercalate pieces := by
  match pieces, hne with
  | [piece], _ => simp [List.intercalate]
  | piece :: next :: rest, _ => simp [List.intercalate]

theorem split_ne_nil (needle text : List UInt16) (hne : needle ≠ []) : split needle text ≠ [] :=
  (leftmost_split hne text).ne_nil

theorem intercalate_split_feed (text : List UInt16) :
    [13, 10].intercalate (split [10] text) = inStyle .CRLF text := by
  induction text with
  | nil => rfl
  | cons u rest ih =>
    have hne := split_ne_nil [10] rest (cons_ne_nil _ _)
    rw [inStyle_crlf_cons, ← ih]
    by_cases hu : u = 10
    · subst hu
      rw [if_pos rfl, show 10 :: rest = [10] ++ rest from rfl, split_match (cons_ne_nil _ _)]
      obtain ⟨piece, pieces, hpieces⟩ := List.exists_cons_of_ne_nil hne
      rw [hpieces]
      rfl
    · rw [if_neg hu, split_other, intercalate_modifyHead _ _ hne]
      · rfl
      rintro ⟨after, hafter⟩
      injection hafter with hhead
      exact hu hhead.symm

theorem restore_crlf (text : List UInt16) :
    restoreLineEndings text .CRLF = inStyle .CRLF (normalizeLineEndings text) := by
  rw [restoreLineEndings, if_neg (by decide), intercalate_split_feed]

theorem count_eq_zero {needle text : List UInt16} (hne : needle ≠ []) (h : ¬ needle <:+: text) :
    count needle text = 0 := by
  have hlength := length_split hne text
  rw [(Leftmost.rest h).split_eq hne] at hlength
  simpa using hlength.symm

theorem count_feed_cons (u : UInt16) (rest : List UInt16) :
    count [10] (u :: rest) = count [10] rest + if u = 10 then 1 else 0 := by
  by_cases hu : u = 10
  · rw [hu, if_pos rfl, show 10 :: rest = [10] ++ rest from rfl, count_match (cons_ne_nil _ _)]
  rw [if_neg hu, count_other, Nat.add_zero]
  rintro ⟨after, hafter⟩
  injection hafter with hhead
  exact hu hhead.symm

theorem count_feed_pos : 0 < count [10] text ↔ 10 ∈ text := by
  induction text with
  | nil => simp [count, countFrom]
  | cons u rest ih =>
    rw [count_feed_cons, mem_cons, ← ih]
    split
    · rename_i hu
      simp [hu]
    · rename_i hu
      simp [Ne.symm hu]

theorem AllCrlf.count_eq (h : AllCrlf text) : count [13, 10] text = count [10] text := by
  induction text using normalizeLineEndings.induct with
  | case1 rest ih =>
    rw [show 13 :: 10 :: rest = [13, 10] ++ rest from rfl, count_match (cons_ne_nil _ _),
      ih h.tail_pair]
    change _ = count [10] (13 :: 10 :: rest)
    rw [count_feed_cons, count_feed_cons, if_pos rfl, if_neg (by decide)]
  | case2 u rest hnot ih =>
    obtain ⟨hu, hrest⟩ := h.tail fun more hcr hmore => hnot more hcr hmore
    rw [count_feed_cons, if_neg hu, Nat.add_zero, count_other, ih hrest]
    rintro ⟨after, hafter⟩
    injection hafter with hhead hrest
    exact hnot after hhead.symm hrest.symm
  | case3 => rfl

theorem AllCrlf.take (h : AllCrlf text) (n : Nat) : AllCrlf (text.take n) := by
  intro before after heq
  apply h before (after ++ text.drop n)
  rw [← cons_append, ← List.append_assoc, ← heq, List.take_append_drop]

theorem detect_eq (raw : List UInt16) :
    detectLineEndings raw =
      if count [13, 10] (raw.take 4096) >
          count [10] (raw.take 4096) - count [13, 10] (raw.take 4096) then .CRLF else .LF := by
  unfold detectLineEndings
  dsimp only
  rw [length_split (cons_ne_nil _ _), length_split (cons_ne_nil _ _),
    Nat.add_sub_cancel, Nat.add_sub_cancel]

/-- The style is missed where no line break of the file is in the sample. -/
theorem Uniform.detect (h : Uniform text style) :
    detectLineEndings text = if 10 ∈ text.take 4096 then style else .LF := by
  rw [detect_eq]
  cases style with
  | LF =>
    have hzero : count [13, 10] (text.take 4096) = 0 := by
      apply count_eq_zero (cons_ne_nil _ _)
      exact fun hin => h.noBreak (hin.trans (List.take_prefix _ _).isInfix)
    rw [hzero, if_neg (Nat.not_lt_zero _), ite_self]
  | CRLF =>
    rw [AllCrlf.count_eq (AllCrlf.take h.2 4096), Nat.sub_self]
    simp only [gt_iff_lt, count_feed_pos]

/-! ## Bytes -/

theorem zero_eq_toUInt8 {n : Nat} (h : n < 0x100) : 0 = n.toUInt8 ↔ n = 0 := by
  constructor
  · intro heq
    have hnat := congrArg UInt8.toNat heq
    rw [toNat_toUInt8 h] at hnat
    exact hnat.symm
  · rintro rfl
    rfl

theorem zero_mem_bytes {c : Nat} (hc : IsScalar c) : 0 ∈ bytes c ↔ c = 0 := by
  unfold IsScalar at hc
  unfold bytes
  split
  · rw [mem_singleton, zero_eq_toUInt8 (by omega)]
  split
  · rw [mem_cons, mem_singleton, zero_eq_toUInt8 (by omega), zero_eq_toUInt8 (by omega)]
    omega
  split
  · rw [mem_cons, mem_cons, mem_singleton, zero_eq_toUInt8 (by omega),
      zero_eq_toUInt8 (by omega), zero_eq_toUInt8 (by omega)]
    omega
  · rw [mem_cons, mem_cons, mem_cons, mem_singleton, zero_eq_toUInt8 (by omega),
      zero_eq_toUInt8 (by omega), zero_eq_toUInt8 (by omega), zero_eq_toUInt8 (by omega)]
    omega

theorem single_eq_zero : 0 = single u ↔ 0 = u := by
  unfold single
  split
  · rename_i hhalf
    refine ⟨fun heq => absurd heq (by decide), fun heq => ?_⟩
    rw [← heq] at hhalf
    exact absurd hhalf (by decide)
  · constructor
    · exact fun heq => UInt16.toNat_inj.mp heq
    · rintro rfl
      rfl

theorem zero_mem_points : ∀ {text : List UInt16}, 0 ∈ points text ↔ 0 ∈ text
  | [] => by simp [points]
  | [u] => by rw [points, mem_singleton, mem_singleton, single_eq_zero]
  | u :: v :: rest => by
    rw [points]
    split
    · rename_i hpair
      have hu : 0 ≠ u := fun heq => absurd (heq ▸ hpair.1) (by decide)
      have hv : 0 ≠ v := fun heq => absurd (heq ▸ hpair.2) (by decide)
      have hpoint : 0 ≠ 0x10000 + (u.toNat - 0xD800) * 0x400 + (v.toNat - 0xDC00) := by omega
      simp only [mem_cons, hu, hv, hpoint, false_or, zero_mem_points]
    · rw [mem_cons, mem_cons, single_eq_zero, @zero_mem_points (v :: rest)]

theorem zero_mem_encodeUtf8 : 0 ∈ encodeUtf8 text ↔ 0 ∈ text := by
  rw [encodeUtf8, List.mem_flatMap, ← zero_mem_points]
  constructor
  · rintro ⟨c, hc, hzero⟩
    rwa [← (zero_mem_bytes (isScalar_of_mem_points hc)).mp hzero]
  · exact fun hzero => ⟨0, hzero, by decide⟩

theorem points_of_marked (h : byteOrderMark <+: encodeUtf8 text) :
    ∃ rest, points text = 0xFEFF :: rest := by
  obtain ⟨after, hafter⟩ := h
  have hdecode := @decode_flatMap_bytes (points text) fun c hc => isScalar_of_mem_points hc
  rw [← encodeUtf8, ← hafter] at hdecode
  exact ⟨_, hdecode.symm.trans (decodeFrom_bytes_append (c := 0xFEFF) (by decide) after)⟩

theorem head?_repaired :
    (repaired text).head? = some 0xFEFF ↔ ∃ rest, points text = 0xFEFF :: rest := by
  rw [repaired]
  cases hpoints : points text with
  | nil => simp
  | cons c rest =>
    have hscalar : IsScalar c := isScalar_of_mem_points (hpoints ▸ mem_cons_self)
    simp only [flatMap_cons, List.cons.injEq, exists_and_left, exists_eq', and_true]
    constructor
    · intro hhead
      unfold units at hhead
      unfold IsScalar at hscalar
      split at hhead
      · have hnat := congrArg UInt16.toNat (some.inj hhead)
        rw [Nat.toUInt16, UInt16.toNat_ofNat'] at hnat
        change c % 65536 = 65279 at hnat
        omega
      · have hnat := congrArg UInt16.toNat (some.inj hhead)
        rw [Nat.toUInt16, UInt16.toNat_ofNat'] at hnat
        change (0xD800 + (c - 0x10000) / 0x400) % 65536 = 65279 at hnat
        omega
    · rintro rfl
      rfl

/-- Bytes that start with a mark are read without it. -/
theorem decodeUtf8_marked (h : (repaired text).head? = some 0xFEFF) :
    byteOrderMark <+: encodeUtf8 text ∧
      decodeUtf8 (encodeUtf8 text) = some (repaired text).tail := by
  obtain ⟨rest, hrest⟩ := head?_repaired.mp h
  have hbytes : encodeUtf8 text = byteOrderMark ++ rest.flatMap bytes := by
    rw [encodeUtf8, hrest, flatMap_cons]
    rfl
  have hmark : byteOrderMark <+: encodeUtf8 text := hbytes ▸ List.prefix_append _ _
  have hstrict : decodeStrict (rest.flatMap bytes) = some rest := by
    apply decodeStrict_eq_some.mpr
    exact ⟨rfl, fun c hc => isScalar_of_mem_points (hrest ▸ mem_cons_of_mem _ hc)⟩
  refine ⟨hmark, ?_⟩
  rw [decodeUtf8, if_pos hmark, hbytes]
  change (decodeStrict (rest.flatMap bytes)).map _ = _
  rw [hstrict, repaired, hrest, flatMap_cons]
  rfl

theorem decodeUtf8_unmarked (h : (repaired text).head? ≠ some 0xFEFF) :
    ¬ byteOrderMark <+: encodeUtf8 text ∧ decodeUtf8 (encodeUtf8 text) = some (repaired text) := by
  have hmark : ¬ byteOrderMark <+: encodeUtf8 text :=
    fun hmark => h (head?_repaired.mpr (points_of_marked hmark))
  refine ⟨hmark, ?_⟩
  have hstrict : decodeStrict (encodeUtf8 text) = some (points text) :=
    decodeStrict_eq_some.mpr ⟨rfl, fun c hc => isScalar_of_mem_points hc⟩
  rw [decodeUtf8, if_neg hmark]
  change (decodeStrict (encodeUtf8 text)).map _ = _
  rw [hstrict]
  rfl

/-- A file is its mark and the encoding of a well-formed text. -/
theorem decodeUtf8_eq_some {file : List UInt8} (h : decodeUtf8 file = some text) :
    file = markOf file ++ encodeUtf8 text ∧ WellFormed text := by
  unfold decodeUtf8 at h
  obtain ⟨cs, hcs, rfl⟩ := map_eq_some_iff.mp h
  obtain ⟨hbody, hscalar⟩ := decodeStrict_eq_some.mp hcs
  refine ⟨?_, wellFormed_flatMap_units hscalar⟩
  rw [encodeUtf8, points_flatMap_units hscalar, ← hbody, markOf]
  by_cases hmark : byteOrderMark <+: file
  · rw [if_pos hmark, if_pos hmark]
    obtain ⟨after, rfl⟩ := hmark
    rfl
  · rw [if_neg hmark, if_neg hmark]
    rfl

/-! ## Reading back -/

theorem repaired_inStyle (style : LineEndings) (text : List UInt16) :
    repaired (inStyle style text) = inStyle style (repaired text) := by
  cases style with
  | LF => rfl
  | CRLF => exact repaired_inStyle_crlf text

theorem mem_inStyle (hu : u ≠ 13) : u ∈ inStyle style text ↔ u ∈ text := by
  cases style with
  | LF => exact Iff.rfl
  | CRLF =>
    induction text with
    | nil => exact Iff.rfl
    | cons v rest ih =>
      rw [inStyle_crlf_cons, List.mem_append, mem_cons, ih]
      split
      · rename_i hv
        simp [hv, hu]
      · simp

theorem length_normalize_inStyle_le (style : LineEndings) (text : List UInt16) :
    (normalizeLineEndings (inStyle style text)).length ≤ text.length := by
  cases style with
  | LF => exact length_normalize_le text
  | CRLF => rw [normalize_inStyle_crlf]

theorem normalize_of_length
    (h : text.length ≤ (normalizeLineEndings text).length) : normalizeLineEndings text = text := by
  induction text using normalizeLineEndings.induct with
  | case1 rest ih =>
    have := length_normalize_le rest
    rw [normalizeLineEndings] at h
    simp only [length_cons] at h
    omega
  | case2 u rest hnot ih =>
    rw [normalizeLineEndings.eq_2 _ _ hnot] at h ⊢
    rw [ih (Nat.le_of_succ_le_succ h)]
  | case3 => rfl

theorem normalize_inStyle (h : text.length ≤ (normalizeLineEndings (inStyle style text)).length) :
    normalizeLineEndings (inStyle style text) = text := by
  cases style with
  | LF => exact normalize_of_length h
  | CRLF => exact normalize_inStyle_crlf text

/-- What is restored is in the detected style. -/
def restored (style : LineEndings) (content : List UInt16) : List UInt16 :=
  match style with
  | .LF => content
  | .CRLF => normalizeLineEndings content

theorem restore_eq (content : List UInt16) (style : LineEndings) :
    restoreLineEndings content style = inStyle style (restored style content) := by
  cases style with
  | LF => rfl
  | CRLF => exact restore_crlf content

variable {content : List UInt16}

theorem restored_eq_of_length
    (h : content.length ≤ (restored style content).length) : restored style content = content := by
  cases style with
  | LF => rfl
  | CRLF => exact normalize_of_length h

theorem length_restored_le (style : LineEndings) (content : List UInt16) :
    (restored style content).length ≤ content.length := by
  cases style with
  | LF => exact Nat.le_refl _
  | CRLF => exact length_normalize_le content

theorem inStyle_marked (style : LineEndings) (rest : List UInt16) :
    inStyle style (0xFEFF :: rest) = 0xFEFF :: inStyle style rest := by
  cases style <;> rfl

theorem head?_inStyle_mark :
    (inStyle style text).head? = some 0xFEFF ↔ text.head? = some 0xFEFF := by
  cases style with
  | LF => exact Iff.rfl
  | CRLF =>
    cases text with
    | nil => exact Iff.rfl
    | cons u rest =>
      rw [inStyle_crlf_cons]
      split
      · rename_i hu
        rw [hu]
        exact ⟨fun h => absurd (some.inj h) (by decide),
          fun h => absurd (some.inj h) (by decide)⟩
      · exact Iff.rfl

theorem readForEdit_ok {buffer : List UInt8} {displayPath : JsString} {basis : EditBasis} :
    readForEdit buffer displayPath = .ok basis ↔
      0 ∉ buffer ∧ ∃ raw, decodeUtf8 buffer = some raw ∧
        basis = ⟨normalizeLineEndings raw, detectLineEndings raw⟩ := by
  unfold readForEdit
  by_cases hzero : 0 ∈ buffer
  · simp [hzero]
  cases hdecode : decodeUtf8 buffer with
  | none => simp [hzero]
  | some raw => simp [hzero, eq_comm]

/-- A restored text is read back as it was exactly when it is well formed, has no carriage return
before a line feed, starts with no mark and has no zero. -/
theorem readBack_iff {displayPath : JsString} :
    (∃ basis, readForEdit (encodeUtf8 (restoreLineEndings content style)) displayPath = .ok basis
        ∧ basis.content = content) ↔
      WellFormed content ∧ ¬ [13, 10] <:+: content ∧ content.head? ≠ some 0xFEFF
        ∧ 0 ∉ content := by
  have hlength := length_restored_le style content
  have hrepaired := repaired_inStyle style (restored style content)
  rw [restore_eq]
  constructor
  · rintro ⟨basis, hread, hback⟩
    obtain ⟨hzero, raw, hdecode, rfl⟩ := readForEdit_ok.mp hread
    dsimp only at hback
    rw [zero_mem_encodeUtf8, mem_inStyle (by decide)] at hzero
    by_cases hmark : (repaired (inStyle style (restored style content))).head? = some 0xFEFF
    · -- a mark is lost, so what is read back is shorter
      rw [(decodeUtf8_marked hmark).2] at hdecode
      rw [hrepaired, head?_inStyle_mark] at hmark
      obtain ⟨rest, hrest⟩ := List.head?_eq_some_iff.mp hmark
      rw [hrepaired, hrest, inStyle_marked] at hdecode
      rw [← some.inj hdecode, List.tail_cons] at hback
      have hless := length_normalize_inStyle_le style rest
      have hwhole := congrArg length hrest
      rw [length_repaired, length_cons] at hwhole
      rw [hback] at hless
      omega
    · rw [(decodeUtf8_unmarked hmark).2, hrepaired] at hdecode
      rw [hrepaired, head?_inStyle_mark] at hmark
      rw [← some.inj hdecode] at hback
      have hless := length_normalize_inStyle_le style (repaired (restored style content))
      rw [hback, length_repaired] at hless
      have hsame := restored_eq_of_length hless
      rw [hsame] at hback hmark hzero
      have hkept : normalizeLineEndings (inStyle style (repaired content)) = repaired content := by
        apply normalize_inStyle
        rw [hback, length_repaired]
      rw [hkept] at hback
      rw [hback] at hmark
      refine ⟨repaired_eq_iff.mp hback, ?_, hmark, hzero⟩
      rw [← normalize_eq_iff]
      cases style with
      | LF => rwa [hback] at hkept
      | CRLF => exact hsame
  · rintro ⟨hwhole, hnot, hmark, hzero⟩
    have hnormal := normalize_eq_iff.mpr hnot
    have hsame : restored style content = content := by
      cases style with
      | LF => rfl
      | CRLF => exact hnormal
    rw [hsame, repaired_eq_iff.mpr hwhole] at hrepaired
    rw [hsame]
    have hunmarked : (repaired (inStyle style content)).head? ≠ some 0xFEFF := by
      rwa [hrepaired, Ne, head?_inStyle_mark]
    refine ⟨_, readForEdit_ok.mpr ⟨?_, _, (decodeUtf8_unmarked hunmarked).2, rfl⟩, ?_⟩
    · rwa [zero_mem_encodeUtf8, mem_inStyle (by decide)]
    dsimp only
    rw [hrepaired]
    apply normalize_inStyle
    cases style with
    | LF => rw [inStyle, hnormal]
    | CRLF => rw [normalize_inStyle_crlf]

/-! ## Parts -/

theorem infix_cons_iff :
    [13, 10] <:+: u :: rest ↔ (u = 13 ∧ rest.head? = some 10) ∨ [13, 10] <:+: rest := by
  rw [List.infix_cons_iff]
  apply or_congr_left
  constructor
  · rintro ⟨after, hafter⟩
    injection hafter with hu hrest
    exact ⟨hu.symm, by rw [← hrest]; rfl⟩
  · rintro ⟨rfl, hfirst⟩
    obtain ⟨after, rfl⟩ := List.head?_eq_some_iff.mp hfirst
    exact ⟨after, rfl⟩

theorem infix_append_iff {a b : List UInt16} :
    [13, 10] <:+: a ++ b ↔
      [13, 10] <:+: a ∨ [13, 10] <:+: b ∨ a.getLast? = some 13 ∧ b.head? = some 10 := by
  induction a with
  | nil => simp
  | cons u a ih =>
    rw [cons_append, infix_cons_iff, infix_cons_iff, ih]
    cases a with
    | nil =>
      simp only [List.nil_append, List.head?_nil, List.getLast?_nil, List.getLast?_singleton,
        some.injEq, reduceCtorEq, and_false, false_and, or_false, false_or,
        List.infix_nil, cons_ne_nil]
      exact or_comm
    | cons v a =>
      rw [cons_append, List.head?_cons, List.head?_cons, List.getLast?_cons_cons]
      exact or_assoc.symm

variable {parts : List (List UInt16)}

theorem noBreakForms_iff : NoBreakForms parts ↔ ¬ [13, 10] <:+: parts.flatten := by
  constructor
  · rintro ⟨hparts, hseams⟩
    induction parts with
    | nil => simp
    | cons part parts ih =>
      rw [flatten_cons, infix_append_iff]
      rintro (hpart | hrest | ⟨hlast, hfirst⟩)
      · exact hparts part mem_cons_self hpart
      · refine ih (fun other hmem => hparts other (mem_cons_of_mem _ hmem)) ?_ hrest
        rintro before after rfl hlast
        apply hseams (part :: before) after rfl
        rw [flatten_cons, List.getLast?_append, hlast]
        rfl
      · apply hseams [part] parts rfl _ hfirst
        rwa [List.flatten_singleton]
  · intro hnot
    constructor
    · intro part hmem hpart
      obtain ⟨before, after, rfl⟩ := List.append_of_mem hmem
      apply hnot
      rw [List.flatten_append, flatten_cons, infix_append_iff, infix_append_iff]
      exact .inr (.inl (.inl hpart))
    · rintro before after rfl hlast hfirst
      apply hnot
      rw [List.flatten_append, infix_append_iff]
      exact .inr (.inr ⟨hlast, hfirst⟩)

theorem mem_intersperse {sep part : List UInt16}
    (h : part ∈ pieces.intersperse sep) : part ∈ pieces ∨ part = sep := by
  induction pieces with
  | nil => cases h
  | cons piece pieces ih =>
    cases pieces with
    | nil => exact .inl h
    | cons next pieces =>
      rw [List.intersperse_cons_cons, mem_cons, mem_cons] at h
      rcases h with rfl | rfl | h
      · exact .inl mem_cons_self
      · exact .inr rfl
      · exact (ih h).imp_left (mem_cons_of_mem _)

theorem sep_mem_intersperse {sep : List UInt16}
    (h : 2 ≤ pieces.length) : sep ∈ pieces.intersperse sep := by
  match pieces, h with
  | piece :: next :: rest, _ =>
    rw [List.intersperse_cons_cons]
    exact mem_cons_of_mem _ mem_cons_self

theorem piece_mem_intersperse {sep piece : List UInt16}
    (h : piece ∈ pieces) : piece ∈ pieces.intersperse sep := by
  induction pieces with
  | nil => cases h
  | cons first pieces ih =>
    cases pieces with
    | nil => exact h
    | cons next pieces =>
      rw [List.intersperse_cons_cons]
      rcases List.mem_cons.mp h with rfl | h
      · exact mem_cons_self
      · exact mem_cons_of_mem _ (mem_cons_of_mem _ (ih h))

theorem encodeUtf8_flatten (h : ∀ part ∈ parts, WellFormed part) :
    parts.flatMap encodeUtf8 = encodeUtf8 parts.flatten := by
  induction parts with
  | nil => rfl
  | cons part parts ih =>
    rw [flatMap_cons, ih fun other hmem => h other (mem_cons_of_mem _ hmem),
      flatten_cons, encodeUtf8, encodeUtf8, encodeUtf8,
      (h part mem_cons_self).points_append, List.flatMap_append]

theorem styledBytes_eq (h : ∀ part ∈ parts, WellFormed part) :
    styledBytes style parts = encodeUtf8 (inStyle style parts.flatten) := by
  rw [inStyle_flatten, ← encodeUtf8_flatten, styledBytes, List.flatMap_map]
  intro part hmem
  obtain ⟨other, hother, rfl⟩ := List.mem_map.mp hmem
  exact wellFormed_inStyle.mpr (h other hother)

theorem styledBytes_read
    (hwhole : WellFormed text) (h : styledBytes style parts = encodeUtf8 text) :
    text = inStyle style (parts.map repaired).flatten := by
  have hbytes : styledBytes style parts =
      (parts.flatMap fun part => points (inStyle style part)).flatMap bytes := by
    rw [styledBytes, List.flatMap_assoc]
    rfl
  have hscalar : ∀ c ∈ parts.flatMap fun part => points (inStyle style part), IsScalar c := by
    intro c hc
    obtain ⟨part, -, hpart⟩ := List.mem_flatMap.mp hc
    exact isScalar_of_mem_points hpart
  have hread : (decode _).flatMap units = (decode _).flatMap units :=
    congrArg (fun bs => (decode bs).flatMap units) (hbytes.symm.trans h)
  rw [decode_flatMap_bytes hscalar, encodeUtf8, decode_encode, repaired_eq_iff.mpr hwhole,
    List.flatMap_assoc] at hread
  rw [← hread, inStyle_flatten, List.map_map, ← List.flatMap_def]
  exact congrArg (parts.flatMap ·) (funext fun part => repaired_inStyle style part)

theorem wellFormed_of_flatten
    (h : (parts.map repaired).flatten = parts.flatten) : ∀ part ∈ parts, WellFormed part := by
  induction parts with
  | nil => exact fun part hmem => absurd hmem List.not_mem_nil
  | cons part parts ih =>
    rw [map_cons, flatten_cons, flatten_cons] at h
    obtain ⟨hpart, hrest⟩ := List.append_inj h (length_repaired part)
    intro other hmem
    rcases List.mem_cons.mp hmem with rfl | hmem
    · exact repaired_eq_iff.mp hpart
    · exact ih hrest other hmem

theorem wellFormed_pieces {needle text : List UInt16}
    (hne : needle ≠ []) (hneedle : WellFormed needle) (h : Leftmost needle text pieces)
    (hwhole : WellFormed text) : ∀ piece ∈ pieces, WellFormed piece := by
  induction h with
  | rest => exact fun piece hmem => List.mem_singleton.mp hmem ▸ hwhole
  | @next before after pieces _ _ ih =>
    have hhead : ∀ v ∈ (needle ++ after).head?, ¬ IsLow v := by
      obtain ⟨u, needle, rfl⟩ := List.exists_cons_of_ne_nil hne
      exact fun v hv => hneedle.head_not_low v hv
    obtain ⟨hbefore, hafter⟩ := hwhole.of_append hhead
    intro piece hmem
    rcases List.mem_cons.mp hmem with rfl | hmem
    · exact hbefore
    · exact ih (hneedle.append_iff.mp hafter) piece hmem

/-! ## The edit -/

/-- What an accepted edit did. -/
theorem editText_ok {target : FsTarget} {version : JsString} {file : List UInt8}
    {edit : FsEditRequest} {expected probed : Option JsString} {written : List UInt8}
    {outcome : FsEditOutcome}
    (h : editText target (some ⟨version, some file⟩) edit expected probed = .ok (written, outcome))
    (htext : decodeUtf8 file = some text) :
    let old := normalizeLineEndings edit.oldString.units
    let pieces := split old (normalizeLineEndings text)
    0 ∉ file ∧ old ≠ [] ∧ 2 ≤ pieces.length ∧ (edit.replaceAll = false → pieces.length = 2)
      ∧ outcome.after = (pieces.intersperse (normalizeLineEndings edit.newString.units)).flatten
      ∧ written = encodeUtf8 (restoreLineEndings outcome.after (detectLineEndings text)) := by
  intro old pieces
  unfold editText at h
  dsimp only at h
  split at h
  · cases h
  cases hread : readForEdit file target.displayPath with
  | error e =>
    rw [hread] at h
    cases h
  | ok basis =>
    obtain ⟨hzero, raw, hraw, rfl⟩ := readForEdit_ok.mp hread
    cases htext.symm.trans hraw
    rw [hread] at h
    change (applyLiteralEdit _ _ _ >>= _) = _ at h
    unfold applyLiteralEdit at h
    dsimp only at h
    split at h
    · cases h
    rename_i hsome
    have hne : old ≠ [] := fun heq => hsome (List.length_eq_zero_iff.mpr heq)
    have hlength := length_split hne (normalizeLineEndings text)
    change pieces.length = _ at hlength
    split at h
    · cases h
    rename_i hfound
    change count old (normalizeLineEndings text) ≠ 0 at hfound
    split at h
    · cases h
    rename_i hunique
    change ¬ (!edit.replaceAll && decide (count old (normalizeLineEndings text) > 1)) = true at hunique
    cases h
    refine ⟨hzero, hne, by omega, fun hone => ?_, rfl, rfl⟩
    rw [hone, Bool.not_false, Bool.true_and, decide_eq_true_iff] at hunique
    omega

/-- Without line feeds a text is the same in every style. -/
theorem inStyle_of_not_mem (h : 10 ∉ text) : inStyle style text = text := by
  cases style with
  | LF => rfl
  | CRLF =>
    induction text with
    | nil => rfl
    | cons u rest ih =>
      rw [mem_cons, not_or] at h
      rw [inStyle_crlf_cons, if_neg (Ne.symm h.1), ih h.2]
      rfl

theorem not_mem_of_length_inStyle (h : (inStyle .CRLF text).length ≤ text.length) : 10 ∉ text := by
  have hle (rest : List UInt16) : rest.length ≤ (inStyle .CRLF rest).length := by
    have := length_normalize_le (inStyle .CRLF rest)
    rwa [normalize_inStyle_crlf] at this
  induction text with
  | nil => exact List.not_mem_nil
  | cons u rest ih =>
    have := hle rest
    rw [inStyle_crlf_cons] at h
    split at h
    · simp only [length_append, length_cons, List.length_nil] at h
      omega
    rename_i hu
    rw [length_append, length_cons, length_cons, List.length_nil] at h
    rw [mem_cons, not_or]
    exact ⟨Ne.symm hu, ih (by omega)⟩

theorem length_flatten_repaired (parts : List (List UInt16)) :
    (parts.map repaired).flatten.length = parts.flatten.length := by
  induction parts with
  | nil => rfl
  | cons part parts ih =>
    rw [map_cons, flatten_cons, flatten_cons, length_append,
      length_append, length_repaired, ih]

theorem normalize_subset (h : u ∈ normalizeLineEndings text) : u ∈ text := by
  induction text using normalizeLineEndings.induct with
  | case1 rest ih =>
    rw [normalizeLineEndings, mem_cons] at h
    exact mem_cons_of_mem _ (List.mem_cons.mpr (h.imp_right ih))
  | case2 v rest hnot ih =>
    rw [normalizeLineEndings.eq_2 _ _ hnot, mem_cons] at h
    exact List.mem_cons.mpr (h.imp_right ih)
  | case3 => exact h

theorem restore_of_noBreak (h : ¬ [13, 10] <:+: content)
    (style : LineEndings) : restoreLineEndings content style = inStyle style content := by
  rw [restore_eq]
  cases style with
  | LF => rfl
  | CRLF => rw [restored, normalize_eq_iff.mpr h]

theorem wellFormed_flatten (h : ∀ part ∈ parts, WellFormed part) : WellFormed parts.flatten := by
  induction parts with
  | nil => exact trivial
  | cons part parts ih =>
    rw [flatten_cons, (h part mem_cons_self).append_iff]
    exact ih fun other hmem => h other (mem_cons_of_mem _ hmem)

theorem wellFormed_intersperse {sep : List UInt16}
    (hsep : WellFormed sep) (hpieces : ∀ piece ∈ pieces, WellFormed piece) :
    ∀ part ∈ pieces.intersperse sep, WellFormed part := by
  intro part hmem
  rcases mem_intersperse hmem with hmem | rfl
  · exact hpieces part hmem
  · exact hsep

/-- The style in which a text is written is the style of its file, or makes no difference. -/
theorem Uniform.inStyle_detected {text content : List UInt16}
    (h : Uniform text style) (hseen : style = .CRLF → 10 ∈ text.take 4096 ∨ 10 ∉ content) :
    inStyle (detectLineEndings text) content = inStyle style content := by
  rw [h.detect]
  split
  · rfl
  rename_i hsample
  cases style with
  | LF => rfl
  | CRLF =>
    have hnone := (hseen rfl).resolve_left hsample
    rw [inStyle_of_not_mem hnone, inStyle_of_not_mem hnone]

/-- Parts that are written in the style of their file are all well formed, and that style was
detected where it makes a difference. -/
theorem Uniform.parts_of_detected {text content : List UInt16} (h : Uniform text style)
    (hcontent : parts.flatten = content)
    (hread : inStyle (detectLineEndings text) content =
      inStyle style (parts.map repaired).flatten) :
    (parts.map repaired).flatten = content
      ∧ (style = .CRLF → 10 ∈ text.take 4096 ∨ 10 ∉ content) := by
  have hlength := length_flatten_repaired parts
  rw [hcontent] at hlength
  rw [h.detect] at hread
  split at hread
  · rename_i hsample
    exact ⟨(inStyle_injective style hread).symm, fun _ => .inl hsample⟩
  cases style with
  | LF => exact ⟨hread.symm, nofun⟩
  | CRLF =>
    change content = _ at hread
    have hnone : 10 ∉ (parts.map repaired).flatten := by
      apply not_mem_of_length_inStyle
      rw [← hread, hlength]
    rw [inStyle_of_not_mem hnone] at hread
    rw [← hread] at hnone ⊢
    exact ⟨rfl, fun _ => .inr hnone⟩

/-- An accepted edit of a uniform file changes its matches only, and is read back as reported,
exactly when the file and the request are clean. -/
theorem editText_iff {target : FsTarget} {version : JsString} {file : List UInt8}
    {edit : FsEditRequest} {expected probed : Option JsString} {written : List UInt8}
    {outcome : FsEditOutcome} {text : List UInt16} {style : LineEndings}
    (haccepted : editText target (some ⟨version, some file⟩) edit expected probed =
      .ok (written, outcome))
    (htext : decodeUtf8 file = some text) (huniform : Uniform text style) :
    (∃ pieces,
        TouchesOnlyMatches style text file edit target.displayPath written outcome pieces) ↔
      Clean style text file (normalizeLineEndings edit.oldString.units)
        (normalizeLineEndings edit.newString.units)
        ((split (normalizeLineEndings edit.oldString.units) (normalizeLineEndings text)).intersperse
          (normalizeLineEndings edit.newString.units)) := by
  obtain ⟨hzero, hne, htwo, hone, hafter, hwritten⟩ := editText_ok haccepted htext
  obtain ⟨hfile, hwhole⟩ := decodeUtf8_eq_some htext
  generalize hold : normalizeLineEndings edit.oldString.units = old at *
  generalize hnew : normalizeLineEndings edit.newString.units = new at *
  have hleft := leftmost_split hne (normalizeLineEndings text)
  generalize hpieces : split old (normalizeLineEndings text) = pieces at *
  have hstyled := huniform.inStyle_normalize
  have hcontent : (pieces.intersperse old).flatten = normalizeLineEndings text := hleft.intercalate
  have hdetect := huniform.detect
  have hlist : (pieces.intersperse new).findSome? head? = outcome.after.head? := by
    rw [hafter, List.head?_flatten]
  constructor
  · rintro ⟨pieces', hmatched, -, horiginal, hreplaced, hback⟩
    rw [hold] at hmatched horiginal
    rw [hnew] at hreplaced
    obtain rfl := hleft.unique hmatched
    rw [hwritten, readBack_iff] at hback
    obtain ⟨hafterWhole, hnot, hmark, hnull⟩ := hback
    have holdAll : ∀ part ∈ pieces.intersperse old, WellFormed part := by
      have hbytes := List.append_cancel_left (horiginal.symm.trans hfile)
      apply wellFormed_of_flatten
      apply inStyle_injective style
      rw [← styledBytes_read hwhole hbytes, hcontent, hstyled]
    rw [restore_of_noBreak hnot] at hwritten
    have hwrittenWhole := (@wellFormed_inStyle _ (detectLineEndings text)).mpr hafterWhole
    -- what was written starts with no mark, so the file has none
    have hunmarked : markOf file = [] := by
      unfold markOf at hreplaced ⊢
      split at hreplaced
      · have hhead : (repaired (inStyle (detectLineEndings text) outcome.after)).head? ≠
            some 0xFEFF := by
          rwa [repaired_eq_iff.mpr hwrittenWhole, Ne, head?_inStyle_mark]
        have hnone := (decodeUtf8_unmarked hhead).1
        rw [← hwritten, hreplaced] at hnone
        exact absurd (List.prefix_append _ _) hnone
      · rename_i hnone
        rw [if_neg hnone]
    rw [hunmarked, List.nil_append, hwritten] at hreplaced
    obtain ⟨hnewFlat, hseen⟩ := huniform.parts_of_detected hafter.symm
      (styledBytes_read hwrittenWhole hreplaced.symm)
    have hnewMem := @sep_mem_intersperse pieces new htwo
    refine ⟨hunmarked, holdAll _ (sep_mem_intersperse htwo), ?_, ?_, ?_, ?_, ?_⟩
    · exact wellFormed_of_flatten (hnewFlat.trans hafter) _ hnewMem
    · intro hmem
      apply hnull
      rw [hafter]
      exact List.mem_flatten.mpr ⟨new, hnewMem, hmem⟩
    · rwa [noBreakForms_iff, ← hafter]
    · rwa [hlist]
    · intro hcrlf
      refine (hseen hcrlf).imp_right fun hnone part hpart hmem => hnone ?_
      rw [hafter]
      exact List.mem_flatten.mpr ⟨part, hpart, hmem⟩
  · rintro ⟨hunmarked, holdWhole, hnewWhole, hnewText, hbreak, hmark, hseen⟩
    rw [noBreakForms_iff, ← hafter] at hbreak
    rw [hlist] at hmark
    have hpiecesWhole : ∀ piece ∈ pieces, WellFormed piece := by
      apply wellFormed_pieces hne holdWhole hleft
      rwa [← hstyled, wellFormed_inStyle] at hwhole
    have hnewAll := wellFormed_intersperse hnewWhole hpiecesWhole
    have hnull : 0 ∉ outcome.after := by
      rw [hafter]
      intro hin
      obtain ⟨part, hpart, hmem⟩ := List.mem_flatten.mp hin
      rcases mem_intersperse hpart with hpiece | hsep
      · have hold' : 0 ∈ (pieces.intersperse old).flatten :=
          List.mem_flatten.mpr ⟨part, piece_mem_intersperse hpiece, hmem⟩
        rw [hcontent] at hold'
        apply hzero
        rw [hfile, List.mem_append, zero_mem_encodeUtf8]
        exact .inr (normalize_subset hold')
      · exact hnewText (hsep ▸ hmem)
    have hseenAfter : style = .CRLF → 10 ∈ text.take 4096 ∨ 10 ∉ outcome.after := by
      refine fun hcrlf => (hseen hcrlf).imp_right fun hnone hmem => ?_
      rw [hafter] at hmem
      obtain ⟨part, hpart, hmem⟩ := List.mem_flatten.mp hmem
      exact hnone part hpart hmem
    refine ⟨pieces, ⟨?_, hone, ?_, ?_, ?_⟩⟩
    · rwa [hold]
    · rw [hold, styledBytes_eq (wellFormed_intersperse holdWhole hpiecesWhole), hcontent, hstyled]
      exact hfile
    · rw [hnew, styledBytes_eq hnewAll, ← hafter, hunmarked, hwritten,
        restore_of_noBreak hbreak, huniform.inStyle_detected hseenAfter]
      rfl
    · rw [hwritten, readBack_iff]
      refine ⟨?_, hbreak, hmark, hnull⟩
      rw [hafter]
      exact wellFormed_flatten hnewAll

def notes : FsTarget := ⟨JsString.ofString "notes", JsString.ofString "/notes"⟩

/-- Replaces the one `a` by `b`. -/
def letterEdit : FsEditRequest := ⟨JsString.ofString "a", JsString.ofString "b", false⟩

def letterOutcome (before after : List UInt16) : FsEditOutcome :=
  ⟨JsString.ofString "2", before, after⟩

theorem uniform_of_last (hfeed : 10 ∉ text) : Uniform (text ++ [13, 10]) .CRLF := by
  refine ⟨by simp, fun before after heq => ?_⟩
  induction before generalizing text with
  | nil =>
    cases text with
    | nil => exact absurd (List.cons_eq_cons.mp heq).1 (by decide)
    | cons u text => exact absurd (List.mem_cons.mpr (.inl (List.cons_eq_cons.mp heq).1.symm)) hfeed
  | cons v before ih =>
    cases text with
    | nil =>
      obtain ⟨rfl, hrest⟩ := List.cons_eq_cons.mp heq
      cases before with
      | nil => rfl
      | cons w before =>
        have hnil := (List.cons_eq_cons.mp hrest).2
        exact absurd hnil.symm (by simp)
    | cons u text =>
      rw [mem_cons, not_or] at hfeed
      have hlast := ih hfeed.2 (List.cons_eq_cons.mp heq).2
      rw [List.getLast?_cons, hlast]
      rfl

/-- A file of one line that ends in `CRLF`. -/
theorem editText_iff_line :
    (∃ pieces, TouchesOnlyMatches .CRLF [97, 13, 10] [97, 13, 10] letterEdit notes.displayPath
        [98, 13, 10] (letterOutcome [97, 10] [98, 10]) pieces) ↔
      Clean .CRLF [97, 13, 10] [97, 13, 10] [97] [98] [[], [98], [10]] :=
  @editText_iff notes (JsString.ofString "1") _ _ none (some (JsString.ofString "2")) _ _ _ _
    (by decide +kernel) (by decide +kernel) (@uniform_of_last [97] (by decide))

/-- The byte order mark and a carriage return of its own, both outside the match, are lost. -/
theorem edit_drops_bytes :
    decodeUtf8 [0xEF, 0xBB, 0xBF, 97, 13, 13, 10] = some [97, 13, 13, 10]
      ∧ Uniform [97, 13, 13, 10] .CRLF
      ∧ editText notes (some ⟨JsString.ofString "1", some [0xEF, 0xBB, 0xBF, 97, 13, 13, 10]⟩)
          letterEdit none (some (JsString.ofString "2")) =
        .ok ([98, 13, 10], letterOutcome [97, 13, 10] [98, 13, 10])
      ∧ ¬ ∃ pieces, TouchesOnlyMatches .CRLF [97, 13, 13, 10]
          [0xEF, 0xBB, 0xBF, 97, 13, 13, 10] letterEdit notes.displayPath [98, 13, 10]
          (letterOutcome [97, 13, 10] [98, 13, 10]) pieces := by
  refine ⟨by decide +kernel, @uniform_of_last [97, 13] (by decide), by decide +kernel, ?_⟩
  rintro ⟨pieces, h⟩
  have hmark := congrArg head? h.replaced
  rw [show markOf [0xEF, 0xBB, 0xBF, 97, 13, 13, 10] = byteOrderMark by decide] at hmark
  exact absurd (some.inj hmark) (by decide)

end FsLocal

end Harness
