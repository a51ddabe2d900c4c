-- SUMMARY: Packed, spelled, parsed and decoded again, a log is the log it was, in every batching.
import Harness.Json.RoundTrip
import Harness.Session.ChunkRows

namespace Harness

open List
open Json (get? ofInt)

/-! ## Values up to the order of fields -/

namespace Json

mutual

/-- The same value, up to the order in which objects enumerate their fields. -/
inductive Same : Json → Json → Prop where
  | refl (j : Json) : Same j j
  | obj {fields fields' fields''} : SameFields fields fields' → fields'.Perm fields'' →
      Same (.obj fields) (.obj fields'')

inductive SameFields : List (JsString × Json) → List (JsString × Json) → Prop where
  | nil : SameFields [] []
  | cons {key value value' fields fields'} : Same value value' → SameFields fields fields' →
      SameFields ((key, value) :: fields) ((key, value') :: fields')

end

theorem SameFields.refl (fields : List (JsString × Json)) : SameFields fields fields := by
  induction fields with
  | nil => exact .nil
  | cons field fields ih => exact .cons (.refl _) ih

theorem Same.of_perm {fields fields' : List (JsString × Json)} (h : fields.Perm fields') :
    Same (.obj fields) (.obj fields') :=
  .obj (.refl fields) h

theorem mem_of_properFields {fields : List (JsString × Json)} (h : ProperFields fields)
    {field : JsString × Json} (hmem : field ∈ fields) : field.2.Proper := by
  induction fields with
  | nil => cases hmem
  | cons first fields ih =>
    obtain ⟨hfirst, hrest⟩ := h
    rcases mem_cons.mp hmem with rfl | hmem
    · exact hfirst
    · exact ih hrest hmem

theorem Proper.get? {fields : List (JsString × Json)} (h : Proper (.obj fields)) {key : JsString}
    {value : Json} (hget : get? key fields = some value) : value.Proper :=
  mem_of_properFields h.2 (get?_eq_some_mem hget)

end Json

/-- An object with exactly the expected keys is the expected object, reordered. -/
theorem perm_of_hasExactKeys {fields expected : List (JsString × Json)} {keys : List JsString}
    (hnodup : keys.Nodup)
    (hkeys : hasExactKeys fields keys = true) (hexpected : expected.map Prod.fst = keys)
    (hvalues : ∀ field ∈ expected, get? field.1 fields = some field.2) :
    expected.Perm fields := by
  subst hexpected
  have hlength : fields.length = expected.length := by
    unfold hasExactKeys at hkeys
    simp only [Bool.and_eq_true, beq_iff_eq, length_map] at hkeys
    exact hkeys.1
  have hsub : expected ⊆ fields := fun field hmem => Json.get?_eq_some_mem (hvalues field hmem)
  have hsubperm : expected.Subperm fields := subperm_of_subset hnodup.of_map hsub
  exact hsubperm.perm_of_length_le (le_of_eq hlength)

/-! ## Rounding -/

theorem roundDouble_of_safe {z : Int} (h : isSafeInt z = true) : roundDouble z = z := by
  unfold roundDouble
  rw [if_pos]
  unfold isSafeInt at h
  simp only [decide_eq_true_eq] at h
  omega

/-- Rounding moves no difference into or out of the safe range. -/
theorem isSafeInt_roundDouble (z : Int) : isSafeInt (roundDouble z) = isSafeInt z := by
  unfold roundDouble
  split
  · rfl
  next hlarge =>
  have hunsafe : ∀ w : Int, w = z ∨ w = z - 1 ∨ w = z + 1 → w % 2 = 0 ∨ w = z →
      isSafeInt w = false ∧ isSafeInt z = false := by
    intro w hw _
    unfold isSafeInt maxSafeInteger at *
    simp only [decide_eq_false_iff_not]
    omega
  split
  · rfl
  split
  · obtain ⟨hw, hz⟩ := hunsafe (z - 1) (.inr (.inl rfl)) (.inl (by omega))
    rw [hw, hz]
  · obtain ⟨hw, hz⟩ := hunsafe (z + 1) (.inr (.inr rfl)) (.inl (by omega))
    rw [hw, hz]

/-! ## Classified events -/

structure DeltaEvent.Safe (event : DeltaEvent) : Prop where
  seq : isSafeInt event.seq = true ∧ 0 ≤ event.seq
  time : isSafeInt event.time = true

theorem asSafeInteger_eq_some {j : Json} {z : Int} (h : j.asSafeInteger = some z) :
    j = .ofInt z ∧ isSafeInt z = true := by
  cases j with
  | num n =>
    cases n with
    | int w =>
      simp only [Json.asSafeInteger, Num.asSafeInteger] at h
      split at h
      · next hsafe =>
        cases h
        exact ⟨rfl, hsafe⟩
      · cases h
    | frac m s hm => cases h
  | _ => cases h

theorem classifyChunk_same {chunk : List (JsString × Json)} (hchunk : Json.Proper (.obj chunk))
    {index : Num} (hindex : get? "index" chunk = some (.num index)) {shape : DeltaShape}
    {fragment : JsString} (h : classifyChunk chunk = some (shape, fragment)) :
    Json.Same (chunkJson shape index fragment) (.obj chunk) := by
  unfold classifyChunk at h
  split at h
  · next type htype =>
    split at h
    · next hkind =>
      split at h
      · next hkeys =>
        split at h
        · next text htext =>
          cases h
          have hperm : ([("type", .str type), ("index", .num index), ("text", .str fragment)] :
              List (JsString × Json)).Perm chunk := by
            apply perm_of_hasExactKeys (by decide) hkeys rfl
            simp [htype, hindex, htext]
          rcases hkind with rfl | rfl
          · exact .of_perm hperm
          · exact .of_perm hperm
        · cases h
      · cases h
    · split at h
      · next htool =>
        subst htool
        split at h
        · next id argumentsDelta hid hargs =>
          split at h
          · next hkeys =>
            cases h
            refine .of_perm (perm_of_hasExactKeys (by decide) hkeys rfl ?_)
            simp [htype, hindex, hid, hargs]
          split at h
          · next hkeys =>
            split at h
            · next name hname =>
              cases h
              refine .of_perm (perm_of_hasExactKeys (by decide) hkeys rfl ?_)
              simp [htype, hindex, hid, hname, hargs]
            · cases h
          · cases h
        · cases h
      · cases h
  · cases h

variable {event : Json}

/-- The object that a whitelisted event's fields make is the event. -/
theorem classify_same (hevent : event.Proper) {delta : DeltaEvent}
    (h : classify event = some delta) : Json.Same delta.toJson event ∧ delta.Safe := by
  unfold classify at h
  split at h
  · next fields =>
    split at h
    · next type htype =>
      split at h
      · next hshape =>
        simp only [Bool.and_eq_true, decide_eq_true_eq] at hshape
        obtain ⟨rfl, hkeys⟩ := hshape
        split at h
        · next seqJson timeJson data hseq htime hdata =>
          split at h
          · next seq time hseqInt htimeInt =>
            obtain ⟨rfl, hseqSafe⟩ := asSafeInteger_eq_some hseqInt
            obtain ⟨rfl, htimeSafe⟩ := asSafeInteger_eq_some htimeInt
            split at h
            · cases h
            next hnonneg =>
            have hdataProper : Json.Proper (.obj data) := hevent.get? hdata
            unfold classifyData at h
            split at h
            · next hdataKeys =>
              split at h
              · next turn step chunk hturn hstep hchunk =>
                split at h
                · next index shape fragment hindex hclassify =>
                  cases h
                  have hchunkSame := classifyChunk_same (hdataProper.get? hchunk) hindex hclassify
                  have hdataPerm : ([("turn", .num turn), ("step", .num step), ("chunk", .obj chunk)] :
                      List (JsString × Json)).Perm data := by
                    apply perm_of_hasExactKeys (by decide) hdataKeys rfl
                    simp [hturn, hstep, hchunk]
                  have heventPerm : ([("type", .str "assistant/chunk"), ("seq", .ofInt seq),
                      ("time", .ofInt time), ("data", .obj data)] :
                      List (JsString × Json)).Perm fields := by
                    apply perm_of_hasExactKeys (by decide) hkeys rfl
                    simp [htype, hseq, htime, hdata]
                  refine ⟨?_, ⟨hseqSafe, Int.not_lt.mp hnonneg⟩, htimeSafe⟩
                  refine .obj (.cons (.refl _) (.cons (.refl _) (.cons (.refl _) (.cons ?_ .nil))))
                    heventPerm
                  exact .obj (.cons (.refl _) (.cons (.refl _) (.cons hchunkSame .nil))) hdataPerm
                · cases h
              · cases h
            · cases h
          · cases h
        · cases h
      · cases h
    · cases h
  · cases h

/-! ## Runs -/

/-- Each member extends the run that ends in the member before it. -/
def Continuous : List DeltaEvent → Prop
  | prev :: next :: rest => continues prev next = true ∧ Continuous (next :: rest)
  | _ => True

/-- What `next` shares with `prev`. -/
structure Follows (prev next : DeltaEvent) : Prop where
  shape : next.shape = prev.shape
  seq : next.seq = prev.seq + 1
  gap : isSafeInt (next.time - prev.time) = true
  turn : next.turn = prev.turn
  step : next.step = prev.step
  index : next.index = prev.index

theorem follows_of_continues {prev next : DeltaEvent} (h : continues prev next = true) :
    Follows prev next := by
  unfold continues at h
  simp only [Bool.and_eq_true, decide_eq_true_eq] at h
  obtain ⟨⟨⟨⟨⟨hshape, hseq⟩, hgap⟩, hturn⟩, hstep⟩, hindex⟩ := h
  rw [isSafeInt_roundDouble] at hgap
  exact ⟨hshape, hseq, hgap, hturn, hstep, hindex⟩

theorem Continuous.snoc {run : List DeltaEvent} {last next : DeltaEvent} (h : Continuous run)
    (hlast : run.getLast? = some last) (hnext : continues last next = true) :
    Continuous (run ++ [next]) := by
  induction run with
  | nil => cases hlast
  | cons first rest ih =>
    cases rest with
    | nil =>
      cases hlast
      exact ⟨hnext, trivial⟩
    | cons second rest =>
      obtain ⟨hfirst, hrest⟩ := h
      exact ⟨hfirst, ih hrest (by simpa using hlast)⟩

/-- A run that a row can stand for. -/
structure Run (first : DeltaEvent) (rest : List DeltaEvent) : Prop where
  safe : ∀ event ∈ first :: rest, event.Safe
  continuous : Continuous (first :: rest)

variable {rest : List DeltaEvent}

theorem Run.tail {first next : DeltaEvent} (h : Run first (next :: rest)) : Run next rest :=
  ⟨fun event hevent => h.safe event (mem_cons_of_mem _ hevent), h.continuous.2⟩

theorem Run.follows {first next : DeltaEvent} (h : Run first (next :: rest)) : Follows first next :=
  follows_of_continues h.continuous.1

/-- The row's member fields are those of `event`. -/
structure ChunkRow.Shares (row : ChunkRow) (event : DeltaEvent) : Prop where
  turn : row.turn = event.turn
  step : row.step = event.step
  index : row.index = event.index
  shape : row.shape = event.shape

variable {first : DeltaEvent} {row : ChunkRow}

theorem expandFrom_run
    (hrun : Run first rest) (hshares : row.Shares first) {k : Nat} (hseq : row.seq0 + k = first.seq) :
    expandFrom row k first.time ((first :: rest).map (·.fragment)) (gaps (first :: rest)) =
      (first :: rest).map DeltaEvent.toJson := by
  induction rest generalizing first k with
  | nil =>
    have hround := roundDouble_of_safe (hrun.safe first mem_cons_self).seq.1
    simp only [map_cons, map_nil, gaps, expandFrom, hseq, hround, hshares.turn, hshares.step,
      hshares.index, hshares.shape]
  | cons next rest ih =>
    have hround := roundDouble_of_safe (hrun.safe first mem_cons_self).seq.1
    have hfollows := hrun.follows
    have hnextSafe := hrun.tail.safe next mem_cons_self
    have hgap : roundDouble (next.time - first.time) = next.time - first.time :=
      roundDouble_of_safe hfollows.gap
    have htime : roundDouble (first.time + (next.time - first.time)) = next.time := by
      have hsum : first.time + (next.time - first.time) = next.time := by omega
      rw [hsum]
      exact roundDouble_of_safe hnextSafe.time
    have hnext : row.seq0 + ((k + 1 : Nat) : Int) = next.seq := by
      rw [hfollows.seq]
      omega
    have hrest := ih hrun.tail
      ⟨hshares.turn.trans hfollows.turn.symm, hshares.step.trans hfollows.step.symm,
        hshares.index.trans hfollows.index.symm, hshares.shape.trans hfollows.shape.symm⟩ hnext
    simp only [map_cons, gaps, expandFrom, hseq, hround, hgap, htime, hshares.turn, hshares.step,
      hshares.index, hshares.shape] at hrest ⊢
    rw [hrest]

theorem expandRow_buildRow (hrun : Run first rest) :
    expandRow (buildRow first rest) = (first :: rest).map DeltaEvent.toJson := by
  have hseq : (buildRow first rest).seq0 + ((0 : Nat) : Int) = first.seq := by simp [buildRow]
  exact expandFrom_run hrun ⟨rfl, rfl, rfl, rfl⟩ hseq

/-! ## Rows -/

/-- What the decoder requires of a row. -/
structure ChunkRow.Valid (row : ChunkRow) : Prop where
  seq0 : isSafeInt row.seq0 = true ∧ 0 ≤ row.seq0
  time0 : isSafeInt row.time0 = true
  dt : ∀ gap ∈ row.dt, isSafeInt gap = true
  arity : row.dt.length + 1 = row.fragments.length
  lastSeq : isSafeInt (row.seq0 + row.fragments.length - 1) = true
  times : timesStaySafe row.time0 row.dt = true

theorem gaps_length (first : DeltaEvent) (rest : List DeltaEvent) :
    (gaps (first :: rest)).length = rest.length := by
  induction rest generalizing first with
  | nil => rfl
  | cons next rest ih => simp only [gaps, length_cons, ih]

theorem Run.gaps_safe (hrun : Run first rest) :
    ∀ gap ∈ gaps (first :: rest), isSafeInt gap = true := by
  induction rest generalizing first with
  | nil => simp [gaps]
  | cons next rest ih =>
    intro gap hgap
    rcases mem_cons.mp hgap with rfl | hgap
    · rw [isSafeInt_roundDouble]
      exact hrun.follows.gap
    · exact ih hrun.tail gap hgap

theorem Run.times_safe (hrun : Run first rest) :
    timesStaySafe first.time (gaps (first :: rest)) = true := by
  induction rest generalizing first with
  | nil => rfl
  | cons next rest ih =>
    have hgap : roundDouble (next.time - first.time) = next.time - first.time :=
      roundDouble_of_safe hrun.follows.gap
    have hnext := (hrun.tail.safe next mem_cons_self).time
    have hsum : first.time + (next.time - first.time) = next.time := by omega
    simp only [gaps, timesStaySafe, hgap, hsum, roundDouble_of_safe hnext, hnext, Bool.true_and]
    exact ih hrun.tail

theorem Run.lastSeq (hrun : Run first rest) : isSafeInt (first.seq + rest.length) = true := by
  induction rest generalizing first with
  | nil => simpa using (hrun.safe first mem_cons_self).seq.1
  | cons next rest ih =>
    have hlast := ih hrun.tail
    have hseq : first.seq + ((next :: rest).length : Int) = next.seq + rest.length := by
      rw [hrun.follows.seq, length_cons]
      omega
    rwa [hseq]

theorem buildRow_valid (hrun : Run first rest) : (buildRow first rest).Valid where
  seq0 := (hrun.safe first mem_cons_self).seq
  time0 := (hrun.safe first mem_cons_self).time
  dt := hrun.gaps_safe
  arity := by simp [buildRow, gaps_length]
  lastSeq := by
    have hlast := hrun.lastSeq
    have hlength : (buildRow first rest).fragments.length = rest.length + 1 := by simp [buildRow]
    have hsum : (buildRow first rest).seq0 + ((buildRow first rest).fragments.length : Int) - 1 =
        first.seq + rest.length := by
      rw [hlength]
      simp only [buildRow]
      omega
    rwa [hsum]
  times := hrun.times_safe

theorem stringEntries_map (strings : List JsString) :
    stringEntries (strings.map .str) = some strings := by
  induction strings with
  | nil => rfl
  | cons s strings ih => simp only [map_cons, stringEntries, ih, Option.map_some]

theorem asSafeInteger_ofInt {z : Int} (h : isSafeInt z = true) : (ofInt z).asSafeInteger = some z := by
  simp only [ofInt, Json.asSafeInteger, Num.asSafeInteger, h, if_true]

theorem safeIntegerEntries_map {zs : List Int} (h : ∀ z ∈ zs, isSafeInt z = true) :
    safeIntegerEntries (zs.map .ofInt) = some zs := by
  induction zs with
  | nil => rfl
  | cons z zs ih =>
    have hrest := ih fun w hw => h w (mem_cons_of_mem _ hw)
    simp only [map_cons, safeIntegerEntries, asSafeInteger_ofInt (h z mem_cons_self), hrest,
      Option.map_some]

def ChunkRow.runData (row : ChunkRow) : RunData where
  turn := row.turn
  step := row.step
  index := row.index
  dt := row.dt
  fragments := row.fragments

theorem validateRunData_ok (h : row.Valid) (tag : RowTag)
    {data : List (JsString × Json)} {payloadKey : JsString}
    (hturn : get? "turn" data = some (.num row.turn))
    (hstep : get? "step" data = some (.num row.step))
    (hindex : get? "index" data = some (.num row.index))
    (hdt : get? "dt" data = some (.arr (row.dt.map .ofInt)))
    (hpayload : get? payloadKey data = some (.arr (row.fragments.map .str))) :
    validateRunData tag data payloadKey = .ok row.runData := by
  have harity := h.arity
  cases hfragments : row.fragments with
  | nil =>
    rw [hfragments] at harity
    cases harity
  | cons fragment fragments =>
    have hlength : row.dt.length = fragments.length := by
      rw [hfragments] at harity
      simpa using harity
    simp only [validateRunData, hturn, hstep, hindex, hpayload, stringEntries_map, hfragments, hdt,
      safeIntegerEntries_map h.dt, hlength, ne_eq, not_true_eq_false, if_false, ChunkRow.runData]

/-- The row type that stores a shape. -/
def DeltaShape.tag : DeltaShape → RowTag
  | .text => .textChunks
  | .reasoning => .reasoningChunks
  | .toolCall .. => .toolCallChunks

/-- The fields of a row's `data`. -/
def ChunkRow.dataFields (row : ChunkRow) : List (JsString × Json) :=
  ("turn", .num row.turn) :: ("step", .num row.step) :: ("index", .num row.index) ::
    ("dt", .arr (row.dt.map .ofInt)) :: row.payloadJson

theorem validateShape_ok (h : row.Valid) :
    validateShape row.shape.tag row.dataFields = .ok (row.shape, row.runData) := by
  obtain ⟨seq0, time0, turn, step, index, dt, shape, fragments⟩ := row
  cases shape with
  | text =>
    have hrun : validateRunData .textChunks
        (ChunkRow.dataFields ⟨seq0, time0, turn, step, index, dt, .text, fragments⟩) "texts" = .ok _ :=
      validateRunData_ok h .textChunks rfl rfl rfl rfl rfl
    have hkeys : hasExactKeys
        (ChunkRow.dataFields ⟨seq0, time0, turn, step, index, dt, .text, fragments⟩)
        ["turn", "step", "index", "dt", "texts"] = true := rfl
    simp only [DeltaShape.tag, validateShape, hkeys, hrun, Bool.not_true, Bool.false_eq_true, if_false,
      if_true, Except.map]
  | reasoning =>
    have hrun : validateRunData .reasoningChunks
        (ChunkRow.dataFields ⟨seq0, time0, turn, step, index, dt, .reasoning, fragments⟩) "texts" =
        .ok _ := validateRunData_ok h .reasoningChunks rfl rfl rfl rfl rfl
    have hkeys : hasExactKeys
        (ChunkRow.dataFields ⟨seq0, time0, turn, step, index, dt, .reasoning, fragments⟩)
        ["turn", "step", "index", "dt", "texts"] = true := rfl
    simp only [DeltaShape.tag, validateShape, hkeys, hrun, Bool.not_true, Bool.false_eq_true, if_false,
      reduceCtorEq, Except.map]
  | toolCall id name =>
    cases name with
    | none =>
      have hrun : validateRunData .toolCallChunks
          (ChunkRow.dataFields ⟨seq0, time0, turn, step, index, dt, .toolCall id none, fragments⟩)
          "args" = .ok _ := validateRunData_ok h .toolCallChunks rfl rfl rfl rfl rfl
      have hwith : hasExactKeys
          (ChunkRow.dataFields ⟨seq0, time0, turn, step, index, dt, .toolCall id none, fragments⟩)
          ["turn", "step", "index", "id", "name", "dt", "args"] = false := rfl
      have hkeys : hasExactKeys
          (ChunkRow.dataFields ⟨seq0, time0, turn, step, index, dt, .toolCall id none, fragments⟩)
          ["turn", "step", "index", "id", "dt", "args"] = true := rfl
      have hid : get? "id"
          (ChunkRow.dataFields ⟨seq0, time0, turn, step, index, dt, .toolCall id none, fragments⟩) =
          some (.str id) := rfl
      simp only [DeltaShape.tag, validateShape, hwith, hkeys, hid, hrun, Bool.not_true, Bool.and_false,
        Bool.false_eq_true, if_false, Except.map]
    | some name =>
      have hrun : validateRunData .toolCallChunks
          (ChunkRow.dataFields ⟨seq0, time0, turn, step, index, dt, .toolCall id (some name), fragments⟩)
          "args" = .ok _ := validateRunData_ok h .toolCallChunks rfl rfl rfl rfl rfl
      have hwith : hasExactKeys
          (ChunkRow.dataFields ⟨seq0, time0, turn, step, index, dt, .toolCall id (some name), fragments⟩)
          ["turn", "step", "index", "id", "name", "dt", "args"] = true := rfl
      have hid : get? "id"
          (ChunkRow.dataFields ⟨seq0, time0, turn, step, index, dt, .toolCall id (some name), fragments⟩) =
          some (.str id) := rfl
      have hname : get? "name"
          (ChunkRow.dataFields ⟨seq0, time0, turn, step, index, dt, .toolCall id (some name), fragments⟩) =
          some (.str name) := rfl
      simp only [DeltaShape.tag, validateShape, hwith, hid, hname, hrun, Bool.not_true, Bool.false_and,
        Bool.false_eq_true, if_false, Except.map]

theorem validateRow_ok (h : row.Valid) :
    ∃ fields, row.toJson = .obj fields ∧ rowTagOf row.toJson = some row.shape.tag ∧
      validateRow fields row.shape.tag = .ok row := by
  have hshape := validateShape_ok h
  have hround : roundDouble (row.seq0 + row.fragments.length) = row.seq0 + row.fragments.length := by
    unfold roundDouble
    rw [if_pos]
    have hlast := h.lastSeq
    have hseq0 := h.seq0
    unfold isSafeInt maxSafeInteger at *
    simp only [decide_eq_true_eq] at hlast hseq0
    omega
  obtain ⟨seq0, time0, turn, step, index, dt, shape, fragments⟩ := row
  refine ⟨_, rfl, ?_, ?_⟩
  · cases shape <;> rfl
  have hseq0 := asSafeInteger_ofInt h.seq0.1
  have htime0 := asSafeInteger_ofInt h.time0
  have hnonneg : ¬seq0 < 0 := Int.not_lt.mpr h.seq0.2
  have hlast := h.lastSeq
  have htimes := h.times
  simp only at hround hlast htimes hseq0 htime0
  have hkeys : hasExactKeys [("type", Json.str shape.rowTag), ("seq0", .ofInt seq0),
      ("time0", .ofInt time0), ("data", .obj (ChunkRow.dataFields
        ⟨seq0, time0, turn, step, index, dt, shape, fragments⟩))]
      ["type", "seq0", "time0", "data"] = true := rfl
  have hseqField : get? "seq0" [("type", Json.str shape.rowTag), ("seq0", .ofInt seq0),
      ("time0", .ofInt time0), ("data", .obj (ChunkRow.dataFields
        ⟨seq0, time0, turn, step, index, dt, shape, fragments⟩))] = some (.ofInt seq0) := rfl
  have htimeField : get? "time0" [("type", Json.str shape.rowTag), ("seq0", .ofInt seq0),
      ("time0", .ofInt time0), ("data", .obj (ChunkRow.dataFields
        ⟨seq0, time0, turn, step, index, dt, shape, fragments⟩))] = some (.ofInt time0) := rfl
  have hdataField : (get? "data" [("type", Json.str shape.rowTag), ("seq0", .ofInt seq0),
      ("time0", .ofInt time0), ("data", .obj (ChunkRow.dataFields
        ⟨seq0, time0, turn, step, index, dt, shape, fragments⟩))]).bind Json.record =
      some (ChunkRow.dataFields ⟨seq0, time0, turn, step, index, dt, shape, fragments⟩) := rfl
  unfold ChunkRow.dataFields at *
  simp only [validateRow, hkeys, hseqField, htimeField, Option.bind_some, hseq0, htime0, hnonneg,
    hdataField, hshape, ChunkRow.runData, hround, roundDouble_of_safe hlast, hlast, htimes,
    Bool.not_true, Bool.false_eq_true, if_false]

theorem decodeStorageRecord_row (h : row.Valid) :
    decodeStorageRecord row.toJson = .ok (expandRow row) := by
  obtain ⟨fields, hfields, htag, hrow⟩ := validateRow_ok h
  rw [hfields] at htag ⊢
  simp only [decodeStorageRecord, htag, hrow, Except.map]

theorem properItems_map {α : Type} (xs : List α) {f : α → Json} (h : ∀ x, (f x).Proper) :
    Json.ProperItems (xs.map f) := by
  induction xs with
  | nil => trivial
  | cons x xs ih => exact ⟨h x, ih⟩

theorem toJson_proper (row : ChunkRow) : row.toJson.Proper := by
  have hfragments : Json.Proper (.arr (row.fragments.map .str)) :=
    properItems_map row.fragments fun _ => trivial
  have hdt : Json.Proper (.arr (row.dt.map .ofInt)) := properItems_map row.dt fun _ => trivial
  have htexts : (["turn", "step", "index", "dt", "texts"] : List JsString).Nodup := by decide
  have hargs : (["turn", "step", "index", "dt", "id", "args"] : List JsString).Nodup := by decide
  have hnamed : (["turn", "step", "index", "dt", "id", "name", "args"] : List JsString).Nodup := by
    decide
  have henvelope : (["type", "seq0", "time0", "data"] : List JsString).Nodup := by decide
  have hdata : Json.Proper (.obj row.dataFields) := by
    unfold ChunkRow.dataFields ChunkRow.payloadJson
    cases row.shape with
    | text => exact ⟨htexts, trivial, trivial, trivial, hdt, hfragments, trivial⟩
    | reasoning => exact ⟨htexts, trivial, trivial, trivial, hdt, hfragments, trivial⟩
    | toolCall id name =>
      cases name with
      | none => exact ⟨hargs, trivial, trivial, trivial, hdt, trivial, hfragments, trivial⟩
      | some name =>
        exact ⟨hnamed, trivial, trivial, trivial, hdt, trivial, trivial, hfragments, trivial⟩
  exact ⟨henvelope, trivial, trivial, trivial, hdata, trivial⟩

/-! ## Reading -/

/-- Read one stored line. -/
def readRow (line : Text) : Except String (List Json) :=
  match Json.parse line with
  | none => .error "stored line is not JSON"
  | some value => decodeStorageRecord value

/-- Read stored lines, in order. -/
def readRows : List Text → Except String (List Json)
  | [] => .ok []
  | line :: lines =>
    match readRow line with
    | .error e => .error e
    | .ok events => (readRows lines).map (events ++ ·)

/-- Two event sequences are the same, position by position. -/
inductive SameEvents : List Json → List Json → Prop where
  | nil : SameEvents [] []
  | cons {event event' events events'} : Json.Same event event' → SameEvents events events' →
      SameEvents (event :: events) (event' :: events')

theorem SameEvents.append {events events' more more' : List Json} (h : SameEvents events events')
    (hmore : SameEvents more more') : SameEvents (events ++ more) (events' ++ more') := by
  induction h with
  | nil => exact hmore
  | cons hevent _ ih => exact .cons hevent ih

/-- The rows read back as the events. -/
def Stores (rows events : List Json) : Prop :=
  ∃ decoded, readRows (rows.map Json.stringify) = .ok decoded ∧ SameEvents decoded events

theorem readRows_append {lines more : List Text} {events later : List Json}
    (h : readRows lines = .ok events) (hmore : readRows more = .ok later) :
    readRows (lines ++ more) = .ok (events ++ later) := by
  induction lines generalizing events with
  | nil =>
    cases h
    exact hmore
  | cons line lines ih =>
    simp only [readRows, cons_append] at h ⊢
    split at h
    · cases h
    rename_i first hline
    obtain ⟨rest, hlines, h⟩ := Except.bind_eq_ok.mp h
    cases h
    simp only [ih hlines, Except.map, append_assoc]

theorem Stores.nil : Stores [] [] := ⟨[], rfl, .nil⟩

theorem Stores.append {rows more events later : List Json} (h : Stores rows events)
    (hmore : Stores more later) : Stores (rows ++ more) (events ++ later) := by
  obtain ⟨decoded, hread, hsame⟩ := h
  obtain ⟨decoded', hread', hsame'⟩ := hmore
  refine ⟨decoded ++ decoded', ?_, hsame.append hsame'⟩
  rw [map_append]
  exact readRows_append hread hread'

theorem readRow_stringify {row : Json} (hrow : row.Proper) :
    readRow row.stringify = decodeStorageRecord row := by
  rw [readRow, Json.parse_stringify hrow]

variable {events : List Json}

theorem Stores.of_row (hrow : row.Valid)
    (hsame : SameEvents (expandRow row) events) : Stores [row.toJson] events := by
  refine ⟨expandRow row, ?_, hsame⟩
  simp only [map_cons, map_nil, readRows, readRow_stringify (toJson_proper row),
    decodeStorageRecord_row hrow, Except.map, append_nil]

/-! ## Packing -/

/-- An event as the log holds it: a plain object that no row type tags. -/
structure StoredEvent (event : Json) : Prop where
  proper : event.Proper
  untagged : rowTagOf event = none

theorem Stores.of_event (h : StoredEvent event) : Stores [event] [event] := by
  refine ⟨[event], ?_, .cons (.refl _) .nil⟩
  have hdecode : decodeStorageRecord event = .ok [event] := by
    unfold decodeStorageRecord
    rw [h.untagged]
    cases event <;> rfl
  simp only [map_cons, map_nil, readRows, readRow_stringify h.proper, hdecode, Except.map,
    append_nil]

theorem Stores.of_events (h : ∀ event ∈ events, StoredEvent event) : Stores events events := by
  induction events with
  | nil => exact .nil
  | cons event events ih =>
    have hrest := ih fun e he => h e (mem_cons_of_mem _ he)
    exact (Stores.of_event (h event mem_cons_self)).append hrest

/-- The open run of the packer: whitelisted events that one row can stand for. -/
structure OpenRun.Sound (run : OpenRun) : Prop where
  stored : ∀ member ∈ run, StoredEvent member.1
  classified : ∀ member ∈ run, classify member.1 = some member.2
  continuous : Continuous (run.map Prod.snd)

variable {run : OpenRun}

theorem sameEvents_toJson (h : run.Sound) :
    SameEvents ((run.map Prod.snd).map DeltaEvent.toJson) (run.map Prod.fst) := by
  obtain ⟨hstored, hclassified, -⟩ := h
  induction run with
  | nil => exact .nil
  | cons member run ih =>
    have hsame := classify_same (hstored member mem_cons_self).proper
      (hclassified member mem_cons_self)
    exact .cons hsame.1 (ih (fun m hm => hstored m (mem_cons_of_mem _ hm))
      (fun m hm => hclassified m (mem_cons_of_mem _ hm)))

/-- A closed run reads back as its events, packed or not. -/
theorem stores_flush (h : run.Sound) : Stores (flush run) (run.map Prod.fst) := by
  unfold flush
  split
  · exact .nil
  next event first rest =>
  split
  · have hrun : Run first (rest.map Prod.snd) := by
      refine ⟨fun delta hdelta => ?_, h.continuous⟩
      obtain ⟨member, hmember, rfl⟩ : ∃ member ∈ (event, first) :: rest, member.2 = delta :=
        mem_map.mp (by simpa using hdelta)
      exact (classify_same (h.stored member hmember).proper (h.classified member hmember)).2
    refine .of_row (buildRow_valid hrun) ?_
    rw [expandRow_buildRow hrun]
    exact sameEvents_toJson h
  · refine .of_events fun e he => ?_
    obtain ⟨member, hmember, rfl⟩ := mem_map.mp he
    exact h.stored member hmember

/-- What the packing loop has written and holds open reads back as what it has seen. -/
structure Packed (out : List Json) (run : OpenRun) (seen : List Json) : Prop where
  sound : run.Sound
  stores : ∃ before, Stores out before ∧ seen = before ++ run.map Prod.fst

variable {out : List Json} {seen : List Json}

theorem Packed.flush (h : Packed out run seen) : Stores (out ++ Harness.flush run) seen := by
  obtain ⟨before, hstores, rfl⟩ := h.stores
  exact hstores.append (stores_flush h.sound)

theorem OpenRun.Sound.single {delta : DeltaEvent} (hevent : StoredEvent event)
    (h : classify event = some delta) : OpenRun.Sound [(event, delta)] where
  stored := by simpa using hevent
  classified := by simpa using h
  continuous := trivial

theorem packStep_packed (h : Packed out run seen) (hevent : StoredEvent event) :
    Packed (packStep out run event).1 (packStep out run event).2 (seen ++ [event]) := by
  have hrestart : ∀ delta, classify event = some delta →
      Packed (out ++ Harness.flush run) [(event, delta)] (seen ++ [event]) :=
    fun delta hclassify => ⟨.single hevent hclassify, seen, h.flush, rfl⟩
  unfold packStep
  split
  · refine ⟨⟨by simp, by simp, trivial⟩, seen ++ [event], h.flush.append (.of_event hevent), ?_⟩
    simp
  next delta hclassify =>
  split
  · next last hlast =>
    split
    · next hcontinues =>
      obtain ⟨before, hstores, rfl⟩ := h.stores
      refine ⟨⟨?_, ?_, ?_⟩, before, hstores, by simp⟩
      · intro member hmember
        rcases mem_append.mp hmember with hmember | hmember
        · exact h.sound.stored member hmember
        · cases mem_singleton.mp hmember
          exact hevent
      · intro member hmember
        rcases mem_append.mp hmember with hmember | hmember
        · exact h.sound.classified member hmember
        · cases mem_singleton.mp hmember
          exact hclassify
      · have hlast' : (run.map Prod.snd).getLast? = some last := by
          rw [getLast?_map, hlast]
          rfl
        simpa using h.sound.continuous.snoc hlast' hcontinues
    · exact hrestart delta hclassify
  · exact hrestart delta hclassify

theorem foldl_packStep_packed
    (h : Packed out run seen) (hevents : ∀ event ∈ events, StoredEvent event) :
    let after := events.foldl (fun (out, run) event => packStep out run event) (out, run)
    Packed after.1 after.2 (seen ++ events) := by
  induction events generalizing out run seen with
  | nil => simpa using h
  | cons event events ih =>
    have hnext := ih (packStep_packed h (hevents event mem_cons_self))
      fun e he => hevents e (mem_cons_of_mem _ he)
    simpa using hnext

theorem stores_packChunkRuns (hevents : ∀ event ∈ events, StoredEvent event) :
    Stores (packChunkRuns events) events := by
  have hempty : Packed [] [] [] := ⟨⟨by simp, by simp, trivial⟩, [], .nil, rfl⟩
  exact (foldl_packStep_packed hempty hevents).flush

/-- In every batching, the packed rows of a log, spelled as JSON lines and read back,
are exactly its events in order. -/
theorem packChunkRuns_roundTrip (batches : List (List Json))
    (hproper : ∀ batch ∈ batches, ∀ event ∈ batch, event.Proper)
    (huntagged : ∀ batch ∈ batches, ∀ event ∈ batch, ∀ tag : RowTag,
      event.member "type" ≠ some (.str tag.name)) :
    ∃ decoded, readRows ((batches.flatMap packChunkRuns).map Json.stringify) = .ok decoded ∧
      SameEvents decoded batches.flatten := by
  have hstored : ∀ batch ∈ batches, ∀ event ∈ batch, StoredEvent event := by
    intro batch hbatch event hevent
    refine ⟨hproper batch hbatch event hevent, ?_⟩
    unfold rowTagOf
    split
    · next tag htag =>
      rw [find?_eq_none]
      intro rowTag _ heq
      rw [decide_eq_true_eq] at heq
      exact huntagged batch hbatch event hevent rowTag (heq ▸ htag)
    · rfl
  clear hproper huntagged
  induction batches with
  | nil => exact Stores.nil
  | cons batch batches ih =>
    have hrest := ih fun b hb => hstored b (mem_cons_of_mem _ hb)
    exact (stores_packChunkRuns (hstored batch mem_cons_self)).append hrest

/-- One text delta of a stream, one millisecond after the one before it. -/
def textDelta (k : Nat) : Json :=
  DeltaEvent.toJson { seq := k, time := k, turn := .int 1, step := .int 1, index := .int 0
                      shape := .text, fragment := "a" }

theorem textDeltas_roundTrip :
    ∃ decoded, readRows (([[textDelta 0, textDelta 1, textDelta 2], [textDelta 3]].flatMap
        packChunkRuns).map Json.stringify) = .ok decoded ∧
      SameEvents decoded [textDelta 0, textDelta 1, textDelta 2, textDelta 3] := by
  have hproper : ∀ k, (textDelta k).Proper := by
    intro k
    have henvelope : (["type", "seq", "time", "data"] : List JsString).Nodup := by decide
    have hdata : (["turn", "step", "chunk"] : List JsString).Nodup := by decide
    have hchunk : (["type", "index", "text"] : List JsString).Nodup := by decide
    exact ⟨henvelope, trivial, trivial, trivial,
      ⟨hdata, trivial, trivial, ⟨hchunk, trivial, trivial, trivial, trivial⟩, trivial⟩, trivial⟩
  have huntagged : ∀ k (tag : RowTag), (textDelta k).member "type" ≠ some (.str tag.name) := by
    intro k tag h
    have htype : (textDelta k).member "type" = some (.str "assistant/chunk") := rfl
    rw [htype] at h
    cases tag <;> exact absurd (Json.str.inj (Option.some.inj h)) (by decide)
  refine packChunkRuns_roundTrip [[textDelta 0, textDelta 1, textDelta 2], [textDelta 3]] ?_ ?_
  · intro batch hbatch event hevent
    simp only [mem_cons, not_mem_nil, or_false] at hbatch
    rcases hbatch with rfl | rfl
    · simp only [mem_cons, not_mem_nil, or_false] at hevent
      rcases hevent with rfl | rfl | rfl <;> exact hproper _
    · simp only [mem_singleton] at hevent
      exact hevent ▸ hproper _
  · intro batch hbatch event hevent tag
    simp only [mem_cons, not_mem_nil, or_false] at hbatch
    rcases hbatch with rfl | rfl
    · simp only [mem_cons, not_mem_nil, or_false] at hevent
      rcases hevent with rfl | rfl | rfl <;> exact huntagged _ tag
    · simp only [mem_singleton] at hevent
      exact hevent ▸ huntagged _ tag

end Harness
