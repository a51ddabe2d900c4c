-- SUMMARY: When a stored chunk row expands to exact sequence numbers and times.
import Harness.Session.ChunkRowsRoundTrip

/-!
# Exact expansion of chunk rows

The decoder bounds a row in the arithmetic it is guarding: the running times are checked
one by one, the last sequence number by one sum that may already have rounded.
-/

namespace Harness

open List

/-! ## What a row expands to -/

/-- Member `k` of a row carries its exact sequence number and time, both safe integers. -/
structure ExactMember (seq0 time0 : Int) (dt : List Int) (k : Nat) (event : Json) : Prop where
  seq : event.member "seq" = some (.ofInt (seq0 + k))
  seqSafe : isSafeInt (seq0 + k) = true
  time : event.member "time" = some (.ofInt (time0 + (dt.take k).sum))
  timeSafe : isSafeInt (time0 + (dt.take k).sum) = true

/-- The events are the members of the row `value`, numbered and timed exactly. -/
def ExpandsExactly (value : Json) (events : List Json) : Prop :=
  ∃ seq0 time0 dt,
    value.member "seq0" = some (.ofInt seq0) ∧
    value.member "time0" = some (.ofInt time0) ∧
    ((value.member "data").bind Json.record).bind (Json.get? "dt") =
      some (.arr (dt.map .ofInt)) ∧
    events.length = dt.length + 1 ∧
    ∀ k event, events[k]? = some event → ExactMember seq0 time0 dt k event

/-- Every running time of the row, in exact arithmetic, is a safe integer. -/
def SafeTimes (time0 : Int) (dt : List Int) : Prop :=
  ∀ k, k ≤ dt.length → isSafeInt (time0 + (dt.take k).sum) = true

/-- `row` is what the envelope and the data of a row-tagged value hold, before the
reconstruction bounds. -/
structure ChunkRow.Stored (fields : List (JsString × Json)) (tag : RowTag) (row : ChunkRow) :
    Prop where
  keys : hasExactKeys fields ["type", "seq0", "time0", "data"] = true
  seq0 : (Json.get? "seq0" fields).bind Json.asSafeInteger = some row.seq0
  nonneg : ¬row.seq0 < 0
  time0 : (Json.get? "time0" fields).bind Json.asSafeInteger = some row.time0
  data : ∃ data, (Json.get? "data" fields).bind Json.record = some data ∧
    validateShape tag data = .ok (row.shape, row.runData)

/-- The value is an otherwise well-formed row whose last member is one past the largest
safe integer. -/
def OnePastLast (value : Json) (tag : RowTag) : Prop :=
  ∃ fields row, value = .obj fields ∧ ChunkRow.Stored fields tag row ∧
    SafeTimes row.time0 row.dt ∧
    row.seq0 + row.fragments.length = maxSafeInteger + 2

/-! ## The bounds -/

/-- Rounding leaves the first integer past the safe ones alone too. -/
theorem roundDouble_of_le {z : Int} (hlow : 0 ≤ z) (hhigh : z ≤ maxSafeInteger + 1) :
    roundDouble z = z := by
  unfold roundDouble
  rw [if_pos]
  omega

/-- The guard on the last member's sequence number lets exactly one unsafe sum through. -/
theorem seqGuard_iff {seq0 : Int} (hseq0 : ¬seq0 < 0) (n : Nat) :
    isSafeInt (roundDouble (roundDouble (seq0 + n) - 1)) = true ↔
      seq0 + n ≤ maxSafeInteger + 2 ∧ 0 ≤ seq0 + n := by
  have hnonneg : 0 ≤ seq0 + n := by omega
  rw [isSafeInt_roundDouble]
  unfold isSafeInt
  simp only [decide_eq_true_eq]
  unfold roundDouble maxSafeInteger
  split
  · omega
  split
  · omega
  split
  · omega
  · omega

/-- The times guard, though it adds rounded numbers, is exact. -/
theorem timesStaySafe_iff {time0 : Int} (h : isSafeInt time0 = true) (dt : List Int) :
    timesStaySafe time0 dt = true ↔ SafeTimes time0 dt := by
  induction dt generalizing time0 with
  | nil => simp [timesStaySafe, SafeTimes, h]
  | cons gap dt ih =>
    simp only [timesStaySafe, Bool.and_eq_true, isSafeInt_roundDouble]
    constructor
    · rintro ⟨hnext, hrest⟩ k hk
      cases k with
      | zero => simpa using h
      | succ k =>
        rw [roundDouble_of_safe hnext, ih hnext] at hrest
        have htime := hrest k (by simpa using hk)
        simpa [Int.add_assoc] using htime
    · intro hsafe
      have hnext : isSafeInt (time0 + gap) = true := by simpa using hsafe 1 (by simp)
      refine ⟨hnext, ?_⟩
      rw [roundDouble_of_safe hnext, ih hnext]
      intro k hk
      have htime := hsafe (k + 1) (by simpa using hk)
      simpa [Int.add_assoc] using htime

/-! ## Reading a row -/

theorem safeIntegerEntries_eq_some {entries : List Json} {zs : List Int}
    (h : safeIntegerEntries entries = some zs) :
    entries = zs.map .ofInt := by
  induction entries generalizing zs with
  | nil =>
    cases h
    rfl
  | cons entry entries ih =>
    unfold safeIntegerEntries at h
    split at h
    · cases h
    next z hz =>
    obtain ⟨rest, hrest, rfl⟩ := Option.map_eq_some_iff.mp h
    rw [ih hrest, (asSafeInteger_eq_some hz).1]
    rfl

variable {tag : RowTag}

/-- What accepted run data says about the gaps. -/
theorem validateRunData_dt {data : List (JsString × Json)} {payloadKey : JsString}
    {run : RunData} (h : validateRunData tag data payloadKey = .ok run) :
    Json.get? "dt" data = some (.arr (run.dt.map .ofInt)) ∧
      run.fragments.length = run.dt.length + 1 := by
  unfold validateRunData at h
  split at h
  · split at h
    · split at h
      · split at h
        · next gaps hgaps =>
          split at h
          · next dt hdt =>
            split at h
            · cases h
            next harity =>
            cases h
            rw [hgaps, safeIntegerEntries_eq_some hdt]
            simp only [ne_eq, Decidable.not_not] at harity
            simp [harity]
          · cases h
        · cases h
      · cases h
    · cases h
  · cases h

theorem validateShape_dt {data : List (JsString × Json)} {shape : DeltaShape}
    {run : RunData} (h : validateShape tag data = .ok (shape, run)) :
    Json.get? "dt" data = some (.arr (run.dt.map .ofInt)) ∧
      run.fragments.length = run.dt.length + 1 := by
  have hmap : ∀ {shape' : DeltaShape} {payloadKey : JsString},
      (validateRunData tag data payloadKey).map (shape', ·) = .ok (shape, run) →
      validateRunData tag data payloadKey = .ok run := by
    intro shape' payloadKey hmap
    cases hrun : validateRunData tag data payloadKey with
    | error e =>
      rw [hrun] at hmap
      cases hmap
    | ok run' =>
      rw [hrun] at hmap
      cases hmap
      rfl
  unfold validateShape at h
  cases tag with
  | textChunks =>
    simp only at h
    split at h
    · cases h
    · exact validateRunData_dt (hmap h)
  | reasoningChunks =>
    simp only at h
    split at h
    · cases h
    · exact validateRunData_dt (hmap h)
  | toolCallChunks =>
    simp only at h
    split at h
    · cases h
    split at h
    · exact validateRunData_dt (hmap h)
    · exact validateRunData_dt (hmap h)
    · cases h

variable {fields : List (JsString × Json)} {row : ChunkRow}

/-- A row is accepted when it is stored well and within both bounds. -/
theorem validateRow_eq_ok : validateRow fields tag = .ok row ↔
      ChunkRow.Stored fields tag row ∧
        isSafeInt (roundDouble (roundDouble (row.seq0 + row.fragments.length) - 1)) = true ∧
        timesStaySafe row.time0 row.dt = true := by
  constructor
  · intro h
    unfold validateRow at h
    split at h
    · cases h
    next hkeys =>
    split at h
    · cases h
    next seq0 hseq0 =>
    split at h
    · cases h
    next hnonneg =>
    split at h
    · cases h
    next time0 htime0 =>
    split at h
    · cases h
    next data hdata =>
    split at h
    · cases h
    next shape run hshape =>
    split at h
    · cases h
    next hguard =>
    split at h
    · cases h
    next htimes =>
    cases h
    exact ⟨⟨by simpa using hkeys, hseq0, hnonneg, htime0, data, hdata, hshape⟩,
      by simpa using hguard, by simpa using htimes⟩
  · rintro ⟨⟨hkeys, hseq0, hnonneg, htime0, data, hdata, hshape⟩, hguard, htimes⟩
    simp only [validateRow, hkeys, hseq0, hnonneg, htime0, hdata, hshape, ChunkRow.runData, hguard,
      htimes, Bool.not_true, Bool.false_eq_true, if_false]
/-! ## Expanding a row -/

theorem SafeTimes.tail {time gap : Int} {dt : List Int} (h : SafeTimes time (gap :: dt)) :
    isSafeInt (time + gap) = true ∧ SafeTimes (time + gap) dt := by
  constructor
  · simpa using h 1 (by simp)
  intro k hk
  have htime := h (k + 1) (by simpa using hk)
  simpa [Int.add_assoc] using htime

theorem expandFrom_length (row : ChunkRow) (k : Nat) (time : Int) (fragments : List JsString)
    (dt : List Int) : (expandFrom row k time fragments dt).length = fragments.length := by
  induction fragments generalizing k time dt with
  | nil => rfl
  | cons fragment fragments ih =>
    cases dt with
    | nil => simp only [expandFrom, length_cons, ih]
    | cons gap dt => simp only [expandFrom, length_cons, ih]

/-- From position `k` on, the members carry the exact sequence numbers and times, as long
as no sequence number passes the first unsafe integer. -/
theorem expandFrom_exact {k : Nat} {time : Int} {fragments : List JsString}
    {dt : List Int} (hseq0 : 0 ≤ row.seq0) (harity : fragments.length = dt.length + 1)
    (hlast : row.seq0 + k + fragments.length ≤ maxSafeInteger + 2) (htimes : SafeTimes time dt)
    {i : Nat} {event : Json} (hevent : (expandFrom row k time fragments dt)[i]? = some event) :
    event.member "seq" = some (.ofInt (row.seq0 + (k + i : Nat))) ∧
      event.member "time" = some (.ofInt (time + (dt.take i).sum)) := by
  induction dt generalizing fragments k time i with
  | nil =>
    obtain ⟨fragment, rfl⟩ := length_eq_one_iff.mp harity
    have hround : roundDouble (row.seq0 + k) = row.seq0 + k :=
      roundDouble_of_le (by omega) (by simp only [length_cons, length_nil] at hlast; omega)
    simp only [expandFrom, hround] at hevent
    cases i with
    | zero =>
      cases hevent
      rw [take_zero, sum_nil, Int.add_zero]
      exact ⟨rfl, rfl⟩
    | succ i => cases hevent
  | cons gap dt ih =>
    cases fragments with
    | nil => cases harity
    | cons fragment fragments =>
      have hround : roundDouble (row.seq0 + k) = row.seq0 + k :=
        roundDouble_of_le (by omega) (by simp only [length_cons] at hlast; omega)
      obtain ⟨hnext, hrest⟩ := htimes.tail
      simp only [expandFrom, hround, roundDouble_of_safe hnext] at hevent
      cases i with
      | zero =>
        cases hevent
        rw [take_zero, sum_nil, Int.add_zero]
        exact ⟨rfl, rfl⟩
      | succ i =>
        have hmember := ih (by simpa using harity)
          (by simp only [length_cons] at hlast; omega) hrest hevent
        have hk : k + 1 + i = k + (i + 1) := by omega
        simpa [hk, Int.add_assoc] using hmember

/-! ## The contract -/

theorem rowTagOf_obj {value : Json} (h : rowTagOf value = some tag) :
    ∃ fields, value = .obj fields := by
  cases value with
  | obj fields => exact ⟨fields, rfl⟩
  | _ => cases h

theorem decodeStorageRecord_tagged (h : rowTagOf (.obj fields) = some tag) :
    decodeStorageRecord (.obj fields) = (validateRow fields tag).map expandRow := by
  simp only [decodeStorageRecord, h]

/-- A stored row names its first sequence number, its first time and its gaps. -/
theorem ChunkRow.Stored.fields_eq (h : ChunkRow.Stored fields tag row) :
    Json.get? "seq0" fields = some (.ofInt row.seq0) ∧
      Json.get? "time0" fields = some (.ofInt row.time0) ∧ isSafeInt row.time0 = true ∧
      ((Json.get? "data" fields).bind Json.record).bind (Json.get? "dt") =
        some (.arr (row.dt.map .ofInt)) ∧
      row.fragments.length = row.dt.length + 1 := by
  obtain ⟨seq, hseq, hseq0⟩ := Option.bind_eq_some_iff.mp h.seq0
  obtain ⟨time, htime, htime0⟩ := Option.bind_eq_some_iff.mp h.time0
  obtain ⟨data, hdata, hshape⟩ := h.data
  obtain ⟨hdt, harity⟩ := validateShape_dt hshape
  obtain ⟨rfl, -⟩ := asSafeInteger_eq_some hseq0
  obtain ⟨rfl, hsafe⟩ := asSafeInteger_eq_some htime0
  rw [hdata]
  exact ⟨hseq, htime, hsafe, hdt, harity⟩

/-- An accepted row that does not end one past the last safe integer expands exactly. -/
theorem ChunkRow.Stored.expands
    (h : ChunkRow.Stored fields tag row) (htimes : SafeTimes row.time0 row.dt)
    (hlast : row.seq0 + row.fragments.length ≤ maxSafeInteger + 1) :
    ExpandsExactly (.obj fields) (expandRow row) := by
  obtain ⟨hseq0, htime0, _, hdt, harity⟩ := h.fields_eq
  have hnonneg : 0 ≤ row.seq0 := Int.not_lt.mp h.nonneg
  have hlength := expandFrom_length row 0 row.time0 row.fragments row.dt
  refine ⟨row.seq0, row.time0, row.dt, hseq0, htime0, hdt, hlength.trans harity, ?_⟩
  intro k event hevent
  have hk : k < row.fragments.length := by
    rw [← hlength]
    exact (List.getElem?_eq_some_iff.mp hevent).1
  have hmember := expandFrom_exact hnonneg harity (k := 0) (by simp; omega) htimes hevent
  simp only [Nat.zero_add] at hmember
  refine ⟨hmember.1, ?_, hmember.2, htimes k (by omega)⟩
  unfold isSafeInt
  simp only [decide_eq_true_eq]
  omega

/-- Of a row-tagged value, the decoder throws or returns exactly numbered and timed events,
unless an otherwise well-formed row ends one past the largest safe integer. -/
theorem decodeStorageRecord_exact_iff {value : Json} {tag : RowTag}
    (htag : rowTagOf value = some tag) :
    ((∃ why, decodeStorageRecord value = .error why) ∨
        ∃ events, decodeStorageRecord value = .ok events ∧ ExpandsExactly value events) ↔
      ¬OnePastLast value tag := by
  obtain ⟨fields, rfl⟩ := rowTagOf_obj htag
  rw [decodeStorageRecord_tagged htag]
  constructor
  · rintro hexact ⟨fields', row, hfields, hstored, htimes, hlast⟩
    cases hfields
    obtain ⟨hseq0, htime0, hsafe, hdt, harity⟩ := hstored.fields_eq
    have haccepted : validateRow fields tag = .ok row := by
      rw [validateRow_eq_ok, seqGuard_iff hstored.nonneg, timesStaySafe_iff hsafe]
      exact ⟨hstored, ⟨le_of_eq hlast, by omega⟩, htimes⟩
    rw [haccepted] at hexact
    rcases hexact with ⟨why, hwhy⟩ | ⟨events, hevents, seq0, time0, dt, hseq, _, _, hlength, hmembers⟩
    · cases hwhy
    cases hevents
    -- The last member is numbered one past the largest safe integer.
    have hseq' : row.seq0 = seq0 := by
      have heq := hseq0.symm.trans hseq
      injection heq with heq
      injection heq with heq
      injection heq
    subst hseq'
    have hcount := expandFrom_length row 0 row.time0 row.fragments row.dt
    have hk : row.dt.length < (expandRow row).length := by
      unfold expandRow
      omega
    have hmember := hmembers row.dt.length _ (getElem?_eq_getElem hk)
    have hunsafe := hmember.seqSafe
    unfold isSafeInt at hunsafe
    simp only [decide_eq_true_eq] at hunsafe
    omega
  · intro hbound
    cases hrow : validateRow fields tag with
    | error why => exact .inl ⟨why, rfl⟩
    | ok row =>
      right
      obtain ⟨hstored, hguard, htimes⟩ := validateRow_eq_ok.mp hrow
      have hsafe := hstored.fields_eq.2.2.1
      have hsafeTimes := (timesStaySafe_iff hsafe row.dt).mp htimes
      obtain ⟨hle, _⟩ := (seqGuard_iff hstored.nonneg row.fragments.length).mp hguard
      refine ⟨expandRow row, rfl, hstored.expands hsafeTimes ?_⟩
      by_contra hlarge
      exact hbound ⟨fields, row, rfl, hstored, hsafeTimes, by omega⟩

/-- Two fragments, the first numbered by the largest safe integer. -/
def overshootingRow : Json :=
  .obj [("type", .str "text-chunks"), ("seq0", .ofInt 9007199254740991), ("time0", .ofInt 0),
    ("data", .obj [("turn", .ofInt 1), ("step", .ofInt 1), ("index", .ofInt 0),
      ("dt", .arr [.ofInt 0]), ("texts", .arr [.str "a", .str "b"])])]

theorem overshootingRow_accepted :
    rowTagOf overshootingRow = some .textChunks ∧
      ¬((∃ why, decodeStorageRecord overshootingRow = .error why) ∨
        ∃ events, decodeStorageRecord overshootingRow = .ok events ∧
          ExpandsExactly overshootingRow events) := by
  refine ⟨rfl, ?_⟩
  rintro (⟨why, hwhy⟩ | ⟨events, hevents, seq0, time0, dt, hseq, _, _, _, hmembers⟩)
  · cases hwhy
  cases hevents
  cases hseq
  have hsafe := (hmembers 1 _ rfl).seqSafe
  cases hsafe

/-- Two fragments, the second four milliseconds earlier. -/
def shortRow : Json :=
  .obj [("type", .str "text-chunks"), ("seq0", .ofInt 3), ("time0", .ofInt 10),
    ("data", .obj [("turn", .ofInt 1), ("step", .ofInt 1), ("index", .ofInt 0),
      ("dt", .arr [.ofInt (-4)]), ("texts", .arr [.str "a", .str "b"])])]

theorem shortRow_exact :
    rowTagOf shortRow = some .textChunks ∧
      ((∃ why, decodeStorageRecord shortRow = .error why) ∨
        ∃ events, decodeStorageRecord shortRow = .ok events ∧ ExpandsExactly shortRow events) := by
  have htag : rowTagOf shortRow = some .textChunks := rfl
  refine ⟨htag, (decodeStorageRecord_exact_iff htag).mpr ?_⟩
  rintro ⟨fields, row, hfields, hstored, _, hlast⟩
  cases hfields
  obtain ⟨hseq0, _, _, hdt, harity⟩ := hstored.fields_eq
  have hseq : (3 : Int) = row.seq0 := by
    injection hseq0 with hseq0
    injection hseq0 with hseq0
    injection hseq0
  have hgaps : 1 = row.dt.length := by
    injection hdt with hdt
    injection hdt with hdt
    simpa using congrArg List.length hdt
  unfold maxSafeInteger at hlast
  omega

end Harness
