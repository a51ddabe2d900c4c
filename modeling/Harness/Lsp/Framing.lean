-- SUMMARY: Framing of the LSP base protocol, and what the split of a byte stream changes.
import Harness.Json.Lines
import Harness.Lib.Doubles
import Harness.Lib.Occurrences

/-!
# LSP framing

The encoder and the streaming decoder of `lsp-stdio/src/framing.ts`. The reader of a body is a
parameter. A run ends at the first push that throws, where the connection fails and terminates the
server.
-/

namespace Harness.Lsp

open List
open JsString (trim utf8 ofUtf8 isWhiteSpace trimStart trimEnd)

/-! ## Header values -/

/-- The text after the mark of a base, `0x`, `0o` or `0b`. -/
def radixOf : Text → Option (Nat × Text)
  | zero :: mark :: digits =>
    if zero ≠ unit '0' then none
    else if mark = unit 'x' || mark = unit 'X' then some (16, digits)
    else if mark = unit 'o' || mark = unit 'O' then some (8, digits)
    else if mark = unit 'b' || mark = unit 'B' then some (2, digits)
    else none
  | _ => none

def radixNumber (base : Nat) (digits : Text) : Option ℚ :=
  if digits = [] then none
  else
    (digits.mapM fun u => (hexValue u).filter (· < base)).map fun ds => Nat.ofDigits base ds.reverse

/-- An unsigned decimal: digits with at most one point among them, and an exponent. -/
def decimalNumber (text : Text) : Option ℚ :=
  let (whole, afterWhole) := takeDigits text
  let (fraction, rest) :=
    if afterWhole.head? = some (unit '.') then takeDigits afterWhole.tail else ([], afterWhole)
  if whole = [] ∧ fraction = [] then none
  else
    match readExponent rest with
    | some (e, []) => some (digitsNat (whole ++ fraction) * 10 ^ (e - fraction.length))
    | _ => none

/-- The double nearest to a nonnegative number, `none` for infinity. -/
def nearest (x : ℚ) : Option ℚ :=
  let y := if x ≤ 1 / 2 ^ 1075 then 0 else Doubles.round x
  if y < 2 ^ 1024 then some y else none

/-- `Number` of a trimmed ASCII text, where it is a nonnegative integer. -/
def numberOf (text : Text) : Option Nat :=
  let (negative, magnitude) := readSign text
  let exact : Option ℚ :=
    match radixOf text with
    | some (base, digits) => radixNumber base digits
    | none => if text = [] then some 0 else decimalNumber magnitude
  match exact.bind nearest with
  | some y => if y.den = 1 && (!negative || y = 0) then some y.num.toNat else none
  | none => none

/-! ## Headers -/

def HEADER_SEPARATOR : List UInt8 := [13, 10, 13, 10]

def MAX_HEADER_BYTES : Nat := 65536

inductive FrameError where
  | unterminated
  | headerTooLong
  | invalidContentLength (line : Text)
  | missingContentLength (headerText : Text)
  | tooLong (contentLength maxMessageBytes : Nat)
  | notJson
  deriving DecidableEq

def lowerUnit (u : UInt16) : UInt16 := if unit 'A' ≤ u ∧ u ≤ unit 'Z' then u + 0x20 else u

/-- The name before the colon of a line is `content-length`, in any case. -/
def namesContentLength (line : Text) : Bool :=
  line.contains (unit ':') &&
    (trim ⟨line.takeWhile (· ≠ unit ':')⟩).units.map lowerUnit =
      (JsString.ofString "content-length").units

def parseContentLength (headerText : Text) : Except FrameError Nat :=
  match (Occurrences.split [0x0D, 0x0A] headerText).find? namesContentLength with
  | none => .error (.missingContentLength headerText)
  | some line =>
    match numberOf (trim ⟨(line.dropWhile (· ≠ unit ':')).tail⟩).units with
    | none => .error (.invalidContentLength line)
    | some value => .ok value

/-- `buffer.toString('ascii')`. -/
def ascii (bytes : List UInt8) : Text := bytes.map fun b => (b &&& 0x7F).toUInt16

/-! ## The codec -/

def headerText (contentLength : Nat) : Text :=
  (JsString.ofString "Content-Length: ").units ++ natText contentLength

def bodyOf (message : Json) : List UInt8 := utf8 ⟨message.stringify⟩

def encodeMessage (message : Json) : List UInt8 :=
  (headerText (bodyOf message).length).map UInt16.toUInt8 ++ HEADER_SEPARATOR ++ bodyOf message

/-- `buffer.indexOf(HEADER_SEPARATOR)`. -/
def separatorAt (buffer : List UInt8) : Option Nat :=
  buffer.tails.findIdx? (HEADER_SEPARATOR.isPrefixOf ·)

variable {α : Type} (parse : Text → Option α) (maxMessageBytes : Nat)

/-- The next complete message and the bytes after it, or that more bytes are needed. -/
def next (buffer : List UInt8) : Except FrameError (Option (α × List UInt8)) :=
  match separatorAt buffer with
  | none => if MAX_HEADER_BYTES < buffer.length then .error .unterminated else .ok none
  | some separator =>
    if MAX_HEADER_BYTES < separator then .error .headerTooLong
    else
      match parseContentLength (ascii (buffer.take separator)) with
      | .error e => .error e
      | .ok contentLength =>
        let bodyStart := separator + HEADER_SEPARATOR.length
        if maxMessageBytes < contentLength then .error (.tooLong contentLength maxMessageBytes)
        else if buffer.length < bodyStart + contentLength then .ok none
        else
          match parse (ofUtf8 ((buffer.drop bodyStart).take contentLength)).units with
          | some message => .ok (some (message, buffer.drop (bodyStart + contentLength)))
          | none => .error .notJson

variable {parse} {max : Nat} {buffer rest : List UInt8} {message : α}

/-! ## The separator -/

section Separator

variable {i : Nat}

theorem separatorAt_eq_some :
    separatorAt buffer = some i ↔
      HEADER_SEPARATOR <+: buffer.drop i ∧ ∀ k < i, ¬ HEADER_SEPARATOR <+: buffer.drop k := by
  rw [separatorAt, List.findIdx?_eq_some_iff_getElem]
  simp only [getElem_tails, isPrefixOf_iff_prefix, length_tails]
  refine ⟨fun ⟨_, hat, hbefore⟩ => ⟨hat, hbefore⟩, fun ⟨hat, hbefore⟩ => ⟨?_, hat, hbefore⟩⟩
  have hle := hat.length_le
  simp only [HEADER_SEPARATOR, length_cons, length_nil, length_drop] at hle
  omega

theorem separatorAt_bound (h : separatorAt buffer = some i) : i + 4 ≤ buffer.length := by
  have hle := (separatorAt_eq_some.mp h).1.length_le
  simp only [HEADER_SEPARATOR, length_cons, length_nil, length_drop] at hle
  omega

/-- A separator that lies within the buffer is found there, whatever follows. -/
theorem separatorAt_append (h : i + 4 ≤ buffer.length) (more : List UInt8) :
    separatorAt (buffer ++ more) = some i ↔ separatorAt buffer = some i := by
  have hsame : ∀ k ≤ i, HEADER_SEPARATOR <+: (buffer ++ more).drop k ↔
      HEADER_SEPARATOR <+: buffer.drop k := by
    intro k hk
    rw [drop_append_of_le_length (by omega)]
    refine ⟨fun hpre => prefix_of_prefix_length_le hpre (prefix_append _ _) ?_,
      fun hpre => hpre.trans (prefix_append _ _)⟩
    simp only [HEADER_SEPARATOR, length_cons, length_nil, length_drop]
    omega
  simp only [separatorAt_eq_some, hsame i le_rfl]
  exact and_congr_right fun _ => forall₂_congr fun k hk => by rw [hsame k hk.le]

end Separator

/-! ## One frame -/

/-- Which frames are accepted. -/
theorem next_eq_some :
    next parse max buffer = .ok (some (message, rest)) ↔
      ∃ header body, buffer = header ++ (HEADER_SEPARATOR ++ (body ++ rest)) ∧
        (∀ k < header.length, ¬ HEADER_SEPARATOR <+: buffer.drop k) ∧
        header.length ≤ MAX_HEADER_BYTES ∧
        parseContentLength (ascii header) = .ok body.length ∧
        body.length ≤ max ∧ parse (ofUtf8 body).units = some message := by
  constructor
  · intro h
    simp only [next] at h
    split at h
    · split at h <;> cases h
    rename_i separator hsep
    split at h
    · cases h
    split at h
    · cases h
    rename_i contentLength hlength
    split_ifs at h
    · cases h
    split at h
    · next hparse =>
      cases h
      obtain ⟨⟨tail, htail⟩, hfirst⟩ := separatorAt_eq_some.mp hsep
      have hbound := separatorAt_bound hsep
      have hdrop : buffer.drop (separator + HEADER_SEPARATOR.length) = tail := by
        rw [← drop_drop, ← htail, drop_left]
      have hheaderLength : (buffer.take separator).length = separator :=
        length_take_of_le (by omega)
      have hbodyLength : (tail.take contentLength).length = contentLength := by
        rw [← hdrop, length_take, length_drop]
        omega
      rw [hdrop] at hparse
      refine ⟨buffer.take separator, tail.take contentLength, ?_, ?_, ?_, ?_, ?_, hparse⟩
      · rw [← drop_drop, hdrop, take_append_drop, htail, take_append_drop]
      · rwa [hheaderLength]
      · omega
      · rwa [hbodyLength]
      · omega
    · cases h
  · rintro ⟨header, body, rfl, hfirst, hheader, hlength, hmax, hparse⟩
    have hsep : separatorAt (header ++ (HEADER_SEPARATOR ++ (body ++ rest))) = some header.length :=
      separatorAt_eq_some.mpr ⟨by rw [drop_left]; exact prefix_append _ _, hfirst⟩
    have hdrop : (header ++ (HEADER_SEPARATOR ++ (body ++ rest))).drop
        (header.length + HEADER_SEPARATOR.length) = body ++ rest := by
      rw [← drop_drop, drop_left, drop_left]
    simp only [next, hsep, take_left, hlength, ← drop_drop, hdrop, hparse]
    rw [if_neg (by omega), if_neg (by omega), if_neg (by simp only [length_append]; omega),
      drop_left]

theorem next_shorter (h : next parse max buffer = .ok (some (message, rest))) :
    rest.length < buffer.length := by
  obtain ⟨header, body, rfl, -⟩ := next_eq_some.mp h
  simp only [length_append, HEADER_SEPARATOR, length_cons]
  omega

/-- A buffer that waits holds one incomplete frame within the limits. -/
theorem length_of_waiting (h : next parse max buffer = .ok none) :
    buffer.length ≤ MAX_HEADER_BYTES + HEADER_SEPARATOR.length + max := by
  simp only [next] at h
  split at h
  · split at h
    · cases h
    · omega
  split at h
  · cases h
  split at h
  · cases h
  split_ifs at h
  · omega
  · split at h <;> cases h

/-- What is decided about a frame stays decided when more bytes arrive. -/
theorem next_append {result : Except FrameError (Option (α × List UInt8))} (more : List UInt8)
    (h : next parse max buffer = result) (hready : result ≠ .ok none)
    (hended : result ≠ .error .unterminated) :
    next parse max (buffer ++ more) =
      result.map (Option.map fun (message, rest) => (message, rest ++ more)) := by
  subst h
  cases hsep : separatorAt buffer with
  | none =>
    simp only [next, hsep] at hready hended
    split at hready
    · next hlong => exact absurd (if_pos hlong) hended
    · exact absurd rfl hready
  | some separator =>
    have hbound := separatorAt_bound hsep
    have hsep' := (separatorAt_append hbound more).mpr hsep
    have htake : (buffer ++ more).take separator = buffer.take separator :=
      take_append_of_le_length (by omega)
    simp only [next, hsep, hsep', htake] at hready ⊢
    split
    · rfl
    rename_i hheader
    split
    · rfl
    rename_i contentLength hlength
    simp only [hlength, hheader, if_false] at hready
    split
    · rfl
    rename_i hmax
    have hbody : ¬ buffer.length < separator + HEADER_SEPARATOR.length + contentLength :=
      fun hlt => hready (by rw [if_neg hmax, if_pos hlt])
    have hlonger : (buffer ++ more).length = buffer.length + more.length := length_append
    rw [if_neg hbody, if_neg (by omega), drop_append_of_le_length (by omega),
      take_append_of_le_length (by rw [length_drop]; omega),
      drop_append_of_le_length (by omega)]
    split <;> rfl

/-! ## Buffers -/

variable (parse)

/-- The messages that are complete in a buffer, and what stops the reading. -/
def drain (buffer : List UInt8) : List α × Except FrameError (List UInt8) :=
  match h : next parse maxMessageBytes buffer with
  | .error e => ([], .error e)
  | .ok none => ([], .ok buffer)
  | .ok (some (message, rest)) =>
    have := next_shorter h
    ((drain rest).1.cons message, (drain rest).2)
termination_by buffer.length

/-- What a push throws loses what it has decoded. -/
def push (buffer chunk : List UInt8) : Except FrameError (List α × List UInt8) :=
  match drain parse maxMessageBytes (buffer ++ chunk) with
  | (_, .error e) => .error e
  | (messages, .ok rest) => .ok (messages, rest)

/-- The messages delivered until the first push that throws. -/
def run (buffer : List UInt8) : List (List UInt8) → List α × Except FrameError (List UInt8)
  | [] => ([], .ok buffer)
  | chunk :: chunks =>
    match push parse maxMessageBytes buffer chunk with
    | .error e => ([], .error e)
    | .ok (messages, rest) => (messages ++ (run rest chunks).1, (run rest chunks).2)

variable {parse}

theorem drain_error {e : FrameError} (h : next parse max buffer = .error e) :
    drain parse max buffer = ([], .error e) := by
  rw [drain]
  split <;> simp_all

theorem drain_waiting (h : next parse max buffer = .ok none) :
    drain parse max buffer = ([], .ok buffer) := by
  rw [drain]
  split <;> simp_all

theorem drain_message (h : next parse max buffer = .ok (some (message, rest))) :
    drain parse max buffer =
      (message :: (drain parse max rest).1, (drain parse max rest).2) := by
  rw [drain]
  split <;> simp_all

/-- What is read of a buffer is read first when more bytes arrive. -/
theorem drain_append (buffer more : List UInt8) :
    match (drain parse max buffer).2 with
    | .ok rest =>
      next parse max rest = .ok none ∧
        drain parse max (buffer ++ more) =
          ((drain parse max buffer).1 ++ (drain parse max (rest ++ more)).1,
            (drain parse max (rest ++ more)).2)
    | .error e =>
      (drain parse max buffer).1 <+: (drain parse max (buffer ++ more)).1 ∧
        (e ≠ .unterminated → (drain parse max (buffer ++ more)).2 = .error e) := by
  induction buffer using drain.induct parse max with
  | case1 buffer e h =>
    rw [drain_error h]
    refine ⟨List.nil_prefix, fun hended => ?_⟩
    rw [drain_error (next_append more h nofun fun heq => hended (Except.error.inj heq))]
  | case2 buffer h =>
    rw [drain_waiting h]
    exact ⟨h, rfl⟩
  | case3 buffer message rest h _ ih =>
    rw [drain_message h, drain_message (next_append more h nofun nofun)]
    cases hrest : (drain parse max rest).2 with
    | ok last =>
      simp only [hrest] at ih ⊢
      exact ⟨ih.1, by rw [ih.2, cons_append]⟩
    | error e =>
      simp only [hrest] at ih ⊢
      exact ⟨cons_prefix_cons.mpr ⟨rfl, ih.1⟩, ih.2⟩

theorem drain_append_of_ok {messages : List α} (h : drain parse max buffer = (messages, .ok rest))
    (more : List UInt8) :
    drain parse max (buffer ++ more) =
      (messages ++ (drain parse max (rest ++ more)).1, (drain parse max (rest ++ more)).2) := by
  have happend := @drain_append _ parse max buffer more
  rw [h] at happend
  exact happend.2

/-- Only the end of a header that does not fit with its separator can come too late. -/
theorem separatorAt_of_unterminated (h : next parse max buffer = .error .unterminated)
    {more : List UInt8} {separator : Nat} (hsep : separatorAt (buffer ++ more) = some separator) :
    MAX_HEADER_BYTES < separator + 4 := by
  by_contra hshort
  simp only [next] at h
  split at h
  · next hnone =>
    split at h
    · rw [separatorAt_append (by omega), hnone] at hsep
      cases hsep
    · cases h
  split at h
  · cases h
  split at h
  · next hparse =>
    cases h
    simp only [parseContentLength] at hparse
    split at hparse
    · cases hparse
    · split at hparse <;> cases hparse
  split_ifs at h
  · cases h
  · split at h <;> cases h

/-! ## Runs -/

section Runs

variable {messages : List α} {chunks : List (List UInt8)}

/-- A run that does not throw reads what the unsplit bytes give. -/
theorem drain_of_run (hwaits : next parse max buffer = .ok none)
    (h : run parse max buffer chunks = (messages, .ok rest)) :
    drain parse max (buffer ++ chunks.flatten) = (messages, .ok rest) ∧
      next parse max rest = .ok none := by
  induction chunks generalizing buffer messages with
  | nil =>
    cases h
    rw [flatten_nil, append_nil]
    exact ⟨drain_waiting hwaits, hwaits⟩
  | cons chunk chunks ih =>
    simp only [run, push] at h
    have happend := @drain_append _ parse max (buffer ++ chunk) chunks.flatten
    split at h
    · cases h
    next first last hpush =>
    split at hpush
    · cases hpush
    next hdrain =>
    cases hpush
    rw [hdrain] at happend
    obtain ⟨hmessages, hrest⟩ := Prod.mk.inj h
    obtain ⟨htail, hlast⟩ := ih happend.1 (Prod.ext rfl hrest)
    rw [flatten_cons, ← append_assoc, happend.2, htail, ← hmessages]
    exact ⟨rfl, hlast⟩

/-- A run that throws has delivered what was complete before the chunk that made it throw. -/
theorem drain_of_run_error (hwaits : next parse max buffer = .ok none) {e : FrameError}
    (h : run parse max buffer chunks = (messages, .error e)) :
    ∃ before chunk after, chunks = before ++ chunk :: after ∧
      (∃ rest, drain parse max (buffer ++ before.flatten) = (messages, .ok rest)) ∧
      (drain parse max (buffer ++ (before.flatten ++ chunk))).2 = .error e := by
  induction chunks generalizing buffer messages with
  | nil => cases h
  | cons chunk chunks ih =>
    simp only [run, push] at h
    split at h
    · next hpush =>
      split at hpush
      · next hdrain =>
        cases hpush
        cases h
        exact ⟨[], chunk, chunks, rfl, ⟨buffer, by simpa using drain_waiting hwaits⟩,
          by simp [hdrain]⟩
      · cases hpush
    next first last hpush =>
    split at hpush
    · cases hpush
    next hdrain =>
    cases hpush
    have happend := @drain_append _ parse max (buffer ++ chunk) []
    rw [hdrain] at happend
    obtain ⟨hmessages, herror⟩ := Prod.mk.inj h
    obtain ⟨before, chunk', after, rfl, ⟨rest, hbefore⟩, hthrows⟩ :=
      ih happend.1 (Prod.ext rfl herror)
    refine ⟨chunk :: before, chunk', after, rfl, ⟨rest, ?_⟩, ?_⟩
    · rw [flatten_cons, ← append_assoc, drain_append_of_ok hdrain, hbefore, ← hmessages]
    · rw [flatten_cons, append_assoc, ← append_assoc buffer,
        drain_append_of_ok hdrain, hthrows]

end Runs

/-! ## Encoded messages -/

theorem natText_digits {n : Nat} (h : n < 2 ^ 53) :
    ∃ d ds, natText n = digitUnits (d :: ds) ∧ (∀ x ∈ d :: ds, x < 10) ∧ digitsNat (d :: ds) = n ∧
      ds.length < 16 := by
  unfold natText
  split
  · next hzero => exact ⟨0, [], rfl, by simp, hzero.symm, by decide⟩
  next hne =>
  obtain ⟨d, ds, hds, -⟩ := (leading_decimals hne).head
  have hlength : (decimals n).length ≤ 16 := by
    rw [decimals, length_reverse, Nat.digits_length_le_iff (by decide)]
    exact h.trans (by decide)
  rw [hds] at hlength
  exact ⟨d, ds, by rw [hds], fun x hx => decimals_lt (hds ▸ hx),
    by rw [← hds, digitsNat_decimals], hlength⟩

theorem nearest_natCast {n : Nat} (h : n < 2 ^ 53) : nearest n = some (n : ℚ) := by
  have hrange : (n : ℚ) < 2 ^ 1024 := by
    exact_mod_cast h.trans (Nat.pow_lt_pow_right (by decide) (by decide))
  have hround : (if (n : ℚ) ≤ 1 / 2 ^ 1075 then 0 else Doubles.round n) = (n : ℚ) := by
    split
    · next hle =>
      have hlt : (n : ℚ) < 1 :=
        hle.trans_lt ((div_lt_one (by positivity)).mpr (one_lt_pow₀ one_lt_two (by decide)))
      have hzero : n = 0 := by exact_mod_cast Nat.lt_one_iff.mp (by exact_mod_cast hlt)
      rw [hzero, Nat.cast_zero]
    · exact Doubles.round_natCast h
  simp only [nearest, hround, if_pos hrange]

theorem numberOf_natText {n : Nat} (h : n < 2 ^ 53) : numberOf (natText n) = some n := by
  obtain ⟨d, ds, htext, hlt, hnat, -⟩ := natText_digits h
  have hdigit : ∀ d < 10, UInt16.ofNat (0x30 + d) ∉
      [unit '-', unit '+', unit 'x', unit 'X', unit 'o', unit 'O', unit 'b', unit 'B'] := by decide
  have hsign : readSign (digitUnits (d :: ds)) = (false, digitUnits (d :: ds)) := by
    have hd := hdigit d (hlt d mem_cons_self)
    simp only [mem_cons, not_or] at hd
    simp only [digitUnits, map_cons, readSign, hd, if_false]
  have hradix : radixOf (digitUnits (d :: ds)) = none := by
    cases ds with
    | nil => rfl
    | cons d' ds =>
      have hd := hdigit d' (hlt d' (mem_cons_of_mem _ mem_cons_self))
      simp only [mem_cons, not_or] at hd
      simp only [digitUnits, map_cons, radixOf, hd, decide_false, Bool.or_self, Bool.false_eq_true,
        if_false, ite_self]
  have hdecimal : decimalNumber (digitUnits (d :: ds)) = some (n : ℚ) := by
    have htake : takeDigits (digitUnits (d :: ds) ++ []) = (d :: ds, []) :=
      takeDigits_append hlt (by simp)
    rw [append_nil] at htake
    simp [decimalNumber, htake, readExponent, hnat]
  have hne : digitUnits (d :: ds) ≠ [] := cons_ne_nil _ _
  simp [numberOf, htext, hsign, hradix, hne, hdecimal, nearest_natCast h]

theorem headerText_units {n : Nat} (h : n < 2 ^ 53) :
    ∀ u ∈ headerText n, u ≠ 0x0D ∧ u.toUInt8 ≠ 13 ∧ (u.toUInt8 &&& 0x7F).toUInt16 = u := by
  have hname : ∀ u ∈ (JsString.ofString "Content-Length: ").units,
      u ≠ 0x0D ∧ u.toUInt8 ≠ 13 ∧ (u.toUInt8 &&& 0x7F).toUInt16 = u :=
    forall_iff_forall_mem.mp (by decide)
  have hdigit : ∀ d < 10, UInt16.ofNat (0x30 + d) ≠ 0x0D ∧ (UInt16.ofNat (0x30 + d)).toUInt8 ≠ 13 ∧
      ((UInt16.ofNat (0x30 + d)).toUInt8 &&& 0x7F).toUInt16 = UInt16.ofNat (0x30 + d) := by decide
  obtain ⟨d, ds, htext, hlt, -⟩ := natText_digits h
  intro u hu
  rcases mem_append.mp hu with hu | hu
  · exact hname u hu
  rw [htext] at hu
  obtain ⟨x, hx, rfl⟩ := mem_map.mp hu
  exact hdigit x (hlt x hx)

theorem trim_natText {n : Nat} (h : n < 2 ^ 53) :
    trim ⟨0x20 :: natText n⟩ = ⟨natText n⟩ := by
  obtain ⟨d, ds, htext, hlt, -⟩ := natText_digits h
  have hdigit : ∀ d < 10, isWhiteSpace (UInt16.ofNat (0x30 + d)) = false := by decide
  have htrimmed : trimStart ⟨0x20 :: natText n⟩ = ⟨natText n⟩ := by
    have hd : ¬ isWhiteSpace (UInt16.ofNat (0x30 + d)) = true := by
      rw [hdigit d (hlt d mem_cons_self)]
      decide
    rw [htext, trimStart, dropWhile_cons_of_pos rfl, digitUnits, map_cons,
      dropWhile_cons_of_neg hd]
  have hend : JsString.EndsInText (natText n) := by
    intro u hu
    rw [htext] at hu
    obtain ⟨x, hx, rfl⟩ := mem_map.mp (mem_of_mem_getLast? hu)
    exact hdigit x (hlt x hx)
  have hne : natText n ≠ [] := by simp [htext, digitUnits]
  have htrim : trimEnd ⟨natText n ++ []⟩ = ⟨natText n⟩ :=
    JsString.trimEnd_append hne hend (by simp)
  rw [append_nil] at htrim
  rw [trim, htrimmed, htrim]

theorem parseContentLength_headerText {n : Nat} (h : n < 2 ^ 53) :
    parseContentLength (headerText n) = .ok n := by
  have hsplit : Occurrences.split [0x0D, 0x0A] (headerText n) = [headerText n] := by
    refine (Occurrences.Leftmost.rest fun hin => ?_).split_eq (by decide)
    exact (headerText_units h _ (hin.subset mem_cons_self)).1 rfl
  have hnamed : namesContentLength (headerText n) = true := rfl
  have hvalue : ((headerText n).dropWhile (· ≠ unit ':')).tail = 0x20 :: natText n := rfl
  simp only [parseContentLength, hsplit, List.find?, hnamed, hvalue, trim_natText h,
    numberOf_natText h]

/-- A message that its decoder accepts, of a length that a double holds. -/
def Fits (max : Nat) (message : Json) : Prop :=
  message.Proper ∧ (bodyOf message).length ≤ max ∧ (bodyOf message).length < 2 ^ 53

variable {message : Json}

theorem separatorAt_encodeMessage (h : Fits max message) (more : List UInt8) :
    separatorAt (encodeMessage message ++ more) =
      some (headerText (bodyOf message).length).length := by
  refine separatorAt_eq_some.mpr ⟨?_, fun k hk hpre => ?_⟩
  · simp only [encodeMessage, append_assoc]
    rw [drop_left' (length_map _)]
    exact prefix_append _ _
  -- The separator begins with a carriage return, and the header has none.
  have hk' : k < ((headerText (bodyOf message).length).map UInt16.toUInt8).length := by
    rwa [length_map]
  simp only [encodeMessage, append_assoc] at hpre
  rw [drop_append_of_le_length hk'.le, drop_eq_getElem_cons hk', cons_append] at hpre
  have hhead := (cons_prefix_cons.mp hpre).1
  rw [getElem_map] at hhead
  exact (headerText_units h.2.2 _ (getElem_mem _)).2.1 hhead.symm

theorem length_headerText {n : Nat} (h : n < 2 ^ 53) : (headerText n).length ≤ 32 := by
  obtain ⟨d, ds, htext, -, -, hlength⟩ := natText_digits h
  have hname : (JsString.ofString "Content-Length: ").units.length = 16 := by decide
  simp only [headerText, htext, digitUnits, length_map, length_append, hname, length_cons]
  omega

theorem next_encodeMessage (h : Fits max message) (more : List UInt8) :
    next Json.parse max (encodeMessage message ++ more) = .ok (some (message, more)) := by
  obtain ⟨hproper, hmax, hsafe⟩ := h
  have hheader := length_headerText hsafe
  have hascii : ascii ((headerText (bodyOf message).length).map UInt16.toUInt8) =
      headerText (bodyOf message).length := by
    rw [ascii, map_map]
    exact (map_congr_left fun u hu => (headerText_units hsafe u hu).2.2).trans (map_id' _)
  refine next_eq_some.mpr ⟨(headerText (bodyOf message).length).map UInt16.toUInt8, bodyOf message,
    by simp only [encodeMessage, append_assoc], ?_, ?_, ?_, hmax, ?_⟩
  · rw [length_map]
    exact (separatorAt_eq_some.mp (separatorAt_encodeMessage ⟨hproper, hmax, hsafe⟩ more)).2
  · rw [length_map]
    exact hheader.trans (by decide)
  · rw [hascii, parseContentLength_headerText hsafe]
  · rw [bodyOf, OneLine.ofUtf8_utf8 (oneLine_stringify message)]
    exact Json.parse_stringify hproper

theorem drain_flatMap_encodeMessage {messages : List Json}
    (h : ∀ message ∈ messages, Fits max message) :
    drain Json.parse max (messages.flatMap encodeMessage) = (messages, .ok []) := by
  induction messages with
  | nil => exact drain_waiting rfl
  | cons message messages ih =>
    obtain ⟨hmessage, hmessages⟩ := forall_mem_cons.mp h
    rw [flatMap_cons, drain_message (next_encodeMessage hmessage _), ih hmessages]

/-- The beginning of encoded messages never makes the decoder throw. -/
theorem drain_beginning {messages : List Json} (h : ∀ message ∈ messages, Fits max message)
    (more : List UInt8) (hbuffer : buffer ++ more = messages.flatMap encodeMessage)
    (e : FrameError) :
    (drain Json.parse max buffer).2 ≠ .error e := by
  induction messages generalizing buffer with
  | nil =>
    obtain ⟨rfl, -⟩ := append_eq_nil_iff.mp hbuffer
    rw [drain_waiting rfl]
    nofun
  | cons message messages ih =>
    obtain ⟨hmessage, hmessages⟩ := forall_mem_cons.mp h
    have hwhole := next_encodeMessage hmessage (messages.flatMap encodeMessage)
    have hsep := separatorAt_encodeMessage hmessage (messages.flatMap encodeMessage)
    rw [← flatMap_cons, ← hbuffer] at hwhole hsep
    cases hnext : next Json.parse max buffer with
    | error e' =>
      by_cases hended : e' = .unterminated
      · subst hended
        have hlong := separatorAt_of_unterminated hnext hsep
        have hshort := length_headerText hmessage.2.2
        rw [MAX_HEADER_BYTES] at hlong
        omega
      · rw [next_append more hnext nofun fun heq => hended (Except.error.inj heq)] at hwhole
        cases hwhole
    | ok ready =>
      cases ready with
      | none =>
        rw [drain_waiting hnext]
        nofun
      | some read =>
        rw [next_append more hnext nofun nofun] at hwhole
        rw [drain_message hnext]
        exact ih hmessages (Prod.mk.inj (Option.some.inj (Except.ok.inj hwhole))).2

/-- A run over the encodings of messages delivers them, however they are cut. -/
theorem run_encoded {messages : List Json} (h : ∀ message ∈ messages, Fits max message)
    {chunks : List (List UInt8)} (hchunks : chunks.flatten = messages.flatMap encodeMessage) :
    run Json.parse max [] chunks = (messages, .ok []) := by
  have hwhole := drain_flatMap_encodeMessage h
  rcases hrun : run Json.parse max [] chunks with ⟨delivered, result⟩
  cases result with
  | error e =>
    obtain ⟨before, chunk, after, rfl, -, hthrows⟩ := drain_of_run_error rfl hrun
    refine absurd hthrows (drain_beginning h after.flatten ?_ e)
    rw [← hchunks]
    simp
  | ok rest =>
    have hread := (drain_of_run rfl hrun).1
    rw [nil_append, hchunks, hwhole] at hread
    exact hread.symm

/-! ## Splits -/

/-- What depends on the split is only what a throwing push loses, and whether a header that does not
fit with its separator is refused before its end arrives. -/
theorem decoder_splits {α : Type} (parse : Text → Option α) (max : Nat)
    (chunks : List (List UInt8)) :
    (∀ messages rest, run parse max [] chunks = (messages, .ok rest) →
      drain parse max chunks.flatten = (messages, .ok rest) ∧
        rest.length ≤ MAX_HEADER_BYTES + HEADER_SEPARATOR.length + max) ∧
    (∀ messages e, run parse max [] chunks = (messages, .error e) →
      ∃ before chunk after, chunks = before ++ chunk :: after ∧
        (∃ rest, drain parse max before.flatten = (messages, .ok rest)) ∧
        (drain parse max (before.flatten ++ chunk)).2 = .error e ∧
        messages <+: (drain parse max chunks.flatten).1 ∧
        (e ≠ .unterminated → (drain parse max chunks.flatten).2 = .error e)) ∧
    (∀ buffer more separator, next parse max buffer = .error .unterminated →
      separatorAt (buffer ++ more) = some separator → MAX_HEADER_BYTES < separator + 4) ∧
    (∀ buffer message rest, next parse max buffer = .ok (some (message, rest)) ↔
      ∃ header body, buffer = header ++ (HEADER_SEPARATOR ++ (body ++ rest)) ∧
        (∀ k < header.length, ¬ HEADER_SEPARATOR <+: buffer.drop k) ∧
        header.length ≤ MAX_HEADER_BYTES ∧
        parseContentLength (ascii header) = .ok body.length ∧
        body.length ≤ max ∧ parse (ofUtf8 body).units = some message) ∧
    (∀ messages, (∀ message ∈ messages, Fits max message) →
      chunks.flatten = messages.flatMap encodeMessage →
        run Json.parse max [] chunks = (messages, .ok [])) := by
  refine ⟨fun messages rest h => ?_, fun messages e h => ?_,
    fun _ _ _ h hsep => separatorAt_of_unterminated h hsep, fun _ _ _ => next_eq_some,
    fun _ h hchunks => run_encoded h hchunks⟩
  · obtain ⟨hread, hwaits⟩ := drain_of_run rfl h
    exact ⟨hread, length_of_waiting hwaits⟩
  obtain ⟨before, chunk, after, rfl, ⟨rest, hbefore⟩, hthrows⟩ := drain_of_run_error rfl h
  rw [nil_append] at hbefore hthrows
  have hwhole := @drain_append _ parse max (before.flatten ++ chunk) after.flatten
  rw [hthrows] at hwhole
  rw [flatten_append, flatten_cons, ← append_assoc]
  refine ⟨before, chunk, after, rfl, ⟨rest, hbefore⟩, hthrows, ?_, hwhole.2⟩
  rw [append_assoc, drain_append_of_ok hbefore]
  exact prefix_append _ _

/-- The same bytes deliver a message in two chunks and nothing in one, and a length need not be
spelled in decimal digits. -/
theorem split_loses_message :
    run Json.parse 4 [] [encodeMessage .null, HEADER_SEPARATOR] =
        ([.null], .error (.missingContentLength [])) ∧
      run Json.parse 4 [] [encodeMessage .null ++ HEADER_SEPARATOR] =
        ([], .error (.missingContentLength [])) ∧
      parseContentLength (JsString.ofString "Content-Length: 0x1").units = .ok 1 := by
  have hfits : Fits 4 .null := ⟨trivial, by decide, by decide⟩
  have hfirst := drain_message (next_encodeMessage hfits [])
  have hboth := drain_message (next_encodeMessage hfits HEADER_SEPARATOR)
  have hthrows : drain Json.parse 4 HEADER_SEPARATOR = ([], .error (.missingContentLength [])) :=
    drain_error rfl
  have hempty : drain Json.parse 4 [] = ([], .ok []) := drain_waiting rfl
  rw [hempty, append_nil] at hfirst
  rw [hthrows] at hboth
  have hhex : parseContentLength (JsString.ofString "Content-Length: 0x1").units = .ok 1 := by
    decide +kernel
  simp [run, push, hfirst, hboth, hthrows, hhex]

end Harness.Lsp
