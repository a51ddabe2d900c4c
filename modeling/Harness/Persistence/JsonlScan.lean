-- SUMMARY: The JSONL scanner reads lines as a torn log, in whatever chunks they arrive.
import Harness.Persistence.Jsonl

namespace Harness

open List
open TornLog (lines scan)
namespace SessionLogScanner

/-! ## Lines -/

/-- Consume complete lines that start at byte `start`. -/
def consumeLines (s : SessionLogScanner) (start : Nat) :
    List (List UInt8) → Except String SessionLogScanner
  | [] => .ok s
  | line :: rest => do
    let s ← s.consumeEventLine line (start + line.length + 1)
    s.consumeLines (start + line.length + 1) rest

/-- The scanner with other unread bytes. -/
def hold (s : SessionLogScanner) (fragments : List (List UInt8)) (fragmentBytes : Nat) :
    SessionLogScanner :=
  { s with fragments, fragmentBytes }

theorem consumeEventLine_hold (s : SessionLogScanner) (fragments : List (List UInt8)) (n : Nat)
    (line : List UInt8) (endByte : Nat) :
    (s.hold fragments n).consumeEventLine line endByte =
      (s.consumeEventLine line endByte).map (·.hold fragments n) := by
  obtain ⟨header, events, _, _, inputBytes, committedBytes, eventLine, issue⟩ := s
  unfold consumeEventLine hold
  cases decodeLine line with
  | error e => rfl
  | ok decoded =>
    cases issue with
    | some issue =>
      dsimp only
      cases someTurnEnd decoded with
      | error e => rfl
      | ok closes => cases closes <;> rfl
    | none =>
      dsimp only
      cases pushRow events decoded with
      | error e => rfl
      | ok outcome =>
        cases outcome with
        | accepted events => rfl
        | gap expected got =>
          cases someTurnEnd decoded with
          | error e => rfl
          | ok closes => cases closes <;> rfl

theorem consumeLines_hold (s : SessionLogScanner) (fragments : List (List UInt8)) (n start : Nat)
    (lines : List (List UInt8)) :
    (s.hold fragments n).consumeLines start lines =
      (s.consumeLines start lines).map (·.hold fragments n) := by
  induction lines generalizing s start with
  | nil => rfl
  | cons line rest ih =>
    unfold consumeLines
    rw [consumeEventLine_hold]
    cases s.consumeEventLine line (start + line.length + 1) with
    | error e => rfl
    | ok s' => exact ih s' _

theorem concatBuffers_eq {buffers : List (List UInt8)} {total : Nat} (h : total = buffers.flatten.length) :
    concatBuffers buffers total = buffers.flatten := by
  unfold concatBuffers
  dsimp only
  rw [h, take_length, Nat.sub_self, replicate_zero, append_nil]

/-- The bytes of an incomplete line that a scanner holds. -/
structure Pending (s : SessionLogScanner) (bytes : List UInt8) : Prop where
  held : s.fragments.flatten = bytes
  count : s.fragmentBytes = bytes.length
  clean : (0x0A : UInt8) ∉ bytes

/-- A chunk completes the lines it has newlines for and leaves the rest pending. -/
theorem writeFrom_eq {s : SessionLogScanner} {pending fragment : List UInt8} (hs : s.Pending pending)
    (hfragment : (0x0A : UInt8) ∉ fragment) (start : Nat) (chunk : List UInt8) :
    ∃ fragments, fragments.flatten = (lines 0x0A (pending ++ fragment ++ chunk)).2 ∧
      s.writeFrom fragment (start + pending.length + fragment.length) chunk =
        (s.consumeLines start (lines 0x0A (pending ++ fragment ++ chunk)).1).map
          (·.hold fragments fragments.flatten.length) := by
  induction chunk generalizing s pending fragment start with
  | nil =>
    have hclean : (0x0A : UInt8) ∉ pending ++ fragment := by
      rw [mem_append, not_or]
      exact ⟨hs.clean, hfragment⟩
    rw [append_nil, TornLog.lines_of_clean hclean]
    by_cases hempty : fragment = []
    · subst hempty
      refine ⟨s.fragments, by rw [hs.held, append_nil], ?_⟩
      unfold writeFrom
      rw [if_pos rfl, hs.held, ← hs.count]
      rfl
    · refine ⟨s.fragments ++ [fragment], by simp [hs.held], ?_⟩
      unfold writeFrom
      rw [if_neg hempty, hs.count]
      simp only [flatten_append, hs.held, length_append, flatten_cons,
        flatten_nil, append_nil]
      rfl
  | cons byte chunk ih =>
    unfold writeFrom
    by_cases hnewline : byte = 0x0A
    · subst hnewline
      have hline : (if s.fragments = [] then fragment
          else concatBuffers (if fragment = [] then s.fragments else s.fragments ++ [fragment])
            (s.fragmentBytes + fragment.length)) = pending ++ fragment := by
        split
        · next hnone =>
          have hpending := hs.held
          rw [hnone] at hpending
          rw [← hpending]
          rfl
        · have hall : (if fragment = [] then s.fragments else s.fragments ++ [fragment]).flatten =
              pending ++ fragment := by
            split
            · next hempty => rw [hs.held, hempty, append_nil]
            · rw [flatten_append, hs.held, flatten_singleton]
          rw [concatBuffers_eq (by rw [hall, hs.count, length_append]), hall]
      have hclean : (0x0A : UInt8) ∉ pending ++ fragment := by
        rw [mem_append, not_or]
        exact ⟨hs.clean, hfragment⟩
      rw [if_pos rfl, hline, TornLog.lines_line hclean]
      have hend : start + pending.length + fragment.length + 1 =
          start + (pending ++ fragment).length + 1 := by
        rw [length_append]
        omega
      rw [hend]
      have hheld : ({ s with fragments := [], fragmentBytes := 0 } : SessionLogScanner) = s.hold [] 0 :=
        rfl
      dsimp only
      rw [hheld, consumeEventLine_hold]
      unfold consumeLines
      cases s.consumeEventLine (pending ++ fragment) (start + (pending ++ fragment).length + 1) with
      | error e => exact ⟨[(lines 0x0A chunk).2], by simp, rfl⟩
      | ok s' =>
        have hnone : (s'.hold [] 0).Pending [] := ⟨rfl, rfl, by simp⟩
        have hempty : (0x0A : UInt8) ∉ ([] : List UInt8) := by simp
        obtain ⟨fragments, hfragments, heq⟩ := ih hnone hempty (start + (pending ++ fragment).length + 1)
        refine ⟨fragments, hfragments, ?_⟩
        simp only [length_nil, Nat.add_zero, nil_append] at heq
        change writeFrom (s'.hold [] 0) [] _ chunk = _
        rw [heq, consumeLines_hold]
        change _ = (s'.consumeLines _ _).map _
        cases s'.consumeLines (start + (pending ++ fragment).length + 1)
          (lines 0x0A chunk).1 <;> rfl
    · have hlonger : (0x0A : UInt8) ∉ fragment ++ [byte] := by
        rw [mem_append, mem_singleton, not_or]
        exact ⟨hfragment, fun h => hnewline h.symm⟩
      obtain ⟨fragments, hfragments, heq⟩ := ih hs hlonger start
      have hsame : pending ++ (fragment ++ [byte]) ++ chunk = pending ++ fragment ++ byte :: chunk := by
        simp
      rw [hsame] at hfragments heq
      rw [length_append, length_singleton, ← Nat.add_assoc] at heq
      rw [if_neg hnewline]
      exact ⟨fragments, hfragments, heq⟩

/-! ## A torn log of lines -/

/-- The row of a line closes a turn, or crashes whoever looks at it. -/
def commitsLine (line : List UInt8) : Bool :=
  match decodeLine line with
  | .error _ => false
  | .ok decoded =>
    match someTurnEnd decoded with
    | .ok closes => closes
    | .error _ => true

/-- A line continues a prefix when its row decodes to the next events. -/
def readLine (scan : SessionLogScan) (line : List UInt8) : Option SessionLogScan :=
  match decodeLine line with
  | .error _ => none
  | .ok decoded =>
    match pushRow scan.events decoded with
    | .ok (.accepted events) =>
      some { scan with events, committedBytes := scan.committedBytes + line.length + 1 }
    | _ => none

theorem commits_of_pushRow_error {events decoded : List Json} {e : String}
    (h : pushRow events decoded = .error e) : someTurnEnd decoded ≠ .ok false := by
  induction decoded generalizing events with
  | nil => cases h
  | cons event rest ih =>
    have hrest : ∀ event : Json, event ≠ .null → pushRow events (event :: rest) = .error e →
        someTurnEnd rest ≠ .ok false := by
      intro event hnull h
      unfold pushRow at h
      split at h
      · cases h
      · next hcons =>
        cases hcons
        exact absurd rfl hnull
      · next hcons =>
        cases hcons
        split at h
        · exact ih h
        · cases h
    unfold someTurnEnd
    split
    · next hcons => cases hcons
    · exact fun hok => by cases hok
    next hnull hcons =>
    cases hcons
    have hlater := hrest event (fun heq => hnull heq) h
    split
    · split
      · exact fun hok => by cases hok
      · exact hlater
    · exact hlater

/-- With an issue raised the scanner only waits for a row that commits it. -/
theorem consumeLines_issue {s : SessionLogScanner} {issue : String} (hissue : s.issue = some issue)
    (start : Nat) (lines : List (List UInt8)) :
    ((s.consumeLines start lines).map finish).toOption =
      if lines.any commitsLine then none else some s.finish := by
  induction lines generalizing s start with
  | nil => rfl
  | cons line rest ih =>
    unfold consumeLines
    rw [any_cons]
    have hnext : ∀ s' : SessionLogScanner, s'.issue = some issue → s'.finish = s.finish →
        commitsLine line = false →
        ((s'.consumeLines (start + line.length + 1) rest).map finish).toOption =
          if (commitsLine line || rest.any commitsLine) then none else some s.finish := by
      intro s' hissue' hfinish hcommits
      rw [ih hissue', hfinish, hcommits, Bool.false_or]
    cases hdecode : decodeLine line with
    | error e =>
      have hconsume : s.consumeEventLine line (start + line.length + 1) =
          .ok { s with eventLine := s.eventLine + 1, issue := some issue } := by
        simp only [consumeEventLine, hdecode, hissue, Option.getD_some]
      rw [hconsume]
      exact hnext _ rfl rfl (by simp only [commitsLine, hdecode])
    | ok decoded =>
      have hconsume : s.consumeEventLine line (start + line.length + 1) =
          (someTurnEnd decoded).bind fun closes =>
            if closes then .error issue else .ok { s with eventLine := s.eventLine + 1 } := by
        simp only [consumeEventLine, hdecode, hissue]
        rfl
      rw [hconsume]
      cases hcloses : someTurnEnd decoded with
      | error e =>
        have hcommits : commitsLine line = true := by simp only [commitsLine, hdecode, hcloses]
        rw [hcommits]
        rfl
      | ok closes =>
        cases closes with
        | true =>
          have hcommits : commitsLine line = true := by simp only [commitsLine, hdecode, hcloses]
          rw [hcommits]
          rfl
        | false => exact hnext _ hissue rfl (by simp only [commitsLine, hdecode, hcloses])

/-- Without one it reads the lines as a torn log. -/
theorem consumeLines_eq_scan {s : SessionLogScanner} (hissue : s.issue = none)
    (lines : List (List UInt8)) :
    ((s.consumeLines s.committedBytes lines).map finish).toOption =
      scan readLine commitsLine s.finish lines := by
  induction lines generalizing s with
  | nil => rfl
  | cons line rest ih =>
    unfold consumeLines scan
    cases hdecode : decodeLine line with
    | error e =>
      have hconsume : ∃ s', s.consumeEventLine line (s.committedBytes + line.length + 1) = .ok s' ∧
          (∃ issue, s'.issue = some issue) ∧ s'.finish = s.finish := by
        simp only [consumeEventLine, hdecode]
        exact ⟨_, rfl, ⟨_, rfl⟩, rfl⟩
      obtain ⟨s', hok, ⟨issue, hraised⟩, hfinish⟩ := hconsume
      have hread : readLine s.finish line = none := by simp only [readLine, hdecode]
      have hcommits : commitsLine line = false := by simp only [commitsLine, hdecode]
      rw [hok, hread, any_cons, hcommits, Bool.false_or, ← hfinish]
      exact consumeLines_issue hraised _ rest
    | ok decoded =>
      cases hpush : pushRow s.events decoded with
      | error e =>
        have hconsume : s.consumeEventLine line (s.committedBytes + line.length + 1) = .error e := by
          simp only [consumeEventLine, hdecode, hissue, hpush]
          rfl
        have hread : readLine s.finish line = none := by
          simp only [readLine, hdecode, finish, hpush]
        have hcommits : commitsLine line = true := by
          have hnot := commits_of_pushRow_error hpush
          simp only [commitsLine, hdecode]
          cases hcloses : someTurnEnd decoded with
          | error e => rfl
          | ok closes =>
            cases closes with
            | true => rfl
            | false => exact absurd hcloses hnot
        rw [hconsume, hread, any_cons, hcommits]
        rfl
      | ok outcome =>
        cases outcome with
        | accepted events =>
          have hconsume : s.consumeEventLine line (s.committedBytes + line.length + 1) =
              .ok { s with eventLine := s.eventLine + 1, events
                           committedBytes := s.committedBytes + line.length + 1 } := by
            simp only [consumeEventLine, hdecode, hissue, hpush]
            rfl
          have hread : readLine s.finish line = some (finish
              { s with eventLine := s.eventLine + 1, events
                       committedBytes := s.committedBytes + line.length + 1 }) := by
            simp only [readLine, hdecode, finish, hpush]
          rw [hconsume, hread]
          exact ih hissue
        | gap expected got =>
          have hread : readLine s.finish line = none := by
            simp only [readLine, hdecode, finish, hpush]
          have hconsume : ∃ issue, s.consumeEventLine line (s.committedBytes + line.length + 1) =
              (someTurnEnd decoded).bind fun closes =>
                if closes then .error issue
                else .ok { s with eventLine := s.eventLine + 1, issue := some issue } := by
            simp only [consumeEventLine, hdecode, hissue, hpush]
            exact ⟨_, rfl⟩
          obtain ⟨issue, hconsume⟩ := hconsume
          rw [hconsume, hread, any_cons]
          cases hcloses : someTurnEnd decoded with
          | error e =>
            have hcommits : commitsLine line = true := by simp only [commitsLine, hdecode, hcloses]
            rw [hcommits]
            rfl
          | ok closes =>
            cases closes with
            | true =>
              have hcommits : commitsLine line = true := by
                simp only [commitsLine, hdecode, hcloses]
              rw [hcommits]
              rfl
            | false =>
              have hcommits : commitsLine line = false := by
                simp only [commitsLine, hdecode, hcloses]
              rw [hcommits, Bool.false_or]
              exact consumeLines_issue (s := { s with eventLine := s.eventLine + 1
                                                      issue := some issue }) rfl _ rest

/-! ## Whole files -/

/-- A fresh scanner reads the complete lines of a chunk as a torn log. -/
theorem write_eq_scan {headerRecord : List UInt8} {s : SessionLogScanner}
    (hnew : new headerRecord = .ok s) (chunk : List UInt8) :
    ((s.write chunk).map finish).toOption =
      scan readLine commitsLine s.finish (lines 0x0A chunk).1 := by
  unfold new at hnew
  obtain ⟨header, hparse, hnew⟩ := Except.bind_eq_ok.mp hnew
  cases hnew
  unfold write
  dsimp only
  have hnone : Pending { header, events := [], fragments := [], fragmentBytes := 0
                         inputBytes := headerRecord.length + chunk.length
                         committedBytes := headerRecord.length, eventLine := 0, issue := none } [] :=
    ⟨rfl, rfl, by simp⟩
  have hempty : (0x0A : UInt8) ∉ ([] : List UInt8) := by simp
  obtain ⟨fragments, -, heq⟩ := writeFrom_eq hnone hempty headerRecord.length chunk
  simp only [length_nil, Nat.add_zero, nil_append] at heq
  rw [heq]
  have hscan := consumeLines_eq_scan
    (s := { header, events := [], fragments := [], fragmentBytes := 0
            inputBytes := headerRecord.length + chunk.length
            committedBytes := headerRecord.length, eventLine := 0, issue := none })
    rfl (lines 0x0A chunk).1
  refine Eq.trans ?_ hscan
  cases consumeLines _ _ (lines 0x0A chunk).1 <;> rfl

end SessionLogScanner

/-- The scan of a file: its header, then its complete lines as a torn log. -/
theorem scanLog_eq_scan {header : SessionHeader} {line : List UInt8} (hclean : (0x0A : UInt8) ∉ line)
    (hparse : parseHeaderRecord (line ++ [0x0A]) = .ok header) (body : List UInt8) :
    (scanLog (line ++ 0x0A :: body)).toOption =
      scan SessionLogScanner.readLine SessionLogScanner.commitsLine
        { header, events := [], committedBytes := line.length + 1 } (lines 0x0A body).1 := by
  have hfind : (line ++ 0x0A :: body).findIdx? (· = (0x0A : UInt8)) = some line.length := by
    rw [findIdx?_append]
    have hnone : line.findIdx? (fun b => decide (b = (0x0A : UInt8))) = none := by
      rw [findIdx?_eq_none_iff]
      intro b hb
      exact decide_eq_false fun heq => hclean (heq ▸ hb)
    rw [hnone, findIdx?_cons]
    simp
  have htake : (line ++ 0x0A :: body).take (line.length + 1) = line ++ [0x0A] := by
    rw [take_append]
    simp
  have hdrop : (line ++ 0x0A :: body).drop (line.length + 1) = body := by
    rw [drop_append]
    simp
  unfold scanLog
  rw [hfind]
  dsimp only
  rw [htake, hdrop]
  have hnew : SessionLogScanner.new (line ++ [0x0A]) = .ok
      { header, events := [], fragments := [], fragmentBytes := 0
        inputBytes := (line ++ [0x0A]).length, committedBytes := (line ++ [0x0A]).length
        eventLine := 0, issue := none } := by
    unfold SessionLogScanner.new
    rw [hparse]
    rfl
  have hwrite := SessionLogScanner.write_eq_scan hnew body
  simp only [SessionLogScanner.finish, length_append, length_singleton] at hwrite
  rw [hnew, ← hwrite]
  simp only [length_append, length_singleton, bind, Except.bind]
  cases SessionLogScanner.write _ body <;> rfl

end Harness
