-- SUMMARY: A document read part by part while other commands run: what of a store they leave as it is.
import Harness.Memory.LogContract
import Harness.Memory.WakeContract

/-!
# Reading a document

The requests for the parts of a document come one after the other. Notes, naps and other wakes run
between them.
-/

namespace Harness

open List

namespace MemoryStore

variable {s s' : MemoryStore} {sizes : MemorySizes} {T : Nat}

/-! ## Stores that only grew -/

/-- Later in time, when nothing was forgotten. -/
structure Grown (s s' : MemoryStore) : Prop where
  length : s.logLength ≤ s'.logLength
  log : ∀ i < s.logLength, s'.logGet i = s.logGet i
  levels : ∀ size, s.levelCount size ≤ s'.levelCount size
  tree : ∀ size k, 0 < size → k < s.levelCount size →
    s'.treeGet (.nth size k) = s.treeGet (.nth size k)

theorem Grown.refl (s : MemoryStore) : s.Grown s :=
  ⟨Nat.le_refl _, fun _ _ => rfl, fun _ => Nat.le_refl _, fun _ _ _ _ => rfl⟩

theorem Grown.trans {s'' : MemoryStore} (h : s.Grown s') (h' : s'.Grown s'') : s.Grown s'' where
  length := Nat.le_trans h.length h'.length
  log i hi := (h'.log i (Nat.lt_of_lt_of_le hi h.length)).trans (h.log i hi)
  levels size := Nat.le_trans (h.levels size) (h'.levels size)
  tree size k hsize hk :=
    (h'.tree size k hsize (Nat.lt_of_lt_of_le hk (h.levels size))).trans (h.tree size k hsize hk)

theorem logGet_congr {i : Nat}
    (h : (s'.log.drop (i * LOG_REC)).take LOG_REC = (s.log.drop (i * LOG_REC)).take LOG_REC) :
    s'.logGet i = s.logGet i := by
  rw [logGet, logGet, logSlice, logSlice, Nat.add_sub_cancel_left, Nat.one_mul, h]

theorem treeGet_congr {size k : Nat} (hsize : 0 < size)
    (h : ((s'.level size).drop (k * TREE_REC)).take TREE_REC =
      ((s.level size).drop (k * TREE_REC)).take TREE_REC) :
    s'.treeGet (.nth size k) = s.treeGet (.nth size k) := by
  have hlo : (Block.nth size k).lo / (Block.nth size k).size = k := by
    rw [Block.size_nth]
    exact Nat.mul_div_cancel _ hsize
  unfold treeGet
  dsimp only
  rw [hlo, Block.size_nth, h]

theorem prefix_appendRecords (base : Nat) (log : List UInt8) (items : List (String × JsString)) :
    log <+: (appendRecords base log items).2 := by
  induction items generalizing base log with
  | nil => exact prefix_rfl
  | cons item items ih =>
    obtain ⟨date, text⟩ := item
    unfold appendRecords
    cases pad ⟨(JsString.ofString s!"#{base} {date} ").units ++ text.units⟩ LOG_REC with
    | error e => exact prefix_rfl
    | ok record => exact (prefix_append log record).trans (ih (base + 1) (log ++ record))

theorem grown_append (items : List (String × JsString)) : s.Grown (s.append items).2 where
  length := s.logLength_le_append items
  log _ hi := logGet_congr (Records.record_of_repair_prefix (prefix_appendRecords _ _ items) hi)
  levels _ := Nat.le_refl _
  tree _ _ _ _ := rfl

theorem treePut_level (b : Block) (text : JsString) :
    ∃ file, (s.treePut b text).2 = s.setLevel b.size file ∧
      Records.repair TREE_REC (s.level b.size) <+: file := by
  unfold treePut
  dsimp only
  split
  · exact ⟨_, rfl, prefix_rfl⟩
  split
  · exact ⟨_, rfl, prefix_rfl⟩
  · exact ⟨_, rfl, prefix_append _ _⟩

theorem grown_treePut (b : Block) (text : JsString) : s.Grown (s.treePut b text).2 := by
  obtain ⟨file, hput, hprefix⟩ := s.treePut_level b text
  obtain ⟨hlog, -, hcount⟩ := s.treePut_spec b text
  refine ⟨Nat.le_of_eq hlog.symm, fun i hi => ?_, fun size => ?_, fun size k hsize hk => ?_⟩
  · rw [hput]
    rfl
  · rw [hcount]
    split <;> omega
  · refine treeGet_congr hsize ?_
    rw [hput, level_setLevel]
    split
    · rename_i heq
      subst heq
      exact Records.record_of_repair_prefix hprefix hk
    · rfl

/-! ## The document -/

/-- The line that a document shows for a block. -/
def IsLine (s : MemoryStore) (b : Block) (line : JsString) : Prop :=
  if b.size = 1 then ∃ e, s.logGet b.lo = .ok e ∧ line = lineOf e
  else ∃ summary, s.treeGet b = .ok (some summary) ∧ line = summaryLine b summary

theorem wakeLine_iff {b : Block} {line : JsString} :
    s.wakeLine T b = .ok (.inr line) ↔ s.IsLine b line := by
  unfold wakeLine IsLine
  split
  · cases s.logGet b.lo <;> simp [Except.map, eq_comm]
  cases s.treeGet b with
  | error e => simp
  | ok found =>
    cases found with
    | some summary => simp [eq_comm]
    | none =>
      cases s.nextNap T with
      | error e => simp
      | ok nap => cases nap <;> simp

theorem wakeLines_iff {blocks : List Block} {lines : List JsString} :
    s.wakeLines T blocks = .ok (.inr lines) ↔ List.Forall₂ s.IsLine blocks lines := by
  induction blocks generalizing lines with
  | nil => simp [wakeLines, eq_comm]
  | cons b blocks ih =>
    rw [forall₂_cons_left_iff]
    constructor
    · intro h
      unfold wakeLines at h
      split at h
      · cases h
      · cases h
      rename_i line hline
      split at h
      · rename_i rest hrest
        cases h
        exact ⟨line, rest, wakeLine_iff.mp hline, ih.mp hrest, rfl⟩
      · rename_i hother
        exact absurd h (hother _)
    · rintro ⟨line, rest, hline, hrest, rfl⟩
      rw [wakeLines, wakeLine_iff.mpr hline]
      dsimp only
      rw [ih.mpr hrest]

/-- The lines of a document stay what they are. -/
theorem Grown.isLine (h : s.Grown s') (hT : T ≤ s.logLength) {b : Block} (hb : b.Aligned)
    (hinside : b.hi ≤ T) {line : JsString} (hline : s.IsLine b line) : s'.IsLine b line := by
  obtain ⟨j, k, rfl⟩ := hb
  have hpow : 0 < 2 ^ j := Nat.two_pow_pos j
  unfold IsLine at hline ⊢
  split
  · rename_i hone
    rw [if_pos hone] at hline
    have hlo : (Block.nth (2 ^ j) k).lo < s.logLength := by
      rw [Block.size] at hone
      omega
    rwa [h.log _ hlo]
  · rename_i hlarge
    rw [if_neg hlarge] at hline
    obtain ⟨summary, hget, heq⟩ := hline
    have hk : k < s.levelCount (2 ^ j) := by
      refine Nat.lt_of_not_le fun hdue => ?_
      rw [treeGet_unsettled hpow hdue] at hget
      cases hget
    exact ⟨summary, (h.tree _ k hpow hk).trans hget, heq⟩

theorem Grown.wakeLines (h : s.Grown s') (hT : T ≤ s.logLength) {budget : Nat}
    {lines : List JsString} (hlines : s.wakeLines T (cover T budget) = .ok (.inr lines)) :
    s'.wakeLines T (cover T budget) = .ok (.inr lines) := by
  rw [wakeLines_iff] at hlines ⊢
  have hinside : ∀ b ∈ cover T budget, b.Aligned ∧ b.hi ≤ T := fun b hb => mem_cover hb
  exact ((forall₂_and_left _ _).mpr ⟨hinside, hlines⟩).imp
    fun b line hboth => h.isLine hT hboth.1.1 hboth.1.2 hboth.2

/-! ## The parts -/

/-- The request for the next compression can be written: its block is compressed from memories, or
the summaries of both of its halves can be read. -/
def Promptable (s : MemoryStore) (T : Nat) : Prop :=
  ∀ next ∈ s.pending T 1, RAW_MAX < next.size →
    (∃ summary, s.treeGet next.left = .ok (some summary)) ∧
      ∃ summary, s.treeGet next.right = .ok (some summary)

theorem halfLine_ok {half : Block} :
    (∃ line, s.halfLine half = .ok line) ↔ ∃ summary, s.treeGet half = .ok (some summary) := by
  unfold halfLine
  cases s.treeGet half with
  | error e => simp
  | ok found => cases found <;> simp

theorem nextNap_ok : (∃ nap, s.nextNap T = .ok nap) ↔ s.Promptable T := by
  have hprompt : ∀ b left, (∃ nap, s.napPrompt b left = .ok nap) ↔ ∃ body, s.napBody b = .ok body := by
    intro b left
    unfold napPrompt
    cases s.napBody b <;> simp [Except.map]
  have hbody : ∀ b, (∃ body, s.napBody b = .ok body) ↔ (RAW_MAX < b.size →
      (∃ summary, s.treeGet b.left = .ok (some summary)) ∧
        ∃ summary, s.treeGet b.right = .ok (some summary)) := by
    intro b
    rw [← halfLine_ok, ← halfLine_ok, napBody]
    split
    · rename_i hsmall
      exact iff_of_true ⟨_, rfl⟩ fun hlarge => absurd hlarge (Nat.not_lt.mpr hsmall)
    rename_i hlarge
    have hlarge := Nat.lt_of_not_le hlarge
    cases s.halfLine b.left <;> cases s.halfLine b.right <;> simp [hlarge]
  unfold nextNap Promptable
  rw [pending_limit s T 1 (by decide)]
  cases s.pending T 0 with
  | nil => simp
  | cons next rest =>
    rw [take_succ_cons, take_zero]
    simp only [mem_singleton, forall_eq]
    rw [← hbody, ← hprompt next (s.pendingCount T - 1)]
    cases s.napPrompt next (s.pendingCount T - 1) <;> simp [Except.map]

/-- The reply to the request for one part of a document. -/
theorem wakePart_part {lines : List JsString} (hT : T ≠ 0)
    (hlines : s.wakeLines T (cover T sizes.wakeLines) = .ok (.inr lines)) {i : Nat}
    (hi : i < (paginate sizes lines).length) :
    s.wakePart sizes (i + 1) T =
      if i + 1 < (paginate sizes lines).length then
        .ok (.part (i + 1) (paginate sizes lines).length T (paginate sizes lines)[i] none)
      else (s.nextNap T).map fun nap =>
        .part (i + 1) (paginate sizes lines).length T (paginate sizes lines)[i] nap := by
  have hrange : ¬ (i + 1 < 1 ∨ (paginate sizes lines).length < i + 1) := by omega
  have hat : (paginate sizes lines).getD (i + 1 - 1) [] = (paginate sizes lines)[i] := by
    rw [Nat.add_sub_cancel, getD_eq_getElem?_getD, getElem?_eq_getElem hi, Option.getD_some]
  unfold wakePart
  rw [if_neg hT, hlines]
  dsimp only
  rw [if_neg hrange, hat]

/-- The arguments of `wake <k> <T>`, as a footer names them. -/
def wakeArgs (k T : Nat) : List JsString := [JsString.ofString (toString k), JsString.ofString (toString T)]

theorem digits_id (id : Nat) : isDigits (JsString.ofString (toString id)) = true ∧
    digitsValue (JsString.ofString (toString id)).units = id := by
  have hid := idNumber_id id
  unfold idNumber at hid
  split at hid
  · rename_i hall
    refine ⟨?_, Option.some.inj hid⟩
    have hne : (JsString.ofString (toString id)).units ≠ [] := fun hnil => by
      rw [units_ofString_ascii fun c hc => ((isGraphic_iff.mp (isGraphic_id id)) c hc).2,
        map_eq_nil_iff, Nat.toString_eq_repr, Nat.toList_repr] at hnil
      exact Nat.toDigits_ne_nil hnil
    rw [isDigits, hall, Bool.and_true]
    exact decide_eq_true hne
  · cases hid

theorem cmdWake_args (k : Nat) (hT : T ≤ s.logLength) :
    s.cmdWake sizes (wakeArgs k T) = s.wakePart sizes k T := by
  obtain ⟨hk, hkval⟩ := digits_id k
  obtain ⟨hT', hTval⟩ := digits_id T
  unfold cmdWake wakeArgs
  simp only [all_cons, all_nil, hk, hT', hkval, hTval, Bool.and_self, Bool.not_true,
    Bool.false_eq_true, if_false]
  rw [if_neg (Nat.not_lt.mpr hT)]

end MemoryStore

/-! ## Requests -/

namespace MemoryWorld

/-- What runs between two requests: a step of a note or a nap, or a wake. -/
inductive Between where
  | note (date : String) (text : JsString)
  | nap (act : {act : Act // act.isNap = true})
  | wake (args : List JsString)

/-- A wake reads only. -/
def between (w : MemoryWorld) : Between → Option MemoryWorld
  | .note date text => w.step (.note date text)
  | .nap act => w.step act
  | .wake _ => some w

/-- The replies to the requests for the parts from `k` on, and the state of the last request. -/
def readParts (sizes : MemorySizes) (T : Nat) :
    MemoryWorld → Nat → List (List Between) → Option (List (Except String WakeReply) × MemoryWorld)
  | w, k, [] => some ([w.store.cmdWake sizes (MemoryStore.wakeArgs k T)], w)
  | w, k, acts :: gaps => (Transitions.run between w acts).bind fun w' =>
    (readParts sizes T w' (k + 1) gaps).map fun (replies, last) =>
      (w.store.cmdWake sizes (MemoryStore.wakeArgs k T) :: replies, last)

/-- The requests were answered by the parts of a document, in order. -/
def Answered (T : Nat) (parts : List (List JsString)) (replies : List (Except String WakeReply)) : Prop :=
  replies.length = parts.length ∧ ∀ i part, parts[i]? = some part →
    ∃ nap, replies[i]? = some (Except.ok (WakeReply.part (i + 1) parts.length T part nap))

variable {w w' : MemoryWorld}

theorem grown_between {act : Between} (h : w.between act = some w') : w.store.Grown w'.store := by
  cases act with
  | wake args =>
    cases h
    exact .refl _
  | note date text =>
    have hstep : w.step (.note date text) = some w' := h
    rw [step_note] at hstep
    obtain rfl := Option.some.inj hstep
    dsimp only
    unfold cmdNote
    cases w.store.checkEntry text with
    | error e => exact .refl _
    | ok text =>
      have hgrown := w.store.grown_append [(date, text)]
      dsimp only
      cases happend : w.store.append [(date, text)] with
      | mk result s' =>
        rw [happend] at hgrown
        cases result <;> exact hgrown
  | nap act =>
    obtain ⟨act, hact⟩ := act
    have hstep : w.step act = some w' := h
    cases act with
    | note | forget => cases hact
    | nap id text =>
      cases hstep
      exact .refl _
    | read index =>
      simp only [MemoryWorld.step, Option.bind_eq_some_iff, Option.map_eq_some_iff] at hstep
      obtain ⟨call, -, outcome, -, rfl⟩ := hstep
      cases outcome <;> exact .refl _
    | commit index =>
      simp only [MemoryWorld.step, Option.bind_eq_some_iff, Option.map_eq_some_iff] at hstep
      obtain ⟨call, -, ⟨reply, store⟩, hcommit, rfl⟩ := hstep
      cases hphase : call.phase with
      | start | pending | compare =>
        rw [hphase] at hcommit
        cases hcommit
      | put b text =>
        rw [(commit_spec hphase hcommit).1]
        exact w.store.grown_treePut b text

theorem grown_run {acts : List Between} (h : Transitions.run between w acts = some w') :
    w.store.Grown w'.store :=
  Transitions.run_invariant' (I := fun w' => w.store.Grown w'.store)
    (fun _ _ _ hgrown hstep => hgrown.trans (grown_between hstep)) (.refl _) h

end MemoryWorld

/-! ## A whole reading -/

namespace MemoryWorld

section Reading

variable {sizes : MemorySizes} {T : Nat} {lines : List JsString}

/-- The replies to the requests from a part on: parts, and the last one when its request for a
compression can be written. -/
theorem readParts_spec (hT : T ≠ 0) {gaps : List (List Between)} {w last : MemoryWorld} {i : Nat}
    {replies : List (Except String WakeReply)} (hlog : T ≤ w.store.logLength)
    (hlines : w.store.wakeLines T (cover T sizes.wakeLines) = .ok (.inr lines))
    (hgaps : i + gaps.length + 1 = (MemoryStore.paginate sizes lines).length)
    (hread : readParts sizes T w (i + 1) gaps = some (replies, last)) :
    replies.length = gaps.length + 1 ∧
      ∀ j, ∀ hj : i + j < (MemoryStore.paginate sizes lines).length,
        replies[j]? = some (if j < gaps.length then
            .ok (.part (i + j + 1) (MemoryStore.paginate sizes lines).length T
              (MemoryStore.paginate sizes lines)[i + j] none)
          else (last.store.nextNap T).map fun nap =>
            .part (i + j + 1) (MemoryStore.paginate sizes lines).length T
              (MemoryStore.paginate sizes lines)[i + j] nap) := by
  have hreply := fun hi => w.store.wakePart_part hT hlines (i := i) hi
  rw [← MemoryStore.cmdWake_args _ hlog] at hreply
  induction gaps generalizing w i replies with
  | nil =>
    cases hread
    rw [length_nil, Nat.add_zero] at hgaps
    refine ⟨rfl, fun j hj => ?_⟩
    obtain rfl : j = 0 := by omega
    rw [getElem?_cons_zero, hreply (by omega), if_neg (by omega), if_neg (by simp)]
    rfl
  | cons acts gaps ih =>
    rw [length_cons] at hgaps
    simp only [readParts, Option.bind_eq_some_iff, Option.map_eq_some_iff] at hread
    obtain ⟨w', hrun, ⟨rest, last'⟩, hrest, heq⟩ := hread
    obtain ⟨rfl, rfl⟩ := Prod.mk.inj heq
    have hgrown := grown_run hrun
    have hlog' := Nat.le_trans hlog hgrown.length
    have hlines' := hgrown.wakeLines hlog hlines
    obtain ⟨hlength, hparts⟩ := ih (i := i + 1) hlog' hlines' (by omega) hrest fun hi => by
      rw [MemoryStore.cmdWake_args _ hlog']
      exact w'.store.wakePart_part hT hlines' hi
    refine ⟨by rw [length_cons, hlength, length_cons], fun j hj => ?_⟩
    cases j with
    | zero =>
      rw [getElem?_cons_zero, hreply (by omega), if_pos (by omega),
        if_pos (by rw [length_cons]; omega)]
      rfl
    | succ j =>
      have hat : i + 1 + j = i + (j + 1) := by omega
      have hpart := hparts j (by omega)
      simp only [hat] at hpart
      rw [getElem?_cons_succ, hpart]
      simp only [length_cons, Nat.add_lt_add_iff_right]

end Reading

def pageOfLine : MemorySizes := ⟨96, 20000, 1, by decide, defaultPartChars_pos, Nat.one_pos⟩

def oneMemory : MemoryStore := ((MemoryStore.create 280).append [("2026-01-01", ⟨[0x61]⟩)]).2

end MemoryWorld

/-! ## A lost part -/

namespace MemoryStore

theorem exists_lines {s : MemoryStore} {blocks : List Block}
    (h : ∀ b ∈ blocks, ∃ line, s.IsLine b line) : ∃ lines, List.Forall₂ s.IsLine blocks lines := by
  induction blocks with
  | nil => exact ⟨[], .nil⟩
  | cons b blocks ih =>
    obtain ⟨line, hline⟩ := h b mem_cons_self
    obtain ⟨lines, hlines⟩ := ih fun b hb => h b (mem_cons_of_mem _ hb)
    exact ⟨line :: lines, .cons hline hlines⟩

end MemoryStore

namespace MemoryWorld

def letterRecord : List UInt8 := [0x61] ++ List.replicate 286 0x20 ++ [0x0A]

/-- Thirty-two memories, all of their blocks of up to eight compressed and one of the two of sixteen. -/
def nearlySettled : MemoryStore where
  entryChars := 280
  log := noted.store.log
  tree := [(2, (List.replicate 16 letterRecord).flatten), (4, (List.replicate 8 letterRecord).flatten),
    (8, (List.replicate 4 letterRecord).flatten), (16, letterRecord)]

/-- The last nap of size sixteen, of a lone surrogate. -/
def surrogateNap : List Between :=
  .nap ⟨.nap "16-31" ⟨[0xD800]⟩, rfl⟩ :: List.replicate 5 (.nap ⟨.read 0, rfl⟩) ++
    [.nap ⟨.commit 0, rfl⟩]

theorem readParts_idle {sizes : MemorySizes} {T : Nat} (n k : Nat) (w : MemoryWorld) :
    ∃ replies, readParts sizes T w k (List.replicate n []) = some (replies, w) := by
  induction n generalizing k with
  | zero => exact ⟨_, rfl⟩
  | succ n ih =>
    obtain ⟨replies, hread⟩ := ih (k + 1)
    refine ⟨w.store.cmdWake sizes (MemoryStore.wakeArgs k T) :: replies, ?_⟩
    simp [replicate_succ, readParts, hread]

end MemoryWorld

namespace MemoryWorld

end MemoryWorld

end Harness
