-- SUMMARY: A blocked wake asks for a block that can be built, and is free once all that is due was settled.
import Harness.Memory.CoverContract
import Harness.Memory.Wake

namespace Harness

open List

namespace MemoryStore

variable {s : MemoryStore} {sizes : MemorySizes} {T : Nat}

/-! ## Reading -/

/-- The records of every level file hold summaries. -/
def Dense (s : MemoryStore) : Prop :=
  ∀ size k, k < s.levelCount size → ∃ summary, s.treeGet (.nth size k) = .ok (some summary)

theorem treeGet_unsettled {size k : Nat} (hsize : 0 < size) (hk : s.levelCount size ≤ k) :
    s.treeGet (.nth size k) = .ok none := by
  have hshort : (((s.level size).drop (k * TREE_REC)).take TREE_REC).length ≠ TREE_REC := by
    have hlength : (s.level size).length < (k + 1) * TREE_REC :=
      Nat.lt_mul_of_div_lt (Nat.lt_succ_of_le hk) (by decide)
    have hrec : 0 < TREE_REC := by decide
    rw [Nat.succ_mul] at hlength
    rw [length_take, length_drop]
    omega
  have hlo : (Block.nth size k).lo / (Block.nth size k).size = k := by
    rw [Block.size_nth]
    exact Nat.mul_div_cancel _ hsize
  unfold treeGet
  dsimp only
  rw [hlo, Block.size_nth, if_neg hshort]
  rfl

theorem logGet_ok {i : Nat} (hi : i < s.logLength) : ∃ e, s.logGet i = .ok e := by
  have hlength : LOG_REC ≤ (s.log.drop (i * LOG_REC)).length := by
    have hlog : (i + 1) * LOG_REC ≤ s.log.length :=
      (Nat.le_div_iff_mul_le (by decide)).mp hi
    rw [length_drop]
    rw [Nat.succ_mul] at hlog
    omega
  have hone : Records.count LOG_REC ((s.log.drop (i * LOG_REC)).take ((i + 1 - i) * LOG_REC)) = 1 := by
    rw [Records.count, length_take, Nat.add_sub_cancel_left, Nat.one_mul, Nat.min_eq_left hlength]
    decide
  rw [logGet, logSlice, decodeLogRecords, Records.records, hone]
  exact ⟨_, rfl⟩

/-! ## Blocked wakes -/

variable {nap : JsString}

theorem nextNap_some (h : s.nextNap T = .ok (some nap)) :
    ∃ next, (s.pending T 0).head? = some next ∧ s.napPrompt next (s.pendingCount T - 1) = .ok nap := by
  rw [nextNap, pending_limit s T 1 (by decide)] at h
  cases htodo : s.pending T 0 with
  | nil =>
    rw [htodo] at h
    cases h
  | cons next rest =>
    rw [htodo, take_succ_cons] at h
    refine ⟨next, rfl, ?_⟩
    cases hprompt : s.napPrompt next (s.pendingCount T - 1) with
    | error e => simp [hprompt, Except.map] at h
    | ok text => simpa [hprompt, Except.map] using h

variable {b : Block} {reply : WakeReply}

theorem wakeLine_blocked (h : s.wakeLine T b = .ok (.inl reply)) : s.treeGet b = .ok none ∧
      ∃ nap, reply = .blocked b (s.pendingCount T) nap ∧ s.nextNap T = .ok (some nap) := by
  unfold wakeLine at h
  split at h
  · cases hget : s.logGet b.lo <;> simp [hget, Except.map] at h
  split at h
  · cases h
  · cases h
  rename_i hnone
  split at h
  · cases h
  · rename_i nap hnap
    cases h
    exact ⟨hnone, nap, rfl, hnap⟩
  · split at h <;> cases h

variable {blocks : List Block}

theorem wakeLines_blocked (h : s.wakeLines T blocks = .ok (.inl reply)) :
    ∃ b ∈ blocks, s.wakeLine T b = .ok (.inl reply) := by
  induction blocks with
  | nil => cases h
  | cons b blocks ih =>
    unfold wakeLines at h
    split at h
    · cases h
    · rename_i hline
      cases h
      exact ⟨b, mem_cons_self, hline⟩
    · split at h
      · cases h
      · obtain ⟨b', hb', hline⟩ := ih h
        exact ⟨b', mem_cons_of_mem _ hb', hline⟩

theorem wakePart_blocked {k n : Nat} (h : s.wakePart sizes k T = .ok (.blocked b n nap)) :
    b ∈ cover T sizes.wakeLines ∧ s.treeGet b = .ok none ∧ n = s.pendingCount T ∧
      s.nextNap T = .ok (some nap) := by
  unfold wakePart at h
  split at h
  · cases h
  split at h
  · cases h
  · rename_i hlines
    cases h
    obtain ⟨b', hb', hline⟩ := wakeLines_blocked hlines
    obtain ⟨hnone, nap', hreply, hnap⟩ := wakeLine_blocked hline
    cases hreply
    exact ⟨hb', hnone, rfl, hnap⟩
  · dsimp only at h
    split at h
    · cases h
    split at h
    · cases h
    · cases hnap : s.nextNap T <;> simp [hnap, Except.map] at h

/-- The snapshot that the arguments of a wake select. -/
theorem cmdWake_part {args : List JsString} (h : s.cmdWake sizes args = .ok reply) :
    ∃ k T, T ≤ s.logLength ∧ s.wakePart sizes k T = .ok reply := by
  unfold cmdWake at h
  dsimp only at h
  split at h
  · cases h
  split at h
  · exact ⟨_, _, Nat.le_refl _, h⟩
  · exact ⟨_, _, Nat.le_refl _, h⟩
  · split at h
    · cases h
    · rename_i hT
      exact ⟨_, _, Nat.le_of_not_lt hT, h⟩
  · cases h

/-- A blocked wake brings the request for the first due block, which can be built. -/
theorem cmdWake_blocked {args : List JsString} {n : Nat}
    (h : s.cmdWake sizes args = .ok (.blocked b n nap)) :
    ∃ T ≤ s.logLength, ∃ next, s.Buildable T next ∧ s.napPrompt next (n - 1) = .ok nap ∧
      n = s.pendingCount T ∧ 0 < n := by
  obtain ⟨k, T, hT, hpart⟩ := cmdWake_part h
  obtain ⟨-, -, hn, hnap⟩ := wakePart_blocked hpart
  obtain ⟨next, hhead, hprompt⟩ := nextNap_some hnap
  refine ⟨T, hT, next, pending_head_buildable hhead, hn ▸ hprompt, hn, ?_⟩
  rw [hn, ← length_pending]
  cases htodo : s.pending T 0 with
  | nil =>
    rw [htodo] at hhead
    cases hhead
  | cons b rest => exact Nat.succ_pos _

/-! ## Free wakes -/

theorem pendingCount_eq_zero_iff : s.pendingCount T = 0 ↔ s.pending T 0 = [] := by
  rw [← length_pending, length_eq_zero_iff]

/-- When nothing is due, nothing was due in an earlier snapshot. -/
theorem pending_mono {T' : Nat} (hT : T' ≤ T) (h : s.pending T 0 = []) : s.pending T' 0 = [] := by
  rw [pending_eq_nil_iff] at h ⊢
  intro i hi
  exact Nat.le_trans (Nat.div_le_div_right hT) (h i (Nat.le_trans hi hT))

theorem cmdWake_free (h : s.pendingCount s.logLength = 0) (args : List JsString) (b : Block) (n : Nat)
    (nap : JsString) : s.cmdWake sizes args ≠ .ok (.blocked b n nap) := by
  intro hwake
  obtain ⟨k, T, hT, hpart⟩ := cmdWake_part hwake
  obtain ⟨next, hhead, -⟩ := nextNap_some (wakePart_blocked hpart).2.2.2
  rw [pending_mono hT (pendingCount_eq_zero_iff.mp h)] at hhead
  cases hhead

/-! ## Missing summaries -/

theorem tiles_hi_le {a b : Nat} (h : Tiles a b blocks) :
    a ≤ b ∧ ∀ block ∈ blocks, block.hi ≤ b := by
  induction blocks generalizing a with
  | nil => exact ⟨Nat.le_of_eq h, by simp⟩
  | cons block blocks ih =>
    obtain ⟨hlo, hlt, hrest⟩ := h
    obtain ⟨hle, hall⟩ := ih hrest
    refine ⟨by omega, fun block' hmem => ?_⟩
    rcases mem_cons.mp hmem with rfl | hmem
    · exact hle
    · exact hall block' hmem

/-- The blocks of a document are aligned, and inside of it. -/
theorem mem_cover {budget : Nat} (hb : b ∈ cover T budget) : b.Aligned ∧ b.hi ≤ T := by
  by_cases hT : budget < T
  · have htiling := (cover_spec hT).1
    exact ⟨htiling.aligned b hb, (tiles_hi_le htiling.tiles).2 b hb⟩
  unfold cover at hb
  split at hb
  · cases hb
  rw [if_pos (Nat.le_of_not_lt hT)] at hb
  obtain ⟨i, hi, rfl⟩ := mem_map.mp hb
  exact ⟨⟨0, i, by simp [Block.nth]⟩, mem_range.mp hi⟩

theorem Dense.treeGet_settled (h : s.Dense) {j k : Nat} (hsettled : s.Settled (.nth (2 ^ j) k)) :
    ∃ summary, s.treeGet (.nth (2 ^ j) k) = .ok (some summary) :=
  h _ k ((settled_nth (Nat.two_pow_pos j)).mp hsettled)

theorem Dense.napBody (h : s.Dense) (hb : s.Buildable T b) : ∃ body, s.napBody b = .ok body := by
  obtain ⟨i, k, rfl⟩ := hb.aligned
  rw [MemoryStore.napBody]
  split
  · exact ⟨_, rfl⟩
  rename_i hlarge
  have hhalves := hb.halves.resolve_left fun hone => by
    rw [Block.left_nth, Block.size_nth] at hone
    rw [Block.size_nth, Nat.pow_succ, hone.1] at hlarge
    exact hlarge (by decide)
  rw [Block.left_nth, Block.right_nth] at hhalves ⊢
  obtain ⟨left, hleft⟩ := h.treeGet_settled hhalves.1
  obtain ⟨right, hright⟩ := h.treeGet_settled hhalves.2
  simp only [halfLine, hleft, hright]
  exact ⟨_, rfl⟩

/-- The request for a block that can be built is written. -/
theorem Dense.napPrompt (h : s.Dense) (hb : s.Buildable T b) (left : Nat) :
    ∃ nap, s.napPrompt b left = .ok nap := by
  obtain ⟨body, hbody⟩ := h.napBody hb
  rw [MemoryStore.napPrompt, hbody]
  exact ⟨_, rfl⟩

theorem Dense.nextNap (h : s.Dense) {j k : Nat} (hinside : (Block.nth (2 ^ (j + 1)) k).hi ≤ T)
    (hdue : ¬ s.Settled (.nth (2 ^ (j + 1)) k)) : ∃ nap, s.nextNap T = .ok (some nap) := by
  have hpow : 0 < 2 ^ (j + 1) := Nat.two_pow_pos _
  rw [settled_nth hpow, Nat.not_lt] at hdue
  have hroom : k < T / 2 ^ (j + 1) := (Nat.le_div_iff_mul_le hpow).mpr hinside
  have hle : 2 ^ (j + 1) ≤ T := (Nat.div_pos_iff.mp (Nat.zero_lt_of_lt hroom)).2
  have hsome : s.pending T 0 ≠ [] := fun hnil => by
    have hdone := pending_eq_nil_iff.mp hnil j hle
    omega
  obtain ⟨next, rest, htodo⟩ := exists_cons_of_ne_nil hsome
  have hbuild : s.Buildable T next := pending_head_buildable (by rw [htodo]; rfl)
  obtain ⟨nap, hnap⟩ := h.napPrompt hbuild (s.pendingCount T - 1)
  refine ⟨nap, ?_⟩
  rw [MemoryStore.nextNap, pending_limit s T 1 (by decide), htodo, take_succ_cons]
  dsimp only
  rw [hnap]
  rfl

/-- A line of the document is written, or its block is missing and the wake is blocked. -/
theorem Dense.wakeLine (h : s.Dense) (hT : T ≤ s.logLength) (hb : b.Aligned) (hinside : b.hi ≤ T) :
    if b.size = 1 ∨ s.Settled b then ∃ line, s.wakeLine T b = .ok (.inr line)
    else ∃ nap, s.wakeLine T b = .ok (.inl (.blocked b (s.pendingCount T) nap)) := by
  obtain ⟨j, k, rfl⟩ := hb
  rw [MemoryStore.wakeLine]
  by_cases hone : (Block.nth (2 ^ j) k).size = 1
  · rw [if_pos (.inl hone), if_pos hone]
    have hlo : (Block.nth (2 ^ j) k).lo < s.logLength := by
      rw [Block.size] at hone
      omega
    obtain ⟨e, he⟩ := logGet_ok hlo
    exact ⟨_, by rw [he]; rfl⟩
  · rw [if_neg hone]
    obtain ⟨j, rfl⟩ : ∃ i, j = i + 1 := Nat.exists_eq_succ_of_ne_zero fun hzero => hone (by simp [hzero])
    by_cases hsettled : s.Settled (.nth (2 ^ (j + 1)) k)
    · rw [if_pos (.inr hsettled)]
      obtain ⟨summary, hget⟩ := h.treeGet_settled hsettled
      exact ⟨_, by rw [hget]⟩
    · rw [if_neg fun hor => hor.elim hone hsettled]
      obtain ⟨nap, hnap⟩ := h.nextNap hinside hsettled
      rw [settled_nth (Nat.two_pow_pos _), Nat.not_lt] at hsettled
      refine ⟨nap, ?_⟩
      rw [treeGet_unsettled (Nat.two_pow_pos _) hsettled, hnap]

theorem Dense.wakeLines (h : s.Dense) (hT : T ≤ s.logLength)
    (hblocks : ∀ b ∈ blocks, b.Aligned ∧ b.hi ≤ T)
    (hmissing : ∃ b ∈ blocks, b.size ≠ 1 ∧ ¬ s.Settled b) :
    ∃ b nap, s.wakeLines T blocks = .ok (.inl (.blocked b (s.pendingCount T) nap)) := by
  induction blocks with
  | nil => simp at hmissing
  | cons b blocks ih =>
    obtain ⟨haligned, hinside⟩ := hblocks b mem_cons_self
    have hline := h.wakeLine hT haligned hinside
    split at hline
    · rename_i hthere
      obtain ⟨line, hline⟩ := hline
      obtain ⟨missing, hmem, hsize, hdue⟩ := hmissing
      rcases mem_cons.mp hmem with rfl | hmem
      · exact absurd hthere (not_or.mpr ⟨hsize, hdue⟩)
      obtain ⟨b', nap, hrest⟩ :=
        ih (fun b hb => hblocks b (mem_cons_of_mem _ hb)) ⟨missing, hmem, hsize, hdue⟩
      exact ⟨b', nap, by rw [MemoryStore.wakeLines, hline]; dsimp only; rw [hrest]⟩
    · obtain ⟨nap, hline⟩ := hline
      exact ⟨b, nap, by rw [MemoryStore.wakeLines, hline]⟩

theorem Dense.wakePart (h : s.Dense) (hT : T ≤ s.logLength)
    (hmissing : ∃ b ∈ cover T sizes.wakeLines, b.size ≠ 1 ∧ ¬ s.Settled b) (k : Nat) :
    ∃ b nap, s.wakePart sizes k T = .ok (.blocked b (s.pendingCount T) nap) := by
  obtain ⟨b, nap, hlines⟩ := h.wakeLines hT (fun b hb => mem_cover hb) hmissing
  have hpos : T ≠ 0 := by
    rintro rfl
    obtain ⟨b, hb, -⟩ := hmissing
    simp [cover] at hb
  exact ⟨b, nap, by rw [MemoryStore.wakePart, if_neg hpos, hlines]⟩

theorem pendingCount_congr {s' : MemoryStore} (h : ∀ size, s'.levelCount size = s.levelCount size) :
    s'.pendingCount T = s.pendingCount T := by
  rw [pendingCount, pendingCount]
  exact congrArg List.sum (map_congr_left fun size _ => by rw [h])

end MemoryStore

/-! ## Naps -/

namespace MemoryWorld

/-- Some sessions start on a store. -/
def on (s : MemoryStore) : MemoryWorld := { store := s, naps := [], replies := [], ledger := [] }

/-- Every nap that waits for the lock has a block of the log. -/
def Sound (w : MemoryWorld) : Prop := ∀ call ∈ w.naps, call.phase.Sound w.store

/-- A nap is called, or goes on. -/
def Act.isNap : Act → Bool
  | .nap _ _ | .read _ | .commit _ => true
  | .note _ _ | .forget _ => false

variable {s : MemoryStore} {w w' : MemoryWorld}

theorem Sound.commit (h : w.Sound) {index : Nat} (hstep : w.step (.commit index) = some w') :
    w'.Sound ∧ w'.store.logLength = w.store.logLength ∧
      ((w'.ledger = w.ledger ∧
          w'.store.pendingCount w'.store.logLength = w.store.pendingCount w.store.logLength) ∨
        ((∃ b, w'.ledger = w.ledger ++ [.settled b]) ∧
          w'.store.pendingCount w'.store.logLength + 1 = w.store.pendingCount w.store.logLength)) := by
  simp only [MemoryWorld.step, Option.bind_eq_some_iff, Option.map_eq_some_iff] at hstep
  obtain ⟨call, hcall, ⟨reply, store⟩, hcommit, rfl⟩ := hstep
  cases hphase : call.phase with
  | start | pending | compare =>
    rw [hphase] at hcommit
    cases hcommit
  | put b text =>
    obtain ⟨hstore, hreply⟩ := commit_spec hphase hcommit
    have hsound := h call (mem_of_getElem? hcall)
    rw [hphase] at hsound
    obtain ⟨i, k, rfl, hinside⟩ := hsound
    obtain ⟨hlog, htrue, hcount⟩ := w.store.treePut_spec (.nth (2 ^ (i + 1)) k) text
    rw [← hstore] at hlog hcount
    refine ⟨fun call' hcall' => (h call' (mem_of_mem_eraseIdx hcall')).mono
      (Nat.le_of_eq hlog.symm), hlog, ?_⟩
    dsimp only
    rw [hlog, hreply]
    by_cases hok : (w.store.treePut (.nth (2 ^ (i + 1)) k) text).1 = .ok true
    · rw [if_pos hok]
      refine .inr ⟨⟨_, rfl⟩, ?_⟩
      rw [hstore]
      exact MemoryStore.treePut_pendingCount hinside hok
    · rw [if_neg hok, append_nil]
      refine .inl ⟨rfl, MemoryStore.pendingCount_congr fun size => ?_⟩
      rw [hcount, if_neg fun hcond => hok (htrue.mpr hcond.2)]

theorem Sound.step (h : w.Sound) {act : Act} (hstep : w.step act = some w') : w'.Sound := by
  cases act with
  | note date text =>
    rw [step_note] at hstep
    obtain rfl := Option.some.inj hstep
    exact fun call hcall => (h call hcall).mono (cmdNote_spec w.store date text).1
  | forget id =>
    rw [step_forget] at hstep
    obtain rfl := Option.some.inj hstep
    have hspec := cmdForget_spec w.store id
    have hlog : (cmdForget w.store id).2.logLength = w.store.logLength := by
      rw [hspec]
      cases hid : parseBlockId id with
      | error e => rfl
      | ok b =>
        obtain ⟨hb, haligned⟩ := parseBlockId_spec hid
        exact (MemoryStore.treeDrop_spec (by omega) haligned).1
    intro call hcall
    obtain ⟨before, hbefore, rfl⟩ := mem_map.mp hcall
    exact (h before hbefore).mono (Nat.le_of_eq hlog.symm)
  | nap id text =>
    cases hstep
    intro call hcall
    rcases mem_append.mp hcall with hold | hnew
    · exact h call hold
    · obtain rfl := mem_singleton.mp hnew
      trivial
  | read index =>
    simp only [MemoryWorld.step, Option.bind_eq_some_iff, Option.map_eq_some_iff] at hstep
    obtain ⟨call, hcall, outcome, hread, rfl⟩ := hstep
    cases outcome with
    | inl phase =>
      intro call' hcall'
      rcases mem_or_eq_of_mem_set hcall' with hold | rfl
      · exact h call' hold
      · exact (NapAt.read_spec hread (h call (mem_of_getElem? hcall))).1
    | inr reply => exact fun call' hcall' => h call' (mem_of_mem_eraseIdx hcall')
  | commit index => exact (h.commit hstep).1

theorem sound_on (s : MemoryStore) : (on s).Sound := fun call hcall => by cases hcall

theorem sound_run {acts : List Act} (hrun : Transitions.run step (on s) acts = some w) : w.Sound :=
  Transitions.run_invariant' (fun _ _ _ h hstep => h.step hstep) (sound_on s) hrun

/-- Each accepted nap is one block less that is due. -/
theorem naps_run {acts : List Act} (hacts : ∀ act ∈ acts, act.isNap = true)
    (hrun : Transitions.run step (on s) acts = some w) :
    w.store.pendingCount w.store.logLength + w.ledger.length = s.pendingCount s.logLength := by
  have hinv : w.Sound ∧
      w.store.pendingCount w.store.logLength + w.ledger.length = s.pendingCount s.logLength := by
    refine Transitions.run_invariant (I := fun w => w.Sound ∧
      w.store.pendingCount w.store.logLength + w.ledger.length = s.pendingCount s.logLength)
      (P := fun act => act.isNap = true) ?_ ⟨sound_on s, rfl⟩ hacts hrun
    intro w act w' hact ⟨hsound, hsum⟩ hstep
    refine ⟨hsound.step hstep, ?_⟩
    cases act with
    | note | forget => cases hact
    | nap id text =>
      cases hstep
      exact hsum
    | read index =>
      simp only [MemoryWorld.step, Option.bind_eq_some_iff, Option.map_eq_some_iff] at hstep
      obtain ⟨call, -, outcome, -, rfl⟩ := hstep
      cases outcome <;> exact hsum
    | commit index =>
      rcases (hsound.commit hstep).2.2 with ⟨hledger, hcount⟩ | ⟨⟨b, hledger⟩, hcount⟩
      · rw [hledger, hcount]
        exact hsum
      · rw [hledger, length_append, length_singleton]
        omega
  exact hinv.2

/-! ## Progress -/

/-- Two memories, their block not compressed, and room for one line. -/
def blockedStore : MemoryStore :=
  ((MemoryStore.create 280).append [("2026-01-01", ⟨[0x61]⟩), ("2026-01-02", ⟨[0x62]⟩)]).2

def oneLine : MemorySizes := ⟨1, 20000, 500, Nat.one_pos, defaultPartChars_pos, by decide⟩

end MemoryWorld

end Harness
