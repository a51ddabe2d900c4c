-- SUMMARY: When the summary tree stays closed under halves, and that no block is settled twice between drops.
import Harness.Memory.Engine
import Harness.Memory.Tree

namespace Harness

open List OrderedMap
open Block (nth size_nth)

/-! ## Commands -/

theorem parseBlockId_spec {id : JsString} {b : Block} (h : parseBlockId id = .ok b) :
    2 ≤ b.size ∧ b.lo % b.size = 0 := by
  unfold parseBlockId at h
  cases hmatch : matchBlockId id with
  | none =>
    rw [hmatch] at h
    cases h
  | some pair =>
    obtain ⟨lo, last⟩ := pair
    simp only [hmatch] at h
    split at h
    · cases h
    rename_i hshape
    cases h
    simp only [Bool.or_eq_true, decide_eq_true_eq, not_or] at hshape
    exact ⟨Nat.le_of_not_lt hshape.1.1, by simpa [Block.size] using hshape.2⟩

theorem cmdNote_spec (s : MemoryStore) (date : String) (text : JsString) :
    s.logLength ≤ (cmdNote s date text).2.logLength ∧
      ∀ size, (cmdNote s date text).2.levelCount size = s.levelCount size := by
  unfold cmdNote
  cases s.checkEntry text with
  | error e => exact ⟨Nat.le_refl _, fun _ => rfl⟩
  | ok text =>
    have hlog := s.logLength_le_append [(date, text)]
    have hlevel := s.levelCount_append [(date, text)]
    dsimp only
    cases happend : s.append [(date, text)] with
    | mk result s' =>
      rw [happend] at hlog hlevel
      cases result <;> exact ⟨hlog, hlevel⟩

/-- A forget leaves the store alone, or drops the block it names. -/
theorem cmdForget_spec (s : MemoryStore) (id : JsString) :
    (cmdForget s id).2 = match parseBlockId id with
      | .error _ => s
      | .ok b => (s.treeDrop b).2 := by
  unfold cmdForget
  cases parseBlockId id with
  | error e => rfl
  | ok b =>
    dsimp only
    cases s.treeDrop b with
    | mk result s' =>
      cases result with
      | error e => rfl
      | ok gone => cases gone <;> rfl

/-! ## The ledger -/

namespace TreeEvent

/-- Whether a block was settled, and not dropped since. -/
def standing (b : Block) (ledger : List TreeEvent) : Bool :=
  ledger.foldl (fun on e => if e = .settled b then true else if e = .dropped b then false else on)
    false

/-- Between any two settlements of a block it is dropped. -/
def OncePerDrop (ledger : List TreeEvent) : Prop :=
  ∀ b pre mid post, ledger = pre ++ .settled b :: (mid ++ .settled b :: post) → .dropped b ∈ mid

@[simp] theorem standing_settled (b b' : Block) (ledger : List TreeEvent) :
    standing b (ledger ++ [.settled b']) = (decide (b' = b) || standing b ledger) := by
  unfold standing
  rw [foldl_append]
  by_cases h : b' = b <;> simp [h]

theorem standing_dropped (b : Block) (ledger : List TreeEvent) (bs : List Block) :
    standing b (ledger ++ bs.map .dropped) = (decide (b ∉ bs) && standing b ledger) := by
  induction bs using List.reverseRecOn with
  | nil => simp
  | append_singleton bs b' ih =>
    rw [map_append, ← append_assoc]
    unfold standing at ih ⊢
    rw [foldl_append, ih]
    by_cases h : b' = b
    · simp [h]
    · simp [h, Ne.symm h]

theorem standing_of_kept {b : Block} (pre : List TreeEvent) {mid : List TreeEvent}
    (h : .dropped b ∉ mid) :
    standing b (pre ++ .settled b :: mid) = true := by
  induction mid using List.reverseRecOn with
  | nil => simp
  | append_singleton mid e ih =>
    simp only [mem_append, mem_singleton, not_or] at h
    rw [← cons_append, ← append_assoc]
    have hkept := ih h.1
    unfold standing at hkept ⊢
    rw [foldl_append, hkept]
    simp [Ne.symm h.2]

theorem OncePerDrop.snoc {ledger : List TreeEvent} (h : OncePerDrop ledger) {e : TreeEvent}
    (he : ∀ b, e = .settled b → standing b ledger = false) : OncePerDrop (ledger ++ [e]) := by
  intro b pre mid post heq
  rcases eq_nil_or_concat post with rfl | ⟨post, last, rfl⟩
  · have heq' : ledger ++ [e] = (pre ++ .settled b :: mid) ++ [.settled b] := by simp [heq]
    obtain ⟨hledger, hlast⟩ := append_inj' heq' rfl
    by_contra hmid
    have hstands := standing_of_kept pre hmid
    rw [← hledger, he b (by simpa using hlast)] at hstands
    cases hstands
  · have heq' : ledger ++ [e] = (pre ++ .settled b :: (mid ++ .settled b :: post)) ++ [last] := by
      simp [heq]
    exact h b pre mid post (append_inj' heq' rfl).1

theorem OncePerDrop.dropped {ledger : List TreeEvent} (h : OncePerDrop ledger) (bs : List Block) :
    OncePerDrop (ledger ++ bs.map .dropped) := by
  induction bs using List.reverseRecOn with
  | nil => simpa using h
  | append_singleton bs b ih =>
    rw [map_append, ← append_assoc]
    exact ih.snoc fun b' hb' => by cases hb'

end TreeEvent

/-! ## The naps -/

/-- What a suspended nap knows of the log and of its block. -/
def NapAt.Sound (s : MemoryStore) : NapAt → Prop
  | .pending _ _ T size => T ≤ s.logLength ∧ ∃ i, size = 2 ^ (i + 1)
  | .put b _ => ∃ i k, b = .nth (2 ^ (i + 1)) k ∧ b.hi ≤ s.logLength
  | _ => True

/-- What a nap read and no drop has undone: all levels below are complete. -/
def NapAt.Fresh (s : MemoryStore) : NapAt → Prop
  | .pending _ _ T size => ∀ i, 2 ^ (i + 1) < size → T / 2 ^ (i + 1) ≤ s.levelCount (2 ^ (i + 1))
  | .put b _ => 4 ≤ b.size → b.hi ≤ s.levelCount (b.size / 2) * (b.size / 2)
  | _ => True

theorem NapAt.Sound.mono {s s' : MemoryStore} (hlog : s.logLength ≤ s'.logLength) {phase : NapAt}
    (h : phase.Sound s) : phase.Sound s' := by
  cases phase with
  | start | compare => trivial
  | pending b text T size => exact ⟨Nat.le_trans h.1 hlog, h.2⟩
  | put b text =>
    obtain ⟨i, k, hb, hhi⟩ := h
    exact ⟨i, k, hb, Nat.le_trans hhi hlog⟩

theorem NapAt.Fresh.mono {s s' : MemoryStore}
    (hcount : ∀ size, s.levelCount size ≤ s'.levelCount size) {phase : NapAt}
    (h : phase.Fresh s) : phase.Fresh s' := by
  cases phase with
  | start | compare => trivial
  | pending b text T size => exact fun i hi => Nat.le_trans (h i hi) (hcount _)
  | put b text => exact fun hb => Nat.le_trans (h hb) (Nat.mul_le_mul_right _ (hcount _))

/-- A level reaches over a block of twice its size when it holds both halves. -/
theorem Block.hi_nth_le {n k count : Nat} :
    (nth (2 ^ (n + 2)) k).hi ≤ count * 2 ^ (n + 1) ↔ 2 * k + 2 ≤ count := by
  have hhi : (nth (2 ^ (n + 2)) k).hi = (2 * k + 2) * 2 ^ (n + 1) := by
    change (k + 1) * 2 ^ (n + 2) = _
    rw [show (2 : Nat) ^ (n + 2) = 2 * 2 ^ (n + 1) from Nat.pow_succ' .., ← Nat.mul_assoc]
    congr 1
    omega
  rw [hhi]
  exact Nat.mul_le_mul_right_iff (Nat.two_pow_pos _)

/-- A level that is complete up to `T` reaches over every larger block up to `T`. -/
theorem hi_le_of_level {T n k count : Nat} (hhi : (nth (2 ^ (n + 2)) k).hi ≤ T)
    (hlevel : T / 2 ^ (n + 1) ≤ count) : (nth (2 ^ (n + 2)) k).hi ≤ count * 2 ^ (n + 1) := by
  have hdvd : 2 ^ (n + 1) ∣ (nth (2 ^ (n + 2)) k).hi :=
    Nat.dvd_mul_left_of_dvd (Nat.pow_dvd_pow 2 (Nat.le_succ _)) _
  calc (nth (2 ^ (n + 2)) k).hi
      = (nth (2 ^ (n + 2)) k).hi / 2 ^ (n + 1) * 2 ^ (n + 1) := (Nat.div_mul_cancel hdvd).symm
    _ ≤ T / 2 ^ (n + 1) * 2 ^ (n + 1) := Nat.mul_le_mul_right _ (Nat.div_le_div_right hhi)
    _ ≤ count * 2 ^ (n + 1) := Nat.mul_le_mul_right _ hlevel

/-- A read leads to where what was read so far is known. -/
theorem NapAt.read_spec {s : MemoryStore} {phase phase' : NapAt}
    (h : phase.read s = some (.inl phase')) (hsound : phase.Sound s) :
    phase'.Sound s ∧ (phase.Fresh s → phase'.Fresh s) := by
  cases phase with
  | put b text => cases h
  | compare b next =>
    unfold NapAt.read at h
    cases htree : s.treeGet b with
    | error e => simp [htree] at h
    | ok summary => cases summary <;> simp [htree] at h
  | start id text =>
    unfold NapAt.read at h
    cases hid : parseBlockId id with
    | error e => simp [hid] at h
    | ok b =>
      simp only [hid, Option.some.injEq, Sum.inl.injEq] at h
      subst h
      refine ⟨⟨Nat.le_refl _, 0, rfl⟩, fun _ i hi => absurd hi (Nat.not_lt.mpr ?_)⟩
      exact Nat.pow_le_pow_right (n := 2) (by decide) (Nat.le_add_left 1 i)
  | pending b text T size =>
    obtain ⟨hT, i, rfl⟩ := hsound
    unfold NapAt.read at h
    dsimp only at h
    by_cases hsize : 2 ^ (i + 1) ≤ T
    · rw [if_pos hsize] at h
      by_cases hdue : s.levelCount (2 ^ (i + 1)) < T / 2 ^ (i + 1)
      · rw [if_pos hdue] at h
        by_cases hb : b = .nth (2 ^ (i + 1)) (s.levelCount (2 ^ (i + 1)))
        · rw [if_neg (not_not_intro hb)] at h
          cases htext : s.checkEntry text with
          | error e => simp [htext] at h
          | ok text' =>
            simp only [htext, Option.some.injEq, Sum.inl.injEq] at h
            subst h
            have hhi : b.hi ≤ T := by
              rw [hb]
              exact (Nat.le_div_iff_mul_le (Nat.two_pow_pos _)).mp hdue
            refine ⟨⟨i, _, hb, Nat.le_trans hhi hT⟩, fun hfresh hfour => ?_⟩
            have hbsize : b.size = 2 ^ (i + 1) := by rw [hb, size_nth]
            rw [hbsize] at hfour ⊢
            obtain ⟨n, rfl⟩ : ∃ n, i = n + 1 := by
              refine Nat.exists_eq_succ_of_ne_zero ?_
              rintro rfl
              exact absurd hfour (by decide)
            have hbelow := hfresh n (Nat.pow_lt_pow_right (by decide) (Nat.lt_succ_self _))
            rw [Nat.pow_succ, Nat.mul_div_cancel _ (by decide)]
            exact hb ▸ hi_le_of_level (hb ▸ hhi) hbelow
        · rw [if_pos hb] at h
          simp only [Option.some.injEq, Sum.inl.injEq] at h
          subst h
          exact ⟨trivial, fun _ => trivial⟩
      · rw [if_neg hdue] at h
        simp only [Option.some.injEq, Sum.inl.injEq] at h
        subst h
        refine ⟨⟨hT, i + 1, (Nat.pow_succ ..).symm⟩, fun hfresh j hj => ?_⟩
        rcases Nat.lt_or_ge j i with hlt | hge
        · exact hfresh j (Nat.pow_lt_pow_right (by decide) (Nat.succ_lt_succ hlt))
        have hji : j = i := by
          rw [← Nat.pow_succ] at hj
          have := (Nat.pow_lt_pow_iff_right (by decide)).mp hj
          omega
        rw [hji]
        exact Nat.le_of_not_lt hdue
    · rw [if_neg hsize] at h
      cases h

/-! ## Every interleaving -/

namespace MemoryWorld

open MemoryStore TreeEvent

structure Inv (w : MemoryWorld) : Prop where
  levelled : w.store.Levelled
  sound : ∀ call ∈ w.naps, call.phase.Sound w.store
  fresh : ∀ call ∈ w.naps, call.overlapped = false → call.phase.Fresh w.store
  standing : ∀ size k, 0 < size → (standing (.nth size k) w.ledger = true ↔ k < w.store.levelCount size)
  once : OncePerDrop w.ledger

theorem Inv.create (entryChars : Nat) : (create entryChars).Inv where
  levelled := ⟨fun size h => absurd h (by simp [MemoryWorld.create, MemoryStore.create, levelCount,
    level, get?, Records.count]), fun size => by
    simp [MemoryWorld.create, MemoryStore.create, levelCount, level, get?, Records.count]⟩
  sound call hcall := nomatch hcall
  fresh call hcall := nomatch hcall
  standing size k _ := by
    simp [MemoryWorld.create, MemoryStore.create, TreeEvent.standing, levelCount, level,
      get?, Records.count]
  once b pre mid post h := by simp [MemoryWorld.create] at h

theorem mem_lost {s s' : MemoryStore} {size k : Nat} (hsize : 0 < size) :
    nth size k ∈ lost s s' ↔ k < s.levelCount size ∧ s'.levelCount size ≤ k := by
  unfold lost
  simp only [mem_flatMap, mem_map, mem_filter, mem_range, decide_eq_true_eq]
  constructor
  · rintro ⟨n, -, j, ⟨hj, hj'⟩, heq⟩
    obtain rfl : n = size := by simpa using congrArg Block.size heq
    obtain rfl := Block.nth_injective hsize heq
    exact ⟨hj, hj'⟩
  · rintro ⟨hk, hk'⟩
    refine ⟨size, ?_, k, ⟨hk, hk'⟩, rfl⟩
    by_contra hnone
    rw [levelCount, level, OrderedMap.get?_eq_none_iff.mpr hnone] at hk
    simp [Records.count] at hk

/-- When a step leaves the tree as closed under halves as it was: a forget truncates no
level file inside a byte, and a nap settles no block that its halves do not reach over. -/
def Allowed (w : MemoryWorld) : Act → Prop
  | .forget id => ∀ b, parseBlockId id = .ok b → ∀ size ∈ levelsFrom b.size w.store.logLength,
      b.lo < w.store.levelCount size * size → size ∣ b.lo * TREE_REC
  | .commit index => ∀ call b text, w.naps[index]? = some call → call.phase = .put b text →
      4 ≤ b.size → w.store.levelCount b.size * b.size = b.lo → text.byteLength < TREE_REC →
      b.hi ≤ w.store.levelCount (b.size / 2) * (b.size / 2)
  | _ => True

variable {w w' : MemoryWorld}

theorem step_note (date : String) (text : JsString) : w.step (.note date text) = some { w with
    store := (cmdNote w.store date text).2
    replies := w.replies ++ [(cmdNote w.store date text).1] } := rfl

theorem step_forget (id : JsString) : w.step (.forget id) = some { w with
    store := (cmdForget w.store id).2
    naps := w.naps.map ({ · with overlapped := true })
    replies := w.replies ++ [(cmdForget w.store id).1]
    ledger := w.ledger ++ (lost w.store (cmdForget w.store id).2).map .dropped } := rfl

/-! ### Notes -/

theorem Inv.note (h : w.Inv) (date : String) (text : JsString)
    (hstep : w.step (.note date text) = some w') :
    w'.Inv ∧ (w.store.Halved → (w'.store.Halved ↔ w.Allowed (.note date text))) := by
  rw [step_note] at hstep
  obtain rfl := Option.some.inj hstep
  obtain ⟨hlog, hcount⟩ := cmdNote_spec w.store date text
  have hle : ∀ size, w.store.levelCount size ≤ (cmdNote w.store date text).2.levelCount size :=
    fun size => (Nat.le_of_eq (hcount size).symm)
  refine ⟨⟨h.levelled.mono hlog fun size => Nat.le_of_eq (hcount size),
    fun call hcall => (h.sound call hcall).mono hlog,
    fun call hcall hover => (h.fresh call hcall hover).mono hle, fun size k hsize => ?_, h.once⟩,
    fun hhalved => iff_of_true ?_ trivial⟩
  · dsimp only
    rw [hcount]
    exact h.standing size k hsize
  · rw [halved_iff] at hhalved ⊢
    intro i
    dsimp only
    rw [hcount, hcount]
    exact hhalved i

/-! ### Forgets -/

/-- A store whose levels only shrank, and whose losses were recorded. -/
theorem Inv.shrunk (h : w.Inv) {store : MemoryStore} (hlog : store.logLength = w.store.logLength)
    (hle : ∀ size, store.levelCount size ≤ w.store.levelCount size) (replies : List MemoryReply) :
    Inv { w with
      store, replies
      naps := w.naps.map ({ · with overlapped := true })
      ledger := w.ledger ++ (lost w.store store).map .dropped } where
  levelled := h.levelled.mono (Nat.le_of_eq hlog.symm) hle
  sound call hcall := by
    obtain ⟨before, hbefore, rfl⟩ := mem_map.mp hcall
    exact (h.sound before hbefore).mono (Nat.le_of_eq hlog.symm)
  fresh call hcall hover := by
    obtain ⟨before, -, rfl⟩ := mem_map.mp hcall
    cases hover
  standing size k hsize := by
    have hbefore := h.standing size k hsize
    have hless := hle size
    rw [standing_dropped, Bool.and_eq_true, decide_eq_true_eq, mem_lost hsize, hbefore]
    dsimp only
    omega
  once := h.once.dropped _

theorem Inv.forget (h : w.Inv) (id : JsString) (hstep : w.step (.forget id) = some w') :
    w'.Inv ∧ (w.store.Halved → (w'.store.Halved ↔ w.Allowed (.forget id))) := by
  rw [step_forget] at hstep
  obtain rfl := Option.some.inj hstep
  have hspec := cmdForget_spec w.store id
  cases hid : parseBlockId id with
  | error e =>
    rw [hid] at hspec
    refine ⟨h.shrunk (by rw [hspec]) (fun size => by rw [hspec]) _, fun hhalved => iff_of_true ?_ ?_⟩
    · exact hspec ▸ hhalved
    intro b hb
    rw [hid] at hb
    cases hb
  | ok b =>
    rw [hid] at hspec
    obtain ⟨hb, haligned⟩ := parseBlockId_spec hid
    refine ⟨h.shrunk ?_ (fun size => ?_) _, fun hhalved => ?_⟩
    · rw [hspec]
      exact (treeDrop_spec (by omega) haligned).1
    · rw [hspec]
      exact levelCount_treeDrop_le (by omega) haligned size
    change (cmdForget w.store id).2.Halved ↔ _
    rw [hspec, halved_treeDrop_iff h.levelled hhalved hb haligned]
    constructor
    · intro hall b' hb'
      rw [hid] at hb'
      cases hb'
      exact hall
    · exact fun hall => hall b hid

/-! ### Naps -/

/-- A nap that suspends again, or ends without a write. -/
theorem Inv.naps (h : w.Inv) {naps : List NapCall} (replies : List MemoryReply)
    (hnaps : ∀ call ∈ naps, call ∈ w.naps ∨
      call.phase.Sound w.store ∧ (call.overlapped = false → call.phase.Fresh w.store)) :
    Inv { w with naps, replies } where
  levelled := h.levelled
  sound call hcall := (hnaps call hcall).elim (h.sound call) (·.1)
  fresh call hcall := (hnaps call hcall).elim (h.fresh call) (·.2)
  standing := h.standing
  once := h.once

theorem Inv.read (h : w.Inv) (index : Nat) (hstep : w.step (.read index) = some w') :
    w'.Inv ∧ (w.store.Halved → (w'.store.Halved ↔ w.Allowed (.read index))) := by
  simp only [MemoryWorld.step, Option.bind_eq_some_iff, Option.map_eq_some_iff] at hstep
  obtain ⟨call, hcall, outcome, hread, rfl⟩ := hstep
  have hmem := mem_of_getElem? hcall
  cases outcome with
  | inl phase =>
    obtain ⟨hsound, hfresh⟩ := NapAt.read_spec hread (h.sound call hmem)
    refine ⟨h.naps w.replies fun call' hcall' => ?_, fun hhalved => iff_of_true hhalved trivial⟩
    rcases mem_or_eq_of_mem_set hcall' with hold | rfl
    · exact .inl hold
    · exact .inr ⟨hsound, fun hover => hfresh (h.fresh call hmem hover)⟩
  | inr reply =>
    exact ⟨h.naps _ fun call' hcall' => .inl (mem_of_mem_eraseIdx hcall'),
      fun hhalved => iff_of_true hhalved trivial⟩

/-- What the commit of a nap does to the store, and what it records. -/
theorem commit_spec {call : NapCall} {b : Block} {text : JsString} {reply : MemoryReply}
    {store : MemoryStore} (hphase : call.phase = .put b text)
    (hcommit : call.phase.commit w.store = some (reply, store)) :
    store = (w.store.treePut b text).2 ∧
      reply.events = if (w.store.treePut b text).1 = .ok true then [.settled b] else [] := by
  rw [hphase] at hcommit
  unfold NapAt.commit at hcommit
  cases hput : w.store.treePut b text with
  | mk result s' =>
    cases result with
    | error e =>
      simp only [hput, Option.some.injEq, Prod.mk.injEq] at hcommit
      obtain ⟨rfl, rfl⟩ := hcommit
      simp [MemoryReply.events]
    | ok wrote =>
      cases wrote <;>
      · simp only [hput, Option.some.injEq, Prod.mk.injEq] at hcommit
        obtain ⟨rfl, rfl⟩ := hcommit
        simp [MemoryReply.events]

theorem Inv.commit (h : w.Inv) (index : Nat) (hstep : w.step (.commit index) = some w') :
    w'.Inv ∧ (w.store.Halved → (w'.store.Halved ↔ w.Allowed (.commit index))) := by
  simp only [MemoryWorld.step, Option.bind_eq_some_iff, Option.map_eq_some_iff] at hstep
  obtain ⟨call, hcall, ⟨reply, store⟩, hcommit, rfl⟩ := hstep
  have hmem := mem_of_getElem? hcall
  cases hphase : call.phase with
  | start | pending | compare =>
    rw [hphase] at hcommit
    cases hcommit
  | put b text =>
    obtain ⟨hstore, hreply⟩ := commit_spec hphase hcommit
    have hsound := h.sound call hmem
    rw [hphase] at hsound
    obtain ⟨i, k, rfl, hhi⟩ := hsound
    have hpow : 0 < 2 ^ (i + 1) := Nat.two_pow_pos _
    obtain ⟨hlog, htrue, hcount⟩ := w.store.treePut_spec (.nth (2 ^ (i + 1)) k) text
    have hat : ∀ n, n * 2 ^ (i + 1) = (nth (2 ^ (i + 1)) k).lo ↔ n = k := fun n =>
      ⟨fun heq => Nat.eq_of_mul_eq_mul_right hpow heq, fun heq => heq ▸ rfl⟩
    simp only [size_nth, hat] at htrue hcount
    rw [← hstore] at hlog hcount
    dsimp only
    have hge : ∀ size, w.store.levelCount size ≤ store.levelCount size := fun size => by
      rw [hcount]
      split <;> omega
    refine ⟨⟨⟨fun size hpos => ?_, fun size => ?_⟩, fun call' hcall' => ?_,
      fun call' hcall' hover => ?_, fun size j hsize => ?_, ?_⟩, fun hhalved => ?_⟩
    · by_cases hsize : size = 2 ^ (i + 1)
      · exact ⟨i, hsize⟩
      dsimp only at hpos
      rw [hcount, if_neg fun hall => hsize hall.1] at hpos
      exact h.levelled.sizes size hpos
    · dsimp only
      rw [hcount, hlog]
      split
      · rename_i hall
        rw [hall.1, hall.2.1]
        exact hhi
      · exact h.levelled.fits size
    · exact (h.sound call' (mem_of_mem_eraseIdx hcall')).mono (Nat.le_of_eq hlog.symm)
    · exact (h.fresh call' (mem_of_mem_eraseIdx hcall') hover).mono hge
    · dsimp only
      have hbefore := h.standing size j hsize
      rw [hreply, hcount]
      by_cases hput : w.store.levelCount (2 ^ (i + 1)) = k ∧ text.byteLength < TREE_REC
      · rw [if_pos (htrue.mpr hput), standing_settled, Bool.or_eq_true, decide_eq_true_eq, hbefore]
        by_cases hsame : size = 2 ^ (i + 1)
        · subst hsame
          rw [if_pos ⟨rfl, hput⟩, hput.1]
          constructor
          · rintro (heq | hlt)
            · rw [Block.nth_injective hpow heq]
              exact Nat.lt_succ_self _
            · exact Nat.lt_succ_of_lt hlt
          · intro hlt
            rcases Nat.lt_succ_iff_lt_or_eq.mp hlt with hlt | rfl
            · exact .inr hlt
            · exact .inl rfl
        · rw [if_neg fun hall => hsame hall.1]
          have hother : nth (2 ^ (i + 1)) k ≠ .nth size j := fun heq =>
            hsame (by simpa using (congrArg Block.size heq).symm)
          simp [hother]
      · rw [if_neg fun hok => hput (htrue.mp hok), append_nil,
          if_neg fun hall => hput hall.2]
        exact hbefore
    · dsimp only
      rw [hreply]
      split
      · rename_i hok
        refine h.once.snoc fun b hb => ?_
        cases hb
        have hnot := (h.standing (2 ^ (i + 1)) k hpow).not
        rw [(htrue.mp hok).1, Bool.not_eq_true] at hnot
        exact hnot.mpr (Nat.lt_irrefl _)
      · simpa using h.once
    · rw [hstore, halved_treePut_iff hhalved]
      constructor
      · intro hroom call' b' text' hcall' hphase' hfour hlevel htext
        obtain rfl := Option.some.inj (hcall.symm.trans hcall')
        rw [hphase] at hphase'
        cases hphase'
        rw [size_nth] at hfour hlevel ⊢
        obtain ⟨j, rfl⟩ : ∃ j, i = j + 1 := by
          refine Nat.exists_eq_succ_of_ne_zero ?_
          rintro rfl
          exact absurd hfour (by decide)
        have hhalves := hroom j rfl ((hat _).mp hlevel) htext
        have hhalf : 2 ^ (j + 2) / 2 = 2 ^ (j + 1) := by
          rw [Nat.pow_succ, Nat.mul_div_cancel _ (by decide)]
        exact hhalf.symm ▸ Block.hi_nth_le.mpr hhalves
      · intro hall j hj hlevel htext
        subst hj
        have hreach := hall call _ text hcall hphase (by
          rw [size_nth]
          exact Nat.pow_le_pow_right (n := 2) (by decide) (Nat.le_add_left 2 j))
          (by rw [size_nth]; exact (hat _).mpr hlevel) htext
        have hhalf : 2 ^ (j + 2) / 2 = 2 ^ (j + 1) := by
          rw [Nat.pow_succ, Nat.mul_div_cancel _ (by decide)]
        rw [size_nth, hhalf] at hreach
        exact Block.hi_nth_le.mp hreach

/-! ### Runs -/

theorem Inv.step (h : w.Inv) (act : Act) (hstep : w.step act = some w') :
    w'.Inv ∧ (w.store.Halved → (w'.store.Halved ↔ w.Allowed act)) := by
  cases act with
  | note date text => exact h.note date text hstep
  | forget id => exact h.forget id hstep
  | read index => exact h.read index hstep
  | commit index => exact h.commit index hstep
  | nap id text =>
    cases hstep
    refine ⟨h.naps w.replies fun call hcall => ?_, fun hhalved => iff_of_true hhalved trivial⟩
    rcases mem_append.mp hcall with hold | hnew
    · exact .inl hold
    · obtain rfl := mem_singleton.mp hnew
      exact .inr ⟨trivial, fun _ => trivial⟩

theorem Inv.run {acts : List Act} {entryChars : Nat}
    (hrun : Transitions.run MemoryWorld.step (MemoryWorld.create entryChars) acts = some w) : w.Inv :=
  Transitions.run_invariant' (fun _ act _ h hstep => (h.step act hstep).1) (.create entryChars) hrun

/-- In every interleaving over a new store: the tree is closed under halves all along
exactly when every forget truncates whole bytes and no nap settles a block that its halves
do not reach over; a nap that no forget overlaps never does; and between any two
settlements of a block it is dropped. -/
theorem tree_contract (entryChars : Nat) (acts : List Act) :
    ((∀ pre w, pre <+: acts → Transitions.run step (create entryChars) pre = some w →
        w.store.Halved) ↔
      ∀ pre act w w', pre ++ [act] <+: acts →
        Transitions.run step (create entryChars) pre = some w → w.step act = some w' →
          w.Allowed act) ∧
    ∀ w, Transitions.run step (create entryChars) acts = some w →
      (∀ call ∈ w.naps, ∀ b text, call.phase = .put b text → call.overlapped = false →
        4 ≤ b.size → b.hi ≤ w.store.levelCount (b.size / 2) * (b.size / 2)) ∧
      OncePerDrop w.ledger := by
  have hempty : (create entryChars).store.Halved := halved_iff.mpr fun i => by
    simp [MemoryWorld.create, MemoryStore.create, levelCount, level, get?, Records.count]
  refine ⟨Transitions.along_iff (fun _ act _ h hstep => (Inv.step h act hstep).1)
    (fun _ act _ h hhalved hstep => (Inv.step h act hstep).2 hhalved) (.create entryChars) hempty,
    fun w hrun => ?_⟩
  have hinv := Inv.run hrun
  refine ⟨fun call hcall b text hphase hover => ?_, hinv.once⟩
  have hfresh := hinv.fresh call hcall hover
  rw [hphase] at hfresh
  exact hfresh

/-! ### A forget between the reads of a nap and its write -/

/-- Notes of one text, on a new store. -/
theorem run_notes {entryChars : Nat} {date : String} {text text' : JsString}
    {record : Nat → List UInt8} {n : Nat}
    (hentry : (MemoryStore.create entryChars).checkEntry text = .ok text')
    (hpad : ∀ i < n,
      pad ⟨(JsString.ofString s!"#{i} {date} ").units ++ text'.units⟩ LOG_REC = .ok (record i)) :
    Transitions.run step (create entryChars) (List.replicate n (.note date text)) = some
      { store := { entryChars, log := (List.range n).flatMap record, tree := [] }
        naps := []
        replies := (List.range n).map .saved
        ledger := [] } := by
  induction n with
  | zero => rfl
  | succ n ih =>
    have hlength : ∀ m ≤ n, ((List.range m).flatMap record).length = m * LOG_REC := by
      intro m hm
      induction m with
      | zero => rfl
      | succ m ihm =>
        rw [range_succ, flatMap_append, length_append, ihm (by omega),
          flatMap_singleton, length_pad (by decide) (hpad m (by omega)), Nat.succ_mul]
    rw [replicate_succ', Transitions.run_append]
    refine ⟨_, ih fun i hi => hpad i (Nat.lt_succ_of_lt hi), ?_⟩
    rw [Transitions.run_cons]
    refine ⟨_, step_note date text, ?_⟩
    have hwhole : Records.repair LOG_REC ((List.range n).flatMap record) =
        (List.range n).flatMap record := by
      rw [Records.repair, if_pos (by rw [hlength n (Nat.le_refl _)]; exact Nat.mul_mod_left _ _)]
    have hbase : Records.count LOG_REC ((List.range n).flatMap record) = n := by
      rw [Records.count, hlength n (Nat.le_refl _), Nat.mul_div_cancel _ (by decide)]
    have hnote : cmdNote { entryChars, log := (List.range n).flatMap record, tree := [] } date text =
        (.saved n, { entryChars, log := (List.range (n + 1)).flatMap record, tree := [] }) := by
      unfold cmdNote
      rw [show MemoryStore.checkEntry { entryChars, log := (List.range n).flatMap record, tree := [] }
        text = .ok text' from hentry]
      simp only [MemoryStore.append, hwhole, hbase, appendRecords, hpad n (Nat.lt_succ_self n)]
      simp [Except.map, range_succ]
    rw [hnote]
    simp [range_succ]

/-- A nap with no other command between its reads and its write. -/
def napAlone (b : Block) (reads : Nat) : List Act :=
  .nap b.blockName "y" :: (List.replicate reads (.read 0) ++ [.commit 0])

/-- All naps of 32 memories but the last, level by level. -/
def naps31 : List Act :=
  [1, 2, 3, 4].flatMap fun i =>
    (List.range (32 / 2 ^ i)).flatMap fun k => napAlone (.nth (2 ^ i) k) (i + 1)

/-- The nap of 0-31 reads the tree, a forget drops its first half, and the nap writes. -/
def forgetBetween : List Act :=
  .nap "0-31" "y" :: (List.replicate 6 (.read 0) ++ [.forget "0-15", .commit 0])

def noteDate : String := "2026-01-01"

def forgetDuringNap : List Act :=
  List.replicate 32 (.note noteDate "x") ++ (naps31 ++ forgetBetween)

/-- The text of a record. -/
def noteLine (i : Nat) : JsString :=
  ⟨(JsString.ofString s!"#{i} {noteDate} ").units ++ (JsString.ofString "x").units⟩

def noteRecord (i : Nat) : List UInt8 :=
  match pad (noteLine i) LOG_REC with
  | .ok record => record
  | .error _ => []

theorem pad_noteLine : ∀ i < 32, pad (noteLine i) LOG_REC = .ok (noteRecord i) := by
  decide +kernel

/-- The world after the notes. -/
def noted : MemoryWorld where
  store := { entryChars := 280, log := (List.range 32).flatMap noteRecord, tree := [] }
  naps := []
  replies := (List.range 32).map .saved
  ledger := []

theorem forgetDuringNap_unsettles_half :
    ∃ w, Transitions.run step (create 280) forgetDuringNap = some w ∧
      w.store.Settled ⟨0, 32⟩ ∧ ¬ w.store.Settled ⟨0, 16⟩ := by
  have hnotes : Transitions.run step (create 280) (List.replicate 32 (.note noteDate "x")) =
      some noted := run_notes rfl pad_noteLine
  have hrest : (Transitions.run step noted (naps31 ++ forgetBetween)).any
      (fun w => decide (w.store.Settled ⟨0, 32⟩ ∧ ¬ w.store.Settled ⟨0, 16⟩)) = true := by
    decide +kernel
  cases hrun : Transitions.run step noted (naps31 ++ forgetBetween) with
  | none =>
    rw [hrun] at hrest
    cases hrest
  | some w =>
    rw [hrun] at hrest
    exact ⟨w, Transitions.run_append.mpr ⟨noted, hnotes, hrun⟩, of_decide_eq_true hrest⟩

end MemoryWorld
end Harness
