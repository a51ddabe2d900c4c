-- SUMMARY: The due compressions of `memory-log/src/store.ts` with the wake command of `engine.ts`: how many are due, that the first can be built, and what settling one leaves due.
import Harness.Lib.Pages
import Harness.Memory.DropContract
import Harness.Memory.LogRecord
import Harness.Memory.TreeContract
import Harness.Session.Repair

/-!
# Waking

A wake renders one page of the memory as of the first `T` memories. It reads one state of the store.
-/

namespace Harness

open List

/-- Blocks of at most this many memories compress straight from the raw log. -/
def RAW_MAX : Nat := 16

/-- The budgets of a wake, as a configuration may set them. -/
structure MemorySizes where
  wakeLines : Nat
  partChars : Nat
  partLines : Nat
  wakeLines_pos : 0 < wakeLines
  partChars_pos : 0 < partChars
  partLines_pos : 0 < partLines

theorem defaultPartChars_pos : 0 < 20000 := by decide

/-! ## Texts -/

def plural (n : Nat) (word : String) : String :=
  if n = 1 then s!"1 {word}"
  else
    let stem := match word.toList.getLast? with
      | some 'y' => String.ofList (word.toList.dropLast) ++ "ie"
      | some 's' | some 'h' | some 'x' => word ++ "e"
      | _ => word
    s!"{n} {stem}s"

/-- `#<id> <date> <text>`. -/
def lineOf (e : MemoryLogEntry) : JsString :=
  let id := (e.id.map toString).getD "NaN"
  (s!"#{id} " : JsString) ++ e.date ++ (" " : JsString) ++ e.text

/-- `join('\n')`. -/
def unlines (lines : List JsString) : JsString := ⟨List.intercalate [10] (lines.map JsString.units)⟩

/-- A summary with the name of its block. -/
def summaryLine (b : Block) (summary : JsString) : JsString :=
  (s!"#{b.blockName} " : JsString) ++ summary

def blankSummary (b : Block) : String :=
  s!"The summary of #{b.blockName} is blank. Run: forget {b.blockName}"

namespace MemoryStore

variable (s : MemoryStore)

/-! ## The due blocks -/

def due (T size : Nat) : List Block :=
  (List.range (T / size - s.levelCount size)).map fun i => Block.nth size (s.levelCount size + i)

/-- Blocks that can be built and have not been, smallest first; 0 is no limit. -/
def pending (T limit : Nat) : List Block :=
  let todo := (levelsFrom 2 T).flatMap (s.due T)
  if limit = 0 then todo else todo.take limit

/-- How many blocks `pending` would list, without listing them. -/
def pendingCount (T : Nat) : Nat :=
  ((levelsFrom 2 T).map fun size => T / size - s.levelCount size).sum

def halfLine (half : Block) : Except String JsString :=
  match s.treeGet half with
  | .error e => .error e
  | .ok none => .error (blankSummary half)
  | .ok (some summary) => .ok (("  " : JsString) ++ summaryLine half summary)

/-- What a block is compressed from: its memories, or the summaries of its halves. -/
def napBody (b : Block) : Except String JsString :=
  if b.size ≤ RAW_MAX then
    .ok (unlines ((s.logSlice b.lo b.hi).map fun e => ("  " : JsString) ++ lineOf e))
  else
    match s.halfLine b.left, s.halfLine b.right with
    | .ok left, .ok right => .ok (unlines [left, right])
    | .error e, _ | .ok _, .error e => .error e

/-- The instruction asking the agent to compress one block into one line. -/
def napPrompt (b : Block) (left : Nat) : Except String JsString :=
  (s.napBody b).map fun body =>
    let tail := if left = 0 then ""
      else if left = 1 then "\n1 compression remains after this one."
      else s!"\n{left} compressions remain after this one."
    (s!"Compress memories #{b.blockName} into one line of at most {s.entryChars} bytes.\n" ++
      "Keep what has lasting effect, drop what does not. Invent nothing.\n\n" : String) ++
      body ++ (s!"\n{tail}\nRun: nap {b.blockName} \"<your line>\"" : JsString)

/-- The next due compression's instruction, `none` when the tree is settled. -/
def nextNap (T : Nat) : Except String (Option JsString) :=
  match s.pending T 1 with
  | [] => .ok none
  | next :: _ => (s.napPrompt next (s.pendingCount T - 1)).map some

end MemoryStore

/-! ## The command -/

inductive WakeReply where
  | noMemories
  /-- A block of the document is not compressed yet: how many are due, and the request for the first. -/
  | blocked (block : Block) (due : Nat) (nap : JsString)
  /-- Part `k` of `count`. The last part brings the request for the next compression, if one is due. -/
  | part (k count T : Nat) (lines : List JsString) (nap : Option JsString)

namespace WakeReply

def text : WakeReply → JsString
  | noMemories => "No memories yet. Record the first with: note \"<one line>\"\nYou are awake."
  | blocked block due nap =>
    let compressions := plural due "compression"
    (s!"Cannot wake: the memory context needs #{block.blockName}, which is not compressed yet.\n" ++
      s!"Do the {compressions} below, then run wake again.\n\n" : String) ++ nap
  | part k count T lines nap =>
    let memories := plural T "memory"
    let head := if 1 < count then
        s!"Your memory, part {k} of {count}, oldest first ({memories}).\n" else ""
    let foot : JsString := if k < count then s!"\nNot awake yet. Run: wake {k + 1} {T}"
      else match nap with
        | none => "\nYou are awake."
        | some nap => ("\nYou are awake.\n\n" : JsString) ++ nap
    (head : JsString) ++ unlines lines ++ foot

end WakeReply

namespace MemoryStore

variable (s : MemoryStore) (sizes : MemorySizes)

/-- The line of a block of the document, or the reply that it is missing. -/
def wakeLine (T : Nat) (b : Block) : Except String (WakeReply ⊕ JsString) :=
  if b.size = 1 then (s.logGet b.lo).map fun e => .inr (lineOf e)
  else
    match s.treeGet b with
    | .error e => .error e
    | .ok (some summary) => .ok (.inr (summaryLine b summary))
    | .ok none =>
      match s.nextNap T with
      | .error e => .error e
      | .ok (some nap) => .ok (.inl (.blocked b (s.pendingCount T) nap))
      | .ok none =>
        match s.treeGet b with
        | .error e => .error e
        | .ok none => .error (blankSummary b)
        | .ok (some summary) => .ok (.inr (summaryLine b summary))

/-- The loop of `cmdWake` over the blocks of the document. -/
def wakeLines (T : Nat) : List Block → Except String (WakeReply ⊕ List JsString)
  | [] => .ok (.inr [])
  | b :: blocks =>
    match s.wakeLine T b with
    | .error e => .error e
    | .ok (.inl reply) => .ok (.inl reply)
    | .ok (.inr line) =>
      match wakeLines T blocks with
      | .ok (.inr lines) => .ok (.inr (line :: lines))
      | other => other

/-- Split the document into parts that survive any output cap. -/
def paginate (lines : List JsString) : List (List JsString) :=
  Pages.split (fun line => line.byteLength + 1) sizes.partLines sizes.partChars lines

/-- Part `k` of the document over `T` memories. -/
def wakePart (k T : Nat) : Except String WakeReply :=
  if T = 0 then .ok .noMemories
  else
    match s.wakeLines T (cover T sizes.wakeLines) with
    | .error e => .error e
    | .ok (.inl reply) => .ok reply
    | .ok (.inr lines) =>
      let parts := paginate sizes lines
      if k < 1 ∨ parts.length < k then
        let has := plural parts.length "part"
        .error s!"No part {k}: the memory has {has}. Run: wake"
      else
        let lines := parts.getD (k - 1) []
        if k < parts.length then .ok (.part k parts.length T lines none)
        else (s.nextNap T).map fun nap => .part k parts.length T lines nap

/-- `/^\d+$/`. -/
def isDigits (arg : JsString) : Bool := arg.units ≠ [] && arg.units.all isDigit

/-- `wake [part [T]]`. -/
def cmdWake (args : List JsString) : Except String WakeReply :=
  let now := s.logLength
  if !args.all isDigits then .error "usage: wake [part [T]]"
  else
    match args with
    | [] => s.wakePart sizes 1 now
    | [k] => s.wakePart sizes (digitsValue k.units) now
    | [k, T] =>
      let T := digitsValue T.units
      let holds := plural now "memory"
      if now < T then .error s!"T={T}, but the log holds {holds}. Run: wake"
      else s.wakePart sizes (digitsValue k.units) T
    | _ => .error "usage: wake [part [T]]"

variable {s : MemoryStore} {T : Nat}

/-! ## Counting -/

/-- `pendingCount` counts what `pending` lists. -/
theorem length_pending (s : MemoryStore) (T : Nat) : (s.pending T 0).length = s.pendingCount T := by
  rw [pending, pendingCount, if_pos rfl, length_flatMap]
  simp only [due, length_map, length_range]

theorem pending_limit (s : MemoryStore) (T limit : Nat) (hlimit : limit ≠ 0) :
    s.pending T limit = (s.pending T 0).take limit := by
  rw [pending, pending, if_neg hlimit, if_pos rfl]

theorem due_eq_nil_iff {size : Nat} : s.due T size = [] ↔ T / size ≤ s.levelCount size := by
  rw [due, map_eq_nil_iff, range_eq_nil]
  omega

/-- Nothing is due when every level is complete. -/
theorem pending_eq_nil_iff :
    s.pending T 0 = [] ↔ ∀ i, 2 ^ (i + 1) ≤ T → T / 2 ^ (i + 1) ≤ s.levelCount (2 ^ (i + 1)) := by
  rw [pending, if_pos rfl, flatMap_eq_nil_iff]
  constructor
  · intro h i hi
    exact due_eq_nil_iff.mp (h _ ((mem_levelsFrom (by decide)).mpr ⟨i, Nat.pow_succ', hi⟩))
  intro h size hsize
  obtain ⟨i, rfl, hi⟩ := (mem_levelsFrom (by decide)).mp hsize
  rw [← Nat.pow_succ'] at hi ⊢
  exact due_eq_nil_iff.mpr (h i hi)

/-! ## The first due block -/

/-- A block that can be compressed next: both halves are single memories, or are compressed. -/
structure Buildable (s : MemoryStore) (T : Nat) (b : Block) : Prop where
  aligned : ∃ i k, b = .nth (2 ^ (i + 1)) k
  inside : b.hi ≤ T
  due : ¬ s.Settled b
  halves : (b.left.size = 1 ∧ b.right.size = 1) ∨ (s.Settled b.left ∧ s.Settled b.right)

theorem head_flatMap {α β : Type} {f : α → List β} {xs : List α} {y : β}
    (h : (xs.flatMap f).head? = some y) :
    ∃ i, ∃ hi : i < xs.length, (f xs[i]).head? = some y ∧ ∀ j, ∀ hj : j < i, f xs[j] = [] := by
  induction xs with
  | nil => cases h
  | cons x xs ih =>
    rw [flatMap_cons] at h
    cases hx : f x with
    | nil =>
      rw [hx, nil_append] at h
      obtain ⟨i, hi, hfirst, hbefore⟩ := ih h
      refine ⟨i + 1, Nat.succ_lt_succ hi, hfirst, fun j hj => ?_⟩
      cases j with
      | zero => exact hx
      | succ j => exact hbefore j (Nat.lt_of_succ_lt_succ hj)
    | cons z zs =>
      rw [hx] at h
      exact ⟨0, Nat.succ_pos _, by simpa [hx] using h, fun j hj => absurd hj (Nat.not_lt_zero j)⟩

/-- The first due block is the next of its level, and all levels below are complete. -/
theorem pending_head {next : Block} (h : (s.pending T 0).head? = some next) :
    ∃ i, next = .nth (2 ^ (i + 1)) (s.levelCount (2 ^ (i + 1))) ∧ next.hi ≤ T ∧
      ∀ j < i, T / 2 ^ (j + 1) ≤ s.levelCount (2 ^ (j + 1)) := by
  obtain ⟨m, hlevels, hle, -⟩ := levelsFrom_eq (show 0 < 2 by decide) T
  rw [pending, if_pos rfl] at h
  obtain ⟨i, hi, hfirst, hbefore⟩ := head_flatMap h
  have hat : ∀ j (hj : j < (levelsFrom 2 T).length), (levelsFrom 2 T)[j] = 2 ^ (j + 1) := fun j hj => by
    simp only [hlevels, getElem_map, getElem_range, Nat.pow_succ']
  have hroom : s.levelCount (2 ^ (i + 1)) < T / 2 ^ (i + 1) := by
    refine Nat.lt_of_not_le fun hdone => ?_
    rw [hat i hi, due_eq_nil_iff.mpr hdone] at hfirst
    cases hfirst
  have hnext : next = .nth (2 ^ (i + 1)) (s.levelCount (2 ^ (i + 1))) := by
    rw [hat i hi, due, head?_map, head?_range, if_neg (by omega)] at hfirst
    exact (Option.some.inj hfirst).symm
  refine ⟨i, hnext, ?_, fun j hj => ?_⟩
  · rw [hnext]
    exact (Nat.le_div_iff_mul_le (Nat.two_pow_pos _)).mp hroom
  · rw [← hat j (by omega)]
    exact due_eq_nil_iff.mp (hbefore j hj)

/-- The blocks are due bottom up: the first one can be built. -/
theorem pending_head_buildable {next : Block} (h : (s.pending T 0).head? = some next) :
    s.Buildable T next := by
  obtain ⟨i, hnext, hinside, hbelow⟩ := pending_head h
  refine ⟨⟨i, _, hnext⟩, hinside, ?_, ?_⟩
  · rw [hnext, settled_nth (Nat.two_pow_pos _)]
    exact Nat.lt_irrefl _
  rw [hnext, Block.left_nth, Block.right_nth]
  cases i with
  | zero => exact .inl ⟨Block.size_nth _ _, Block.size_nth _ _⟩
  | succ i =>
    have hreach := hi_le_of_level (hnext ▸ hinside) (hbelow i (Nat.lt_succ_self i))
    have hcount := Block.hi_nth_le.mp hreach
    rw [settled_nth (Nat.two_pow_pos _), settled_nth (Nat.two_pow_pos _)]
    exact .inr ⟨by omega, by omega⟩

/-! ## Settling a block -/

/-- A sum in which one term is one less. -/
theorem sum_map_pred {sizes : List Nat} (hnodup : sizes.Nodup) {f g : Nat → Nat} {size : Nat}
    (hmem : size ∈ sizes) (hsize : f size + 1 = g size) (hother : ∀ n, n ≠ size → f n = g n) :
    (sizes.map f).sum + 1 = (sizes.map g).sum := by
  obtain ⟨pre, post, rfl⟩ := append_of_mem hmem
  have hne : ∀ n, n ∈ pre ∨ n ∈ post → n ≠ size := by
    rintro n hn rfl
    rw [nodup_middle, nodup_cons, mem_append] at hnodup
    exact hnodup.1 hn
  have hpre : pre.map f = pre.map g := map_congr_left fun n hn => hother n (hne n (.inl hn))
  have hpost : post.map f = post.map g := map_congr_left fun n hn => hother n (hne n (.inr hn))
  simp only [map_append, map_cons, sum_append, sum_cons, hpre, hpost]
  omega

theorem treePut_pendingCount {i k : Nat} {text : JsString}
    (hinside : (Block.nth (2 ^ (i + 1)) k).hi ≤ T)
    (hok : (s.treePut (.nth (2 ^ (i + 1)) k) text).1 = .ok true) :
    (s.treePut (.nth (2 ^ (i + 1)) k) text).2.pendingCount T + 1 = s.pendingCount T := by
  have hpow : 0 < 2 ^ (i + 1) := Nat.two_pow_pos _
  obtain ⟨-, htrue, hcount⟩ := s.treePut_spec (.nth (2 ^ (i + 1)) k) text
  obtain ⟨hat, hshort⟩ := htrue.mp hok
  rw [Block.size_nth] at hat hcount
  have hk : s.levelCount (2 ^ (i + 1)) = k := Nat.eq_of_mul_eq_mul_right hpow hat
  have hroom : k < T / 2 ^ (i + 1) := (Nat.le_div_iff_mul_le hpow).mpr hinside
  have hmem : 2 ^ (i + 1) ∈ levelsFrom 2 T := by
    refine (mem_levelsFrom (by decide)).mpr ⟨i, Nat.pow_succ', ?_⟩
    calc 2 ^ (i + 1) ≤ (k + 1) * 2 ^ (i + 1) := Nat.le_mul_of_pos_left _ (Nat.succ_pos k)
      _ ≤ T := hinside
  refine sum_map_pred (nodup_levelsFrom (by decide) T) hmem ?_ fun n hn => ?_
  · rw [hcount, if_pos ⟨rfl, hat, hshort⟩]
    omega
  · rw [hcount, if_neg fun h => hn h.1]

end MemoryStore

end Harness
