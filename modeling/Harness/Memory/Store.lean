-- SUMMARY: The log and the summary tree of `memory-log/src/store.ts`, as files of bytes.
import Harness.Json.Utf8
import Harness.Lib.OrderedMap
import Harness.Lib.Records

/-!
# The memory store

One permanent memory: an append-only log and its rebuildable summary tree. A level file
`TREE/<n>` holds the summaries of the blocks of `n` memories, a dense prefix of them. A
missing file reads as an empty one.
-/

namespace Harness

open OrderedMap

/-- Byte length of one `LOG.txt` record, newline included. -/
def LOG_REC : Nat := 320

/-- Byte length of one `TREE` level record, newline included. -/
def TREE_REC : Nat := 288

/-- An aligned power-of-two range of memories, `[lo, hi)`. -/
structure Block where
  lo : Nat
  hi : Nat
  deriving DecidableEq

namespace Block

def size (b : Block) : Nat := b.hi - b.lo

/-- The `k`-th block of a size. -/
def nth (size k : Nat) : Block := ⟨k * size, (k + 1) * size⟩

/-- Print a block the way wake and nap prompts name it: inclusive `hi`. -/
def blockName (b : Block) : String := s!"{b.lo}-{b.hi - 1}"

@[simp] theorem size_nth (size k : Nat) : (nth size k).size = size := by
  simp [nth, Block.size, Nat.add_mul]

theorem nth_injective {size k k' : Nat} (hsize : 0 < size) (h : nth size k = nth size k') : k = k' :=
  Nat.eq_of_mul_eq_mul_right hsize (congrArg Block.lo h)

end Block

def isDigit (u : UInt16) : Bool := 48 ≤ u.toNat && u.toNat ≤ 57

/-- `Number` of a run of digits. -/
def digitsValue (ds : List UInt16) : Nat := ds.foldl (fun n u => n * 10 + (u.toNat - 48)) 0

/-- `/^(\d+)-(\d+)$/`. -/
def matchBlockId (s : JsString) : Option (Nat × Nat) :=
  let lo := s.units.takeWhile isDigit
  match s.units.dropWhile isDigit with
  | 45 :: hi =>
    if lo ≠ [] ∧ hi ≠ [] ∧ hi.all isDigit then some (digitsValue lo, digitsValue hi) else none
  | _ => none

/-- `n & (n - 1)` is zero; the operands are taken to 32 bits. -/
def isPowerOfTwo32 (n : Nat) : Bool := (n % 2 ^ 32) &&& ((n - 1) % 2 ^ 32) = 0

/-- Parse `<lo>-<hi>` as wake prints it. -/
def parseBlockId (s : JsString) : Except String Block :=
  match matchBlockId s with
  | none => .error s!"'{s}' is not a block id. Copy it from wake output."
  | some (lo, last) =>
    let n := last + 1 - lo
    if n < 2 || !isPowerOfTwo32 n || lo % n ≠ 0 then
      .error s!"{s} is not a block. Copy the id printed by wake, like 16-31."
    else .ok ⟨lo, last + 1⟩

/-- Right-pad text to a full record, asserting it fits. -/
def pad (text : JsString) (width : Nat) : Except String (List UInt8) :=
  let b := text.utf8
  if width - 1 < b.length then
    .error s!"Too long: {b.length} bytes. The record holds {width - 1}."
  else .ok (b ++ List.replicate (width - b.length - 1) 0x20 ++ [0x0A])

theorem length_pad {text : JsString} {width : Nat} (hwidth : 0 < width) {record : List UInt8}
    (h : pad text width = .ok record) : record.length = width := by
  unfold pad at h
  dsimp only at h
  split at h
  · cases h
  cases h
  rw [List.length_append, List.length_append, List.length_replicate, List.length_singleton]
  omega

structure MemoryStore where
  /-- The longest one memory or summary may be, in UTF-8 bytes. -/
  entryChars : Nat
  log : List UInt8
  tree : OrderedMap Nat (List UInt8)

namespace MemoryStore

variable (s : MemoryStore)

/-- An empty store. -/
def create (entryChars : Nat) : MemoryStore := { entryChars, log := [], tree := [] }

/-- How many memories the log holds. -/
def logLength : Nat := Records.count LOG_REC s.log

/-- One level file of the summary tree. -/
def level (size : Nat) : List UInt8 := (get? s.tree size).getD []

/-- How many records a level file holds. -/
def levelCount (size : Nat) : Nat := Records.count TREE_REC (s.level size)

def setLevel (size : Nat) (file : List UInt8) : MemoryStore :=
  { s with tree := set s.tree size file }

/-- Validate one memory or summary line, trimming first. -/
def checkEntry (text : JsString) : Except String JsString :=
  let text := text.trim
  if text.units = [] then .error "Empty. A memory is one line of text."
  else if 10 ∈ text.units || 13 ∈ text.units then
    .error (s!"{text.units.count 10 + 1} lines. A memory is one line: " ++
      "merge them, or note them separately.")
  else if s.entryChars < text.byteLength then
    .error (s!"Too long: {text.byteLength} bytes, limit {s.entryChars}. " ++
      "Accented characters cost more than 1 byte. Compress it further.")
  else .ok text

/-- The records of an append, written one after the other until one does not fit. -/
def appendRecords (base : Nat) (log : List UInt8) : List (String × JsString) →
    Except String Unit × List UInt8
  | [] => (.ok (), log)
  | (date, text) :: items =>
    match pad ⟨(JsString.ofString s!"#{base} {date} ").units ++ text.units⟩ LOG_REC with
    | .error e => (.error e, log)
    | .ok record => appendRecords (base + 1) (log ++ record) items

/-- Append memories; the result is the first id used. -/
def append (items : List (String × JsString)) : Except String Nat × MemoryStore :=
  let log := Records.repair LOG_REC s.log
  let base := Records.count LOG_REC log
  let (result, log) := appendRecords base log items
  (result.map fun _ => base, { s with log })

/-- The summary of a block, `none` when it is not built yet. -/
def treeGet (b : Block) : Except String (Option JsString) :=
  let record := ((s.level b.size).drop (b.lo / b.size * TREE_REC)).take TREE_REC
  let text := if record.length = TREE_REC then (JsString.ofUtf8 record).trimEnd else ⟨[]⟩
  if text.units = [] then .ok none
  else if 0xFFFD ∈ text.units then
    .error s!"The summary of #{b.blockName} is corrupt. Forget it so the next nap rebuilds it."
  else .ok (some text)

/-- Write a block, when the level file ends where its record goes. -/
def treePut (b : Block) (text : JsString) : Except String Bool × MemoryStore :=
  let size := b.size
  let file := Records.repair TREE_REC (s.level size)
  -- the count is compared with the quotient `lo / size`, which need not be whole
  if Records.count TREE_REC file * size ≠ b.lo then (.ok false, s.setLevel size file)
  else
    match pad text TREE_REC with
    | .error e => (.error e, s.setLevel size file)
    | .ok record => (.ok true, s.setLevel size (file ++ record))

/-- The sizes `size`, `2 * size`, `4 * size` and so on up to `T`. -/
def levelsFrom (size T : Nat) : List Nat :=
  ((List.range (T + 1)).map (size * 2 ^ ·)).takeWhile (· ≤ T)

/-- The loop of `treeDrop` over the levels. `truncateSync` takes only a whole number of
bytes and throws on any other. -/
def treeDropLevels (lo : Nat) : List Nat → List Block → MemoryStore →
    Except String (List Block) × MemoryStore
  | [], gone, s => (.ok gone, s)
  | size :: sizes, gone, s =>
    let n := s.levelCount size
    if lo < n * size then
      if size ∣ lo * TREE_REC then
        treeDropLevels lo sizes
          (gone ++ (List.range (n - lo / size)).map fun i => ⟨lo + i * size, lo + (i + 1) * size⟩)
          (s.setLevel size ((s.level size).take (lo * TREE_REC / size)))
      else (.error "The value of \"len\" is out of range. It must be an integer.", s)
    else treeDropLevels lo sizes gone s

/-- Forget a block and every block built from it, by truncating each level back to it. -/
def treeDrop (b : Block) : Except String (List Block) × MemoryStore :=
  treeDropLevels b.lo (levelsFrom b.size s.logLength) [] s

/-! ### Specifications -/

@[simp] theorem logLength_setLevel (size : Nat) (file : List UInt8) :
    (s.setLevel size file).logLength = s.logLength := rfl

theorem levelCount_setLevel (size : Nat) (file : List UInt8) (size' : Nat) :
    (s.setLevel size file).levelCount size' =
      if size' = size then Records.count TREE_REC file else s.levelCount size' := by
  unfold levelCount level setLevel
  dsimp only
  rw [get?_set]
  split <;> simp_all

theorem levelCount_append (items : List (String × JsString)) (size : Nat) :
    (s.append items).2.levelCount size = s.levelCount size := rfl

theorem count_le_appendRecords (base : Nat) (log : List UInt8) (items : List (String × JsString)) :
    Records.count LOG_REC log ≤ Records.count LOG_REC (appendRecords base log items).2 := by
  induction items generalizing base log with
  | nil => exact Nat.le_refl _
  | cons item items ih =>
    obtain ⟨date, text⟩ := item
    unfold appendRecords
    cases hpad : pad ⟨(JsString.ofString s!"#{base} {date} ").units ++ text.units⟩ LOG_REC with
    | error e => exact Nat.le_refl _
    | ok record =>
      refine Nat.le_trans ?_ (ih (base + 1) (log ++ record))
      exact Nat.div_le_div_right (by rw [List.length_append]; exact Nat.le_add_right _ _)

theorem logLength_le_append (items : List (String × JsString)) :
    s.logLength ≤ (s.append items).2.logLength := by
  have hrepair : Records.count LOG_REC (Records.repair LOG_REC s.log) = s.logLength :=
    Records.count_repair (by decide) _
  exact hrepair ▸ count_le_appendRecords _ _ items

end MemoryStore
end Harness
