-- SUMMARY: The note, nap and forget commands of `memory-log/src/engine.ts`, interleaved over one store.
import Harness.Memory.Store
import Harness.Lib.Transitions

/-!
# The memory commands

A command takes the store lock for its one write. What `nap` reads before it waits for the
lock it reads file by file, and other commands may run between any two of these reads.
-/

namespace Harness

/-- What a command answers. The request for the next compression that `note` and `nap` add
to their answer is left out. -/
inductive MemoryReply where
  | saved (id : Nat)
  | settled (b : Block)
  | nothingLeft
  | alreadySettled (b : Block)
  /-- The block was settled or forgotten meanwhile. -/
  | meanwhile (b : Block)
  | forgot (gone : List Block)
  | error (message : String)

/-- Where `nap <lo>-<hi> "<line>"` stands. -/
inductive NapAt where
  /-- Before it reads the length of the log. -/
  | start (id text : JsString)
  /-- In `pending(T, 1)`, before it reads the level file of a size. -/
  | pending (b : Block) (text : JsString) (T size : Nat)
  /-- Before it reads the summary of a block that is not the next one. -/
  | compare (b next : Block)
  /-- Waiting for the lock. -/
  | put (b : Block) (text : JsString)

structure NapCall where
  phase : NapAt
  /-- Whether a `forget` ran since the call started. -/
  overlapped : Bool

/-- What happens to the blocks of a tree. -/
inductive TreeEvent where
  | settled (b : Block)
  | dropped (b : Block)
  deriving DecidableEq

def TreeEvent.block : TreeEvent → Block
  | .settled b | .dropped b => b

/-- What a nap records of its answer. -/
def MemoryReply.events : MemoryReply → List TreeEvent
  | .settled b => [.settled b]
  | _ => []

/-- `cmdNote` up to the request for the next compression. -/
def cmdNote (s : MemoryStore) (date : String) (text : JsString) : MemoryReply × MemoryStore :=
  match s.checkEntry text with
  | .error e => (.error e, s)
  | .ok text =>
    match s.append [(date, text)] with
    | (.error e, s) => (.error e, s)
    | (.ok i, s) => (.saved i, s)

/-- `cmdForget`. -/
def cmdForget (s : MemoryStore) (id : JsString) : MemoryReply × MemoryStore :=
  match parseBlockId id with
  | .error e => (.error e, s)
  | .ok b =>
    match s.treeDrop b with
    | (.error e, s) => (.error e, s)
    | (.ok [], s) => (.error s!"No summary at {id}.", s)
    | (.ok gone, s) => (.forgot gone, s)

/-- The next read of `cmdNap`: where it leads, or how the command ends. -/
def NapAt.read (s : MemoryStore) : NapAt → Option (NapAt ⊕ MemoryReply)
  | .start id text =>
    match parseBlockId id with
    | .error e => some (.inr (.error e))
    | .ok b => some (.inl (.pending b text s.logLength 2))
  | .pending b text T size =>
    if size ≤ T then
      let have_ := s.levelCount size
      if have_ < T / size then
        let next := Block.nth size have_
        if b ≠ next then some (.inl (.compare b next))
        else
          match s.checkEntry text with
          | .error e => some (.inr (.error e))
          | .ok text => some (.inl (.put b text))
      else some (.inl (.pending b text T (size * 2)))
    else some (.inr .nothingLeft)
  | .compare b next =>
    match s.treeGet b with
    | .error e => some (.inr (.error e))
    | .ok (some _) => some (.inr (.alreadySettled b))
    | .ok none => some (.inr (.error (s!"Wrong block: {b.blockName}. Blocks are built in order; " ++
        s!"the next is {next.blockName}. Run: nap")))
  | .put _ _ => none

/-- `cmdNap` once it has the lock. -/
def NapAt.commit (s : MemoryStore) : NapAt → Option (MemoryReply × MemoryStore)
  | .put b text =>
    match s.treePut b text with
    | (.error e, s) => some (.error e, s)
    | (.ok false, s) => some (.meanwhile b, s)
    | (.ok true, s) => some (.settled b, s)
  | _ => none

/-! ## Interleavings -/

/-- One store among the commands of several sessions. -/
structure MemoryWorld where
  store : MemoryStore
  naps : List NapCall
  replies : List MemoryReply
  /-- The blocks that were settled and dropped, in order. -/
  ledger : List TreeEvent

namespace MemoryWorld

inductive Act where
  | note (date : String) (text : JsString)
  | forget (id : JsString)
  | nap (id text : JsString)
  /-- A suspended nap does its next read. -/
  | read (call : Nat)
  /-- A suspended nap gets the lock. -/
  | commit (call : Nat)

def create (entryChars : Nat) : MemoryWorld where
  store := .create entryChars
  naps := []
  replies := []
  ledger := []

/-- The blocks of `s` that `s'` no longer holds. -/
def lost (s s' : MemoryStore) : List Block :=
  (OrderedMap.keys s.tree).flatMap fun size =>
    ((List.range (s.levelCount size)).filter fun k => s'.levelCount size ≤ k).map (Block.nth size)

def step (w : MemoryWorld) : Act → Option MemoryWorld
  | .note date text =>
    let (reply, store) := cmdNote w.store date text
    some { w with store, replies := w.replies ++ [reply] }
  | .forget id =>
    let (reply, store) := cmdForget w.store id
    some { w with
      store
      naps := w.naps.map ({ · with overlapped := true })
      replies := w.replies ++ [reply]
      ledger := w.ledger ++ (lost w.store store).map .dropped }
  | .nap id text =>
    some { w with naps := w.naps ++ [{ phase := .start id text, overlapped := false }] }
  | .read index => w.naps[index]?.bind fun call =>
    (call.phase.read w.store).map fun
      | .inl phase => { w with naps := w.naps.set index { call with phase } }
      | .inr reply =>
        { w with naps := w.naps.eraseIdx index, replies := w.replies ++ [reply] }
  | .commit index => w.naps[index]?.bind fun call =>
    (call.phase.commit w.store).map fun (reply, store) =>
      { w with
        store
        naps := w.naps.eraseIdx index
        replies := w.replies ++ [reply]
        ledger := w.ledger ++ reply.events }

end MemoryWorld
end Harness
