-- SUMMARY: The incremental balance cache of `compaction/src/tool-pairing.ts`, and that it always is the rebuilt one.
import Harness.Compaction.GuardedSession
import Harness.Lib.OrderedMap

/-!
# The balance cache

A session's cache describes one surface generation. While no replacement lands, the surface
only grows at its end, so the cache describes a prefix of it and is extended by the rest.
-/

namespace Harness

open List OrderedMap

/-- Incremental balance state for one session surface generation. -/
structure BalanceCache where
  generation : Nat
  cutBalanced : List Bool
  /-- Current surface position of each event seq. -/
  indexBySeq : OrderedMap Nat Nat
  /-- In-progress tool-call count after the processed surface tail. -/
  inProgressToolCalls : Int
  deriving DecidableEq

namespace BalanceCache

/-- The cuts after each of the surface sequences, and the count after the last. -/
def pendingCuts (events : List SessionEvent) (inProgressToolCalls : Int) :
    List Nat → Except String (List Bool × Int)
  | [] => .ok ([], inProgressToolCalls)
  | seq :: seqs =>
    match ToolPairing.eventForSeq events seq with
    | .error e => .error e
    | .ok event =>
      let count := inProgressToolCalls + ToolPairing.eventDelta event
      if count < 0 then
        .error s!"tool-pairing balance: tool/result at surface seq {seq} has no matching tool-call (corrupt surface)"
      else
        (pendingCuts events count seqs).map fun (cuts, last) => ((count == 0) :: cuts, last)

/-- `seqs.forEach((seq, offset) => index.set(seq, position + offset))`. -/
def setPositions (index : OrderedMap Nat Nat) (position : Nat) : List Nat → OrderedMap Nat Nat
  | [] => index
  | seq :: seqs => setPositions (OrderedMap.set index seq position) (position + 1) seqs

/-- Fold surface sequences not yet in the cache into its balance state. -/
def extendCache (events : List SessionEvent) (cache : BalanceCache) (seqs : List Nat) :
    Except String BalanceCache :=
  let processed := cache.cutBalanced.length - 1
  let tail := seqs.drop processed
  -- nothing is stored before the whole tail is validated
  (pendingCuts events cache.inProgressToolCalls tail).map fun (cuts, last) =>
    { cache with
      indexBySeq := setPositions cache.indexBySeq processed tail
      cutBalanced := cache.cutBalanced ++ cuts
      inProgressToolCalls := last }

/-- The empty-surface state, whose single leading cut is trivially balanced. -/
def empty (generation : Nat) : BalanceCache :=
  { generation, cutBalanced := [true], indexBySeq := [], inProgressToolCalls := 0 }

/-- Balance of the cut at a sequence's position plus `offset`. -/
def cutBalance (cache : BalanceCache) (seq offset : Nat) : Except String Bool :=
  match (get? cache.indexBySeq seq).bind fun index => cache.cutBalanced[index + offset]? with
  | some balanced => .ok balanced
  | none => .error s!"tool-pairing balance: surface seq {seq} not found"

end BalanceCache

structure CachedSession where
  session : GuardedSession
  cached : Option BalanceCache

namespace CachedSession

variable (s : CachedSession)

/-- The cache that a fold of the whole surface builds. -/
def rebuild : Except String BalanceCache :=
  match s.session.session.nodes with
  | .error e => .error e
  | .ok nodes =>
    BalanceCache.extendCache s.session.events
      (.empty s.session.session.replaceGeneration) nodes

/-- Store what a fold built; one that threw leaves the stored cache as it is. -/
def store (built : Except String BalanceCache) : Except String BalanceCache × CachedSession :=
  match built with
  | .ok cache => (.ok cache, { s with cached := some cache })
  | .error e => (.error e, s)

/-- Return balance state synchronized with the current session surface. -/
def balanceCache : Except String BalanceCache × CachedSession :=
  match s.session.session.nodes with
  | .error e => (.error e, s)
  | .ok nodes =>
    let generation := s.session.session.replaceGeneration
    match s.cached with
    | none => s.store s.rebuild
    | some cached =>
      if cached.generation ≠ generation ∨ cached.cutBalanced.length - 1 > nodes.length then
        s.store s.rebuild
      else if cached.cutBalanced.length - 1 < nodes.length then
        s.store (cached.extendCache s.session.events nodes)
      else (.ok cached, s)

/-- `toolPairingBalancedBefore` with offset 0, `toolPairingBalancedAfter` with offset 1. -/
def balanceAt (seq offset : Nat) : Except String Bool × CachedSession :=
  match s.balanceCache with
  | (.ok cache, s) => (cache.cutBalance seq offset, s)
  | (.error e, s) => (.error e, s)

/-- What can happen to a session with a cache: an append, which may replace a surface range,
or a balance query. -/
inductive Op where
  | append (request : AppendRequest)
  | balance (seq offset : Nat)

def step : Op → CachedSession
  | .append request => { s with session := (s.session.append request).2 }
  | .balance seq offset => (s.balanceAt seq offset).2

end CachedSession

/-! ## Folding in parts -/

namespace BalanceCache

variable {events more : List SessionEvent} {pre rest : List Nat}

/-- A fold of an accepted surface does not see what the log gained since. -/
theorem pendingCuts_mono (hlt : ∀ seq ∈ rest, seq < events.length) (count : Int) :
    pendingCuts (events ++ more) count rest = pendingCuts events count rest := by
  induction rest generalizing count with
  | nil => rfl
  | cons seq rest ih =>
    obtain ⟨hseq, hrest⟩ := forall_mem_cons.1 hlt
    have hevent : ToolPairing.eventForSeq (events ++ more) seq
        = ToolPairing.eventForSeq events seq := by
      rw [ToolPairing.eventForSeq, ToolPairing.eventForSeq, getElem?_append_left hseq]
    rw [pendingCuts, pendingCuts, hevent]
    cases ToolPairing.eventForSeq events seq with
    | error e => rfl
    | ok event => simp only [ih hrest]

variable {count last : Int} {cuts : List Bool}

/-- What the fold does with the first sequence of a list that it accepts. -/
theorem pendingCuts_cons_ok {seq : Nat}
    (h : pendingCuts events count (seq :: rest) = .ok (cuts, last)) :
    ∃ event cuts', ToolPairing.eventForSeq events seq = .ok event
      ∧ ¬ count + ToolPairing.eventDelta event < 0
      ∧ pendingCuts events (count + ToolPairing.eventDelta event) rest = .ok (cuts', last)
      ∧ cuts = (count + ToolPairing.eventDelta event == 0) :: cuts' := by
  rw [pendingCuts] at h
  cases hevent : ToolPairing.eventForSeq events seq with
  | error e => simp [hevent] at h
  | ok event =>
    simp only [hevent] at h
    split at h
    case isTrue => cases h
    case isFalse hcount =>
      obtain ⟨folded, hrest, h⟩ := Except.bind_eq_ok.mp h
      simp only [hrest, Except.map, Except.ok.injEq, Prod.mk.injEq] at h
      obtain ⟨rfl, rfl⟩ := h
      exact ⟨event, folded.1, rfl, hcount, hrest, rfl⟩

/-- Folding two parts is folding the first and then, from its count, the second. -/
theorem pendingCuts_append (h : pendingCuts events count pre = .ok (cuts, last)) :
    pendingCuts events count (pre ++ rest)
      = (pendingCuts events last rest).map fun tail => (cuts ++ tail.1, tail.2) := by
  induction pre generalizing count cuts with
  | nil =>
    cases h
    rw [nil_append]
    cases pendingCuts events last rest <;> rfl
  | cons seq pre ih =>
    obtain ⟨event, cuts', hevent, hcount, hpre, rfl⟩ := pendingCuts_cons_ok h
    rw [cons_append, pendingCuts, hevent]
    simp only [if_neg hcount, ih hpre]
    cases pendingCuts events last rest <;> rfl

theorem length_pendingCuts
    (h : pendingCuts events count pre = .ok (cuts, last)) : cuts.length = pre.length := by
  induction pre generalizing count cuts with
  | nil => cases h; rfl
  | cons seq pre ih =>
    obtain ⟨event, cuts', -, -, hpre, rfl⟩ := pendingCuts_cons_ok h
    rw [length_cons, length_cons, ih hpre]

theorem setPositions_append (index : OrderedMap Nat Nat) (position : Nat) (pre rest : List Nat) :
    setPositions index position (pre ++ rest)
      = setPositions (setPositions index position pre) (position + pre.length) rest := by
  induction pre generalizing index position with
  | nil => rfl
  | cons seq pre ih =>
    rw [cons_append, setPositions, ih, setPositions, length_cons]
    congr 1
    omega

/-- A rebuilt cache is what its fold found. -/
theorem extendCache_empty (generation : Nat) (nodes : List Nat) :
    extendCache events (empty generation) nodes
      = (pendingCuts events 0 nodes).map fun folded =>
          { generation
            cutBalanced := true :: folded.1
            indexBySeq := setPositions [] 0 nodes
            inProgressToolCalls := folded.2 } := rfl

variable {generation : Nat} {nodes : List Nat}

/-- A rebuilt cache has one cut more than its surface has nodes. -/
theorem length_of_rebuilt {cache : BalanceCache}
    (h : extendCache events (empty generation) nodes = .ok cache) :
    cache.generation = generation ∧ cache.cutBalanced.length = nodes.length + 1 := by
  rw [extendCache_empty] at h
  obtain ⟨folded, hcuts, h⟩ := Except.bind_eq_ok.mp h
  simp only [hcuts, Except.map, Except.ok.injEq] at h
  subst h
  exact ⟨rfl, by simp [length_pendingCuts hcuts]⟩

/-- Extending a rebuilt cache is rebuilding it for the longer surface. -/
theorem extendCache_of_prefix {cache : BalanceCache}
    (h : extendCache events (empty generation) pre = .ok cache) :
    extendCache events cache (pre ++ rest)
      = extendCache events (empty generation) (pre ++ rest) := by
  obtain ⟨-, hlength⟩ := length_of_rebuilt h
  rw [extendCache_empty] at h
  obtain ⟨folded, hcuts, h⟩ := Except.bind_eq_ok.mp h
  simp only [hcuts, Except.map, Except.ok.injEq] at h
  rw [extendCache_empty, pendingCuts_append hcuts, extendCache, hlength, Nat.add_sub_cancel,
    drop_left, ← h, setPositions_append]
  cases pendingCuts events folded.2 rest <;> simp [Except.map]

/-! ## Looking a cut up -/

theorem cutsAfter_eq (count : Int) (nodes : List Nat) :
    ToolPairing.cutsAfter events count nodes = (pendingCuts events count nodes).map (·.1) := by
  induction nodes generalizing count with
  | nil => rfl
  | cons seq nodes ih =>
    rw [ToolPairing.cutsAfter, pendingCuts]
    cases ToolPairing.eventForSeq events seq with
    | error e => rfl
    | ok event =>
      simp only [bind, Except.bind, ih]
      split
      · rfl
      · cases pendingCuts events (count + ToolPairing.eventDelta event) nodes <;> rfl

/-- The positions of distinct sequences. -/
theorem get?_setPositions (hnodup : nodes.Nodup) (index : OrderedMap Nat Nat) (position seq : Nat) :
    get? (setPositions index position nodes) seq
      = ((nodes.idxOf? seq).map (position + ·)).or (get? index seq) := by
  induction nodes generalizing index position with
  | nil => simp [setPositions]
  | cons node nodes ih =>
    obtain ⟨hfresh, hnodup⟩ := nodup_cons.1 hnodup
    rw [setPositions, ih hnodup, OrderedMap.get?_set, idxOf?_cons]
    by_cases heq : node = seq
    · subst heq
      simp [idxOf?_eq_none_iff.2 hfresh]
    have hbeq : (node == seq) = false := by simpa using heq
    rw [hbeq, if_neg (Ne.symm heq)]
    cases nodes.idxOf? seq with
    | none => simp
    | some i => simp [Nat.add_comm, Nat.add_left_comm]

/-- What a rebuilt cache answers. -/
theorem cutBalance_rebuilt (hnodup : nodes.Nodup) (seq offset : Nat) :
    (match extendCache events (empty generation) nodes with
      | .ok cache => cache.cutBalance seq offset
      | .error e => .error e) = ToolPairing.cutBalance events nodes seq offset := by
  rw [extendCache_empty, ToolPairing.cutBalance, ToolPairing.cutBalanced, cutsAfter_eq]
  cases pendingCuts events 0 nodes with
  | error e => rfl
  | ok folded =>
    have hpositions := get?_setPositions hnodup [] 0 seq
    simp only [Nat.zero_add, Option.map_id', get?, find?_nil, Option.map_none,
      Option.or_none] at hpositions
    simp only [Except.map, cutBalance, get?, hpositions]
    rfl

end BalanceCache

/-! ## Runs -/

theorem SurfaceAccepts.nodes_nodup {log : List SessionEvent} {state : SurfaceFoldState}
    {replacements : List SurfaceFoldReplacement} (h : SurfaceAccepts log state replacements) :
    state.nodes.Nodup := by
  induction h with
  | nil => exact nodup_nil
  | @snoc log state replacements event plan haccepts hplan ih =>
    obtain ⟨-, hplan⟩ := planSurfaceEvent_ok hplan
    have hfresh : log.length ∉ state.nodes := fun hmem =>
      Nat.lt_irrefl _ (haccepts.nodes_lt _ hmem)
    cases plan with
    | none => exact ih
    | some plan =>
      cases plan with
      | append seq =>
        obtain ⟨rfl, -⟩ := hplan
        exact nodup_append.2 ⟨ih, nodup_singleton _, by
          intro a ha b hb heq
          rw [mem_singleton.1 hb] at heq
          exact hfresh (heq ▸ ha)⟩
      | replace p =>
        obtain ⟨hseq, -⟩ := hplan
        have hperm := List.splice_perm state.nodes [p.seq] p.startIdx
          (p.endIdx - p.startIdx + 1)
        have hall : ([p.seq] ++ state.nodes).Nodup := by
          rw [hseq]
          exact nodup_cons.2 ⟨hfresh, ih⟩
        exact (hperm.nodup_iff.2 hall).of_append_right

namespace CachedSession

/-- The session's log folds to `state`. -/
def Folds (s : CachedSession) (state : SurfaceFoldState) : Prop :=
  ∃ replacements, SurfaceAccepts s.session.events state replacements

variable {s : CachedSession} {state : SurfaceFoldState}

theorem Folds.nodes (h : s.Folds state) : s.session.session.nodes = .ok state.nodes := by
  obtain ⟨replacements, haccepts⟩ := h
  have hfold : foldSurface s.session.session.events = .ok _ := haccepts.foldSurface
  rw [SessionSpec.nodes, hfold]
  rfl

theorem Folds.generation (h : s.Folds state) :
    s.session.session.replaceGeneration = state.replaceGeneration := by
  obtain ⟨replacements, haccepts⟩ := h
  rw [SessionSpec.replaceGeneration, haccepts.generation, haccepts.replacements_count]

/-- The stored cache is the one rebuilt for some earlier state of the log. -/
structure Inv (s : CachedSession) : Prop where
  folds : ∃ state, s.Folds state
  stored : ∀ cache, s.cached = some cache → ∃ log state replacements,
    log <+: s.session.events ∧ SurfaceAccepts log state replacements
      ∧ BalanceCache.extendCache log (.empty state.replaceGeneration) state.nodes = .ok cache

/-- A cache of the current generation is extended to the rebuilt one. -/
theorem Inv.extend (h : s.Inv)
    (hfolds : s.Folds state) {cache : BalanceCache} (hcached : s.cached = some cache)
    (hgeneration : cache.generation = state.replaceGeneration) :
    cache.cutBalanced.length - 1 ≤ state.nodes.length
      ∧ cache.extendCache s.session.events state.nodes = s.rebuild
      ∧ (cache.cutBalanced.length - 1 = state.nodes.length → s.rebuild = .ok cache) := by
  obtain ⟨log, before, replacements, ⟨more, hmore⟩, haccepts, hbuilt⟩ := h.stored cache hcached
  obtain ⟨replacements', hnow⟩ := hfolds
  obtain ⟨hcache, hlength⟩ := BalanceCache.length_of_rebuilt hbuilt
  have hgrown : SurfaceAccepts (log ++ more) state replacements' := by rwa [hmore]
  obtain ⟨rest, hrest⟩ := (haccepts.grows hgrown).2 (hcache.symm.trans hgeneration)
  have hrebuild : s.rebuild = BalanceCache.extendCache s.session.events
      (.empty state.replaceGeneration) state.nodes := by
    rw [rebuild, Folds.nodes ⟨_, hnow⟩, Folds.generation ⟨_, hnow⟩]
  -- The earlier fold is the same over the log of today.
  have hbuilt : BalanceCache.extendCache s.session.events (.empty state.replaceGeneration)
      before.nodes = .ok cache := by
    rw [← hbuilt, BalanceCache.extendCache_empty, BalanceCache.extendCache_empty, ← hmore,
      BalanceCache.pendingCuts_mono haccepts.nodes_lt, ← hgeneration, hcache]
  rw [hrebuild, ← hrest]
  refine ⟨?_, BalanceCache.extendCache_of_prefix hbuilt, ?_⟩
  · rw [hlength, length_append]
    omega
  intro hsame
  have hnil : rest = [] := by
    rw [← length_eq_zero_iff]
    rw [hlength, length_append] at hsame
    omega
  rw [hnil, append_nil]
  exact hbuilt

/-- A query answers what the rebuilt cache is, and throws what the rebuild throws. -/
theorem Inv.balanceCache (h : s.Inv) : s.balanceCache.1 = s.rebuild ∧ s.balanceCache.2.Inv
      ∧ s.balanceCache.2.session = s.session := by
  obtain ⟨state, hfolds⟩ := h.folds
  have hstore : (s.store s.rebuild).1 = s.rebuild ∧ (s.store s.rebuild).2.Inv
      ∧ (s.store s.rebuild).2.session = s.session := by
    cases hbuilt : s.rebuild with
    | error e => exact ⟨rfl, h, rfl⟩
    | ok cache =>
      refine ⟨rfl, ⟨h.folds, ?_⟩, rfl⟩
      intro stored hstored
      obtain rfl := Option.some.inj hstored
      obtain ⟨replacements, haccepts⟩ := hfolds
      refine ⟨s.session.events, state, replacements, prefix_refl _, haccepts, ?_⟩
      rwa [rebuild, Folds.nodes ⟨_, haccepts⟩, Folds.generation ⟨_, haccepts⟩] at hbuilt
  rw [CachedSession.balanceCache, hfolds.nodes]
  simp only
  cases hcached : s.cached with
  | none => exact hstore
  | some cache =>
    simp only
    split
    case isTrue => exact hstore
    case isFalse hfresh =>
      have hgeneration : cache.generation = state.replaceGeneration := by
        rw [← hfolds.generation]
        exact not_not.1 fun hne => hfresh (.inl hne)
      obtain ⟨hle, hextend, hsame⟩ := h.extend hfolds hcached hgeneration
      split
      case isTrue => rw [hextend]; exact hstore
      case isFalse hshort =>
        rw [hsame (by omega)]
        exact ⟨rfl, h, rfl⟩

/-- What the cached query answers is what a fold of the whole surface says. -/
theorem Inv.balanceAt (h : s.Inv) {nodes : List Nat}
    (hnodes : s.session.session.nodes = .ok nodes) (seq offset : Nat) :
    (s.balanceAt seq offset).1 = ToolPairing.cutBalance s.session.events nodes seq offset
      ∧ (s.balanceAt seq offset).2.Inv := by
  obtain ⟨state, replacements, haccepts⟩ := h.folds
  have hstate : state.nodes = nodes := by
    have hfolded := Folds.nodes ⟨replacements, haccepts⟩
    exact Except.ok.inj (hfolded.symm.trans hnodes)
  obtain ⟨hanswer, hinv, -⟩ := h.balanceCache
  have hlookup := @BalanceCache.cutBalance_rebuilt s.session.events
    s.session.session.replaceGeneration nodes (hstate ▸ haccepts.nodes_nodup) seq offset
  have hbuilt : s.balanceCache.1 = BalanceCache.extendCache s.session.events
      (.empty s.session.session.replaceGeneration) nodes := by
    rw [hanswer, rebuild, hnodes]
  rw [← hlookup, ← hbuilt, CachedSession.balanceAt]
  rcases hquery : s.balanceCache with ⟨answer | answer, s'⟩ <;> rw [hquery] at hinv
  · exact ⟨rfl, hinv⟩
  · exact ⟨rfl, hinv⟩

/-- An append keeps the log folding, and the stored cache describes a shorter log. -/
theorem Inv.append (h : s.Inv) (request : AppendRequest) : (s.step (.append request)).Inv := by
  rw [CachedSession.step, GuardedSession.append]
  cases hplan : s.session.session.planAppend request with
  | error e => exact h
  | ok event =>
    simp only
    cases s.session.validate event with
    | error e => exact h
    | ok traces =>
      constructor
      case folds =>
        rw [SessionSpec.planAppend] at hplan
        cases hprepare : request.prepare s.session.session.events.length
            s.session.session.entry.appending with
        | error e => simp [hprepare] at hplan
        | ok candidate =>
          simp only [hprepare] at hplan
          obtain ⟨result, hfold, hplan⟩ := Except.bind_eq_ok.mp hplan
          simp only [hfold, Except.map, Except.ok.injEq] at hplan
          subst hplan
          obtain ⟨state, haccepts, -⟩ := foldSurface_ok_iff.1 hfold
          exact ⟨state, _, haccepts⟩
      case stored =>
        intro cache hcached
        obtain ⟨log, state, replacements, hfirst, hrest⟩ := h.stored cache hcached
        exact ⟨log, state, replacements, hfirst.trans (prefix_append _ _), hrest⟩

theorem Inv.step (h : s.Inv) (op : Op) : (s.step op).Inv := by
  cases op with
  | append request => exact h.append request
  | balance seq offset =>
    obtain ⟨state, hfolds⟩ := h.folds
    exact (h.balanceAt hfolds.nodes seq offset).2

/-- The state that a run of appends, replacements and queries leads to. -/
def run (s : CachedSession) (ops : List Op) : CachedSession := ops.foldl step s

theorem Inv.run (h : s.Inv) (ops : List Op) : (s.run ops).Inv := by
  induction ops generalizing s with
  | nil => exact h
  | cons op ops ih => exact ih (h.step op)

/-- A session that no query has reached has no cache. -/
theorem Inv.start {session : GuardedSession} {result : SurfaceFoldResult}
    (h : foldSurface session.events = .ok result) : Inv { session, cached := none } where
  folds := by
    obtain ⟨state, haccepts, -⟩ := foldSurface_ok_iff.1 h
    exact ⟨state, _, haccepts⟩
  stored := by
    intro cache hcached
    cases hcached

end CachedSession

end Harness
