-- SUMMARY: Tool pairs under the folds of a plan: a fold shadows both halves of a pair or neither.
import Harness.Compaction.FoldWalk

namespace Harness

open List

variable {surface : List SurfaceAnno}

/-! ## Calls and results by position -/

/-- The node at `i` declares the call `id`. -/
def CallAt (surface : List SurfaceAnno) (i : Nat) (id : CallId) : Prop :=
  ∃ node, surface[i]? = some node ∧ id ∈ node.calls

/-- The node at `i` answers the call `id`. -/
def ResultAt (surface : List SurfaceAnno) (i : Nat) (id : CallId) : Prop :=
  ∃ node, surface[i]? = some node ∧ id ∈ node.results

/-- Call ids are distinct, and every result comes after its call, which is visible. -/
structure PairedSurface (surface : List SurfaceAnno) : Prop where
  calls : (surface.flatMap (·.calls)).Nodup
  after : ∀ j id, ResultAt surface j id → ∃ i, i < j ∧ CallAt surface i id

theorem pairedSurface_iff : PairedSurface surface ↔ (surface.flatMap (·.calls)).Nodup ∧
    ∀ j < surface.length, ∀ id ∈ ((surface[j]?).map (·.results)).getD [],
      ((surface.take j).any fun node => node.calls.contains id) = true := by
  have hcall (j : Nat) (id : CallId) : ((surface.take j).any fun node => node.calls.contains id) = true ↔
      ∃ i, i < j ∧ CallAt surface i id := by
    simp only [any_eq_true, contains_iff_mem, mem_iff_getElem?, CallAt]
    constructor
    · rintro ⟨node, ⟨i, hi⟩, hid⟩
      rw [getElem?_take] at hi
      split at hi
      · exact ⟨i, ‹_›, node, hi, hid⟩
      · cases hi
    · rintro ⟨i, hlt, node, hi, hid⟩
      exact ⟨node, ⟨i, by rw [getElem?_take_of_lt hlt, hi]⟩, hid⟩
  constructor
  · intro h
    refine ⟨h.calls, fun j hj id hid => (hcall j id).mpr (h.after j id ?_)⟩
    rw [getElem?_eq_getElem hj] at hid
    exact ⟨_, getElem?_eq_getElem hj, hid⟩
  · rintro ⟨hcalls, hafter⟩
    refine ⟨hcalls, fun j id ⟨node, hnode, hid⟩ => (hcall j id).mp (hafter j ?_ id ?_)⟩
    · exact (List.getElem?_eq_some_iff.mp hnode).1
    · rw [hnode]
      exact hid

instance : Decidable (PairedSurface surface) := decidable_of_iff _ pairedSurface_iff.symm

/-- A call has one visible result at most, and fold nodes carry no tool blocks. -/
structure PlainSurface (surface : List SurfaceAnno) : Prop where
  results : (surface.flatMap (·.results)).Nodup
  folds : ∀ node ∈ surface, node.isRaw = false → node.calls = [] ∧ node.results = []

theorem plainSurface_iff : PlainSurface surface ↔ (surface.flatMap (·.results)).Nodup ∧
    ∀ node ∈ surface, node.isRaw = false → node.calls = [] ∧ node.results = [] :=
  ⟨fun h => ⟨h.results, h.folds⟩, fun h => ⟨h.1, h.2⟩⟩

instance : Decidable (PlainSurface surface) := decidable_of_iff _ plainSurface_iff.symm

variable {i j : Nat}

/-- In a list whose blocks are disjoint an element is in one block only. -/
theorem index_of_nodup_flatMap {α β : Type*} {xs : List α} {f : α → List β}
    (h : (xs.flatMap f).Nodup) {x y : α} {b : β} (hi : xs[i]? = some x)
    (hj : xs[j]? = some y) (hx : b ∈ f x) (hy : b ∈ f y) : i = j := by
  have hpairs := pairwise_iff_getElem.mp (nodup_flatMap.mp h).2
  obtain ⟨hilt, rfl⟩ := List.getElem?_eq_some_iff.mp hi
  obtain ⟨hjlt, rfl⟩ := List.getElem?_eq_some_iff.mp hj
  rcases Nat.lt_trichotomy i j with hlt | heq | hlt
  · exact absurd hy (disjoint_left.mp (hpairs i j hilt hjlt hlt) hx)
  · exact heq
  · exact absurd hx (disjoint_left.mp (hpairs j i hjlt hilt hlt) hy)

variable {id : CallId}

theorem PairedSurface.call_unique (h : PairedSurface surface)
    (hi : CallAt surface i id) (hj : CallAt surface j id) : i = j := by
  obtain ⟨node, hnode, hid⟩ := hi
  obtain ⟨node', hnode', hid'⟩ := hj
  exact index_of_nodup_flatMap h.calls hnode hnode' hid hid'

theorem PlainSurface.result_unique (h : PlainSurface surface)
    (hi : ResultAt surface i id) (hj : ResultAt surface j id) : i = j := by
  obtain ⟨node, hnode, hid⟩ := hi
  obtain ⟨node', hnode', hid'⟩ := hj
  exact index_of_nodup_flatMap h.results hnode hnode' hid hid'

theorem PlainSurface.call_raw (h : PlainSurface surface) {i : Nat} {node : SurfaceAnno}
    (hnode : surface[i]? = some node) (hid : id ∈ node.calls) : node.isRaw = true := by
  by_contra hfold
  rw [(h.folds node (mem_of_getElem? hnode) (by simpa using hfold)).1] at hid
  cases hid

theorem PlainSurface.result_raw (h : PlainSurface surface) {i : Nat}
    {node : SurfaceAnno} (hnode : surface[i]? = some node) (hid : id ∈ node.results) :
    node.isRaw = true := by
  by_contra hfold
  rw [(h.folds node (mem_of_getElem? hnode) (by simpa using hfold)).2] at hid
  cases hid

variable {start cursor : Nat}

theorem mem_slice_calls (hle : start ≤ cursor) :
    id ∈ (surface.slice start (cursor - start)).flatMap (·.calls) ↔
      ∃ i, start ≤ i ∧ i < cursor ∧ CallAt surface i id := by
  rw [mem_flatMap]
  constructor
  · rintro ⟨node, hnode, hid⟩
    obtain ⟨i, hlo, hhi, hget⟩ := mem_slice_iff.mp hnode
    exact ⟨i, hlo, by omega, node, hget, hid⟩
  · rintro ⟨i, hlo, hhi, node, hget, hid⟩
    exact ⟨node, mem_slice_iff.mpr ⟨i, hlo, by omega, hget⟩, hid⟩

theorem mem_slice_results (hle : start ≤ cursor) :
    id ∈ (surface.slice start (cursor - start)).flatMap (·.results) ↔
      ∃ i, start ≤ i ∧ i < cursor ∧ ResultAt surface i id := by
  rw [mem_flatMap]
  constructor
  · rintro ⟨node, hnode, hid⟩
    obtain ⟨i, hlo, hhi, hget⟩ := mem_slice_iff.mp hnode
    exact ⟨i, hlo, by omega, node, hget, hid⟩
  · rintro ⟨i, hlo, hhi, node, hget, hid⟩
    exact ⟨node, mem_slice_iff.mpr ⟨i, hlo, by omega, hget⟩, hid⟩

/-! ## Closed ranges -/

/-- The results in the range have their calls in it. -/
def ResultsClosed (surface : List SurfaceAnno) (start cursor : Nat) : Prop :=
  ∀ j id, start ≤ j → j < cursor → ResultAt surface j id →
    ∃ i, start ≤ i ∧ i < cursor ∧ CallAt surface i id

/-- A range that holds both halves of a pair or neither. -/
structure PairClosed (surface : List SurfaceAnno) (range : Nat × Nat) : Prop where
  results : ResultsClosed surface range.1 range.2
  calls : ∀ i j id, range.1 ≤ i → i < range.2 → CallAt surface i id → ResultAt surface j id →
    j < range.2

theorem mem_neededCalls {span : List SurfaceAnno} : id ∈ neededCalls span ↔
    id ∈ span.flatMap (·.results) ∧ id ∉ span.flatMap (·.calls) := by
  simp [neededCalls]

theorem mem_pendingCalls {span : List SurfaceAnno} : id ∈ pendingCalls span ↔
    id ∈ span.flatMap (·.calls) ∧ id ∉ span.flatMap (·.results) := by
  simp [pendingCalls]

variable {needed : List CallId}

/-- What a pulled-in node leaves needed. -/
theorem mem_needed_step {prev : SurfaceAnno} :
    id ∈ needed.filter (!prev.calls.contains ·) ++ prev.results ↔
      (id ∈ needed ∧ id ∉ prev.calls) ∨ id ∈ prev.results := by
  simp

/-- The backward repair stops where the results of the span have their calls in it. -/
theorem pullCalls_closed (hpaired : PairedSurface surface) (hplain : PlainSurface surface)
    {start head cursor : Nat} (h : pullCalls surface start needed = some head)
    (hlt : start < cursor) (hlen : start ≤ surface.length)
    (hneeded : ∀ id ∈ needed, ∃ i, i < start ∧ CallAt surface i id)
    (hresults : ∀ j id, start ≤ j → j < cursor → ResultAt surface j id →
      id ∈ needed ∨ ∃ i, start ≤ i ∧ i < cursor ∧ CallAt surface i id) :
    ResultsClosed surface head cursor := by
  have hdone {start : Nat} {needed : List CallId} (hnone : ∀ id, id ∉ needed)
      (hresults : ∀ j id, start ≤ j → j < cursor → ResultAt surface j id →
        id ∈ needed ∨ ∃ i, start ≤ i ∧ i < cursor ∧ CallAt surface i id) :
      ResultsClosed surface start cursor :=
    fun j id hlo hhi hresult => (hresults j id hlo hhi hresult).resolve_left (hnone id)
  induction start generalizing needed with
  | zero =>
    cases h
    refine hdone (fun id hid => ?_) hresults
    obtain ⟨i, hi, -⟩ := hneeded id hid
    exact Nat.not_lt_zero i hi
  | succ start ih =>
    unfold pullCalls at h
    split at h
    · rename_i hnil
      cases h
      exact hdone (by simp [hnil]) hresults
    split at h
    · rename_i hnone
      have := List.getElem?_eq_none_iff.mp hnone
      omega
    rename_i prev hprev
    split at h
    · rename_i hfold
      split at h
      · cases h
      rename_i hearlier
      cases h
      -- a needed call stands in a raw node before the fold node
      refine hdone (fun id hid => hearlier ?_) hresults
      obtain ⟨i, hi, node, hnode, hcall⟩ := hneeded id hid
      have hraw := hplain.call_raw hnode hcall
      have hne : i ≠ start := by
        rintro rfl
        cases hprev.symm.trans hnode
        simp [hraw] at hfold
      rw [any_eq_true]
      refine ⟨node, mem_iff_getElem?.mpr ⟨i, ?_⟩, ?_⟩
      · rw [getElem?_take_of_lt (by omega), hnode]
      · rw [hraw, Bool.true_and, any_eq_true]
        exact ⟨id, hcall, by simpa using hid⟩
    · split at h
      · cases h
      refine ih h (by omega) (by omega) (fun id hid => ?_) fun j id hlo hhi hresult => ?_
      · rcases mem_needed_step.mp hid with ⟨hid, hnot⟩ | hid
        · obtain ⟨i, hi, hcall⟩ := hneeded id hid
          refine ⟨i, Nat.lt_of_le_of_ne (Nat.le_of_lt_succ hi) ?_, hcall⟩
          rintro rfl
          obtain ⟨node, hnode, hcall⟩ := hcall
          cases hprev.symm.trans hnode
          exact hnot hcall
        · exact hpaired.after start id ⟨prev, hprev, hid⟩
      · rw [mem_needed_step]
        rcases Nat.eq_or_lt_of_le hlo with rfl | hlo
        · obtain ⟨node, hnode, hid⟩ := hresult
          cases hprev.symm.trans hnode
          exact .inl (.inr hid)
        · rcases hresults j id hlo hhi hresult with hid | ⟨i, hlo', hhi', hcall⟩
          · by_cases hcall : id ∈ prev.calls
            · exact .inr ⟨start, Nat.le_refl _, by omega, prev, hprev, hcall⟩
            · exact .inl (.inl ⟨hid, hcall⟩)
          · exact .inr ⟨i, by omega, hhi', hcall⟩

/-- The backward repair never reaches into a closed range. -/
theorem pullCalls_clear {start head : Nat}
    (h : pullCalls surface start needed = some head) {range : Nat × Nat}
    (hclosed : PairClosed surface range) (hnonempty : range.1 < range.2) (hle : range.2 ≤ start)
    (hneeded : ∀ id ∈ needed, ∃ j, range.2 ≤ j ∧ ResultAt surface j id) : range.2 ≤ head := by
  induction start generalizing needed with
  | zero => omega
  | succ start ih =>
    unfold pullCalls at h
    split at h
    · cases h
      exact hle
    split at h
    · cases h
      exact hle
    rename_i prev hprev
    split at h
    · split at h
      · cases h
      · cases h
        exact hle
    split at h
    · cases h
    rename_i hcalls
    rw [Bool.not_eq_true, Bool.not_eq_false', any_eq_true] at hcalls
    obtain ⟨id, hcall, hid⟩ := hcalls
    obtain ⟨j, hj, hresult⟩ := hneeded id (by simpa using hid)
    -- the call of the node that is pulled in is answered behind the range
    have hle' : range.2 ≤ start := by
      by_contra hgt
      have := hclosed.calls start j id (by omega) (by omega) ⟨prev, hprev, hcall⟩ hresult
      omega
    refine ih h hle' fun id hid => ?_
    rcases mem_needed_step.mp hid with ⟨hid, -⟩ | hid
    · exact hneeded id hid
    · exact ⟨start, hle', prev, hprev, hid⟩

theorem PairClosed.of_answered {head cursor : Nat} {pending : List CallId}
    (hresults : ResultsClosed surface head cursor)
    (hcalls : ∀ i j id, head ≤ i → i < cursor → CallAt surface i id → ResultAt surface j id →
      j < cursor ∨ id ∈ pending)
    (hnone : ∀ j id, cursor ≤ j → ResultAt surface j id → id ∉ pending) :
    PairClosed surface (head, cursor) := by
  refine ⟨hresults, fun i j id hlo hhi hcall hresult => ?_⟩
  by_contra hbehind
  exact hnone j id (by simpa using hbehind) hresult
    ((hcalls i j id hlo hhi hcall hresult).resolve_left hbehind)

/-- The forward repair stops where the calls of the span have their results in it. -/
theorem absorbResults_closed (hplain : PlainSurface surface) {head cursor : Nat}
    {pending : List CallId} {more : List SurfaceAnno}
    (h : absorbResults (surface.drop cursor) pending = some more) (hle : head ≤ cursor)
    (hpending : ∀ id ∈ pending, ∃ i, head ≤ i ∧ i < cursor ∧ CallAt surface i id)
    (hresults : ResultsClosed surface head cursor)
    (hcalls : ∀ i j id, head ≤ i → i < cursor → CallAt surface i id → ResultAt surface j id →
      j < cursor ∨ id ∈ pending) :
    PairClosed surface (head, cursor + more.length) := by
  generalize hrest : surface.drop cursor = rest at h
  induction rest generalizing cursor pending more with
  | nil =>
    cases h
    refine .of_answered hresults hcalls fun j id hj hresult => ?_
    obtain ⟨node, hnode, -⟩ := hresult
    obtain ⟨hlt, -⟩ := List.getElem?_eq_some_iff.mp hnode
    have := drop_eq_nil_iff.mp hrest
    omega
  | cons next rest ih =>
    have hnext : surface[cursor]? = some next := by
      rw [← Nat.add_zero cursor, ← getElem?_drop, hrest]
      rfl
    have hrest' : surface.drop (cursor + 1) = rest := by
      rw [← drop_drop, hrest]
      rfl
    unfold absorbResults at h
    split at h
    · rename_i hnil
      cases h
      exact .of_answered hresults hcalls (by simp [hnil])
    split at h
    · rename_i hfold
      split at h
      · cases h
      rename_i hlater
      cases h
      -- a pending result stands in a raw node behind the fold node
      refine .of_answered hresults hcalls fun j id hj hresult hid => hlater ?_
      obtain ⟨node, hnode, hin⟩ := hresult
      have hraw := hplain.result_raw hnode hin
      have hne : j ≠ cursor := by
        rintro rfl
        cases hnext.symm.trans hnode
        simp [hraw] at hfold
      rw [any_eq_true]
      refine ⟨node, ?_, ?_⟩
      · rw [← hrest', mem_iff_getElem?]
        refine ⟨j - (cursor + 1), ?_⟩
        rw [getElem?_drop, Nat.add_sub_cancel' (by omega), hnode]
      · rw [hraw, Bool.true_and, any_eq_true]
        exact ⟨id, hin, by simpa using hid⟩
    · split at h
      · cases h
      rename_i hresultsOf
      rw [Bool.not_eq_true, Bool.not_eq_false', all_eq_true] at hresultsOf
      obtain ⟨more', hmore, rfl⟩ := Option.map_eq_some_iff.mp h
      have hstep {id : CallId} :
          id ∈ pending.filter (!next.results.contains ·) ++ next.calls ↔
            (id ∈ pending ∧ id ∉ next.results) ∨ id ∈ next.calls := by
        simp
      rw [length_cons, Nat.add_comm more'.length 1, ← Nat.add_assoc]
      refine ih (by omega) (fun id hid => ?_) ?_ ?_ hrest' hmore
      · rcases hstep.mp hid with ⟨hid, -⟩ | hid
        · obtain ⟨i, hlo, hhi, hcall⟩ := hpending id hid
          exact ⟨i, hlo, by omega, hcall⟩
        · exact ⟨cursor, hle, by omega, next, hnext, hid⟩
      · intro j id hlo hhi hresult
        rcases Nat.lt_or_ge j cursor with hj | hj
        · obtain ⟨i, hlo', hhi', hcall⟩ := hresults j id hlo hj hresult
          exact ⟨i, hlo', by omega, hcall⟩
        obtain rfl : j = cursor := by omega
        obtain ⟨node, hnode, hid⟩ := hresult
        cases hnext.symm.trans hnode
        obtain ⟨i, hlo', hhi', hcall⟩ := hpending id (by simpa using hresultsOf id hid)
        exact ⟨i, hlo', by omega, hcall⟩
      · intro i j id hlo hhi hcall hresult
        rw [hstep]
        rcases Nat.lt_or_ge i cursor with hi | hi
        · rcases hcalls i j id hlo hi hcall hresult with hj | hid
          · exact .inl (by omega)
          by_cases hanswered : id ∈ next.results
          · have := hplain.result_unique hresult ⟨next, hnext, hanswered⟩
            exact .inl (by omega)
          · exact .inr (.inl ⟨hid, hanswered⟩)
        · obtain rfl : i = cursor := by omega
          obtain ⟨node, hnode, hid⟩ := hcall
          cases hnext.symm.trans hnode
          exact .inr (.inr hid)

/-! ## The ranges of a plan -/

variable {w w' : FoldWalk}

/-- A planned op shadows a closed range that keeps clear of the closed ranges before it. -/
theorem planSpan_closed (hpaired : PairedSurface surface) (hplain : PlainSurface surface)
    {item : FoldItem}
    (h : planSpan surface w item start cursor = some w') (hlt : start < cursor)
    (hlen : cursor ≤ surface.length) :
    ∃ op head, w'.ops = w.ops ++ [op] ∧ OpAt surface op (head, w'.at_) ∧
      PairClosed surface (head, w'.at_) ∧ cursor ≤ w'.at_ ∧
      ∀ range, PairClosed surface range → range.1 < range.2 → range.2 ≤ start → range.2 ≤ head := by
  obtain ⟨head, more, op, hpull, habsorb, hhead, hat, hops, hop⟩ := planSpan_spec h hlt hlen
  have hneeded : ∀ id ∈ neededCalls (surface.slice start (cursor - start)),
      ∃ j, start ≤ j ∧ j < cursor ∧ ResultAt surface j id := by
    intro id hid
    exact (mem_slice_results (Nat.le_of_lt hlt)).mp (mem_neededCalls.mp hid).1
  have hresults : ResultsClosed surface head cursor := by
    refine pullCalls_closed hpaired hplain hpull hlt (by omega) (fun id hid => ?_) ?_
    · obtain ⟨j, hlo, hhi, hresult⟩ := hneeded id hid
      obtain ⟨i, hij, hcall⟩ := hpaired.after j id hresult
      refine ⟨i, ?_, hcall⟩
      by_contra hin
      exact (mem_neededCalls.mp hid).2 ((mem_slice_calls (Nat.le_of_lt hlt)).mpr
        ⟨i, by omega, by omega, hcall⟩)
    · intro j id hlo hhi hresult
      rw [← mem_slice_calls (Nat.le_of_lt hlt), mem_neededCalls]
      by_cases hcall : id ∈ (surface.slice start (cursor - start)).flatMap (·.calls)
      · exact .inr hcall
      · exact .inl ⟨(mem_slice_results (Nat.le_of_lt hlt)).mpr ⟨j, hlo, hhi, hresult⟩, hcall⟩
  have hle : head ≤ cursor := by omega
  refine ⟨op, head, hops, hop, ?_, by omega, fun range hclosed hnonempty hbefore => ?_⟩
  · rw [hat]
    refine absorbResults_closed hplain habsorb hle (fun id hid => ?_) hresults ?_
    · exact (mem_slice_calls hle).mp (mem_pendingCalls.mp hid).1
    intro i j id hlo hhi hcall hresult
    rw [mem_pendingCalls]
    by_cases hanswered : id ∈ (surface.slice head (cursor - head)).flatMap (·.results)
    · obtain ⟨j', -, hj', hresult'⟩ := (mem_slice_results hle).mp hanswered
      exact .inl (hplain.result_unique hresult hresult' ▸ hj')
    · exact .inr ⟨(mem_slice_calls hle).mpr ⟨i, hlo, hhi, hcall⟩, hanswered⟩
  · refine pullCalls_clear hpull hclosed hnonempty hbefore fun id hid => ?_
    obtain ⟨j, hlo, -, hresult⟩ := hneeded id hid
    exact ⟨j, by omega, hresult⟩

/-- What a walk has planned: closed ranges that keep clear of each other, behind which it goes on. -/
structure PairWalked (surface : List SurfaceAnno) (w : FoldWalk) (ranges : List (Nat × Nat)) :
    Prop where
  ops : List.Forall₂ (OpAt surface) w.ops ranges
  behind : ∀ r ∈ ranges, r.2 ≤ w.at_
  clear : ranges.Pairwise (·.2 ≤ ·.1)
  closed : ∀ r ∈ ranges, PairClosed surface r

theorem PairWalked.step (hpaired : PairedSurface surface) (hplain : PlainSurface surface)
    {ranges : List (Nat × Nat)} (h : PairWalked surface w ranges)
    {item : DesiredItem} (hitem : planItem surface w item = some w') :
    ∃ ranges', PairWalked surface w' ranges' := by
  rcases planItem_cases hitem with ⟨hops, hat, -⟩ | ⟨fold, start, cursor, w₁, rfl, hlocate, hplan⟩
  · exact ⟨ranges, hops ▸ h.ops, fun r hr => Nat.le_trans (h.behind r hr) hat, h.clear, h.closed⟩
  obtain ⟨hops, -, hspan⟩ := locateSpan_spec hlocate
  obtain ⟨hat, hlt, hlen⟩ := hspan start cursor rfl
  obtain ⟨op, head, hops', hop, hclosed, hcursor, hclear⟩ :=
    planSpan_closed hpaired hplain hplan hlt hlen
  refine ⟨ranges ++ [(head, w'.at_)], ?_, fun r hr => ?_, ?_, fun r hr => ?_⟩
  · rw [hops', hops]
    exact rel_append h.ops (.cons hop .nil)
  · rcases mem_append.mp hr with hr | hr
    · have := h.behind r hr
      omega
    · obtain rfl := mem_singleton.mp hr
      exact Nat.le_refl _
  · refine pairwise_append.mpr ⟨h.clear, pairwise_singleton _ _, fun r hr r' hr' => ?_⟩
    obtain rfl := mem_singleton.mp hr'
    obtain ⟨op', -, hop'⟩ := exists_of_forall₂_right h.ops hr
    exact hclear r (h.closed r hr) hop'.nonempty (Nat.le_trans (h.behind r hr) hat)
  · rcases mem_append.mp hr with hr | hr
    · exact h.closed r hr
    · obtain rfl := mem_singleton.mp hr
      exact hclosed

theorem PairWalked.run (hpaired : PairedSurface surface) (hplain : PlainSurface surface)
    {items : List DesiredItem} {ranges : List (Nat × Nat)}
    (h : PairWalked surface w ranges) (hitems : planItems surface w items = some w') :
    ∃ ranges', PairWalked surface w' ranges' := by
  induction items generalizing w ranges with
  | nil =>
    cases hitems
    exact ⟨ranges, h⟩
  | cons item items ih =>
    rw [planItems, Option.bind_eq_some_iff] at hitems
    obtain ⟨w₁, hitem, hitems⟩ := hitems
    obtain ⟨ranges₁, h₁⟩ := h.step hpaired hplain hitem
    exact ih h₁ hitems

theorem PairWalked.init : PairWalked surface .init [] :=
  ⟨.nil, by simp, .nil, by simp⟩

end Harness
