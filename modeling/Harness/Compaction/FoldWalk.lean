-- SUMMARY: Where the walk of the fold planner puts its ops, and when these keep clear of each other.
import Mathlib.Data.List.Chain
import Harness.Compaction.PlanFolds

namespace Harness

open List

/-! ## Slices of the surface -/

variable {α : Type*}

theorem getElem?_slice (xs : List α) (start count i : Nat) :
    (xs.slice start count)[i]? = if i < count then xs[start + i]? else none := by
  unfold List.slice
  rw [getElem?_take]
  split
  · rw [getElem?_drop]
  · rfl

theorem mem_slice_iff {xs : List α} {start count : Nat} {x : α} :
    x ∈ xs.slice start count ↔ ∃ i, start ≤ i ∧ i < start + count ∧ xs[i]? = some x := by
  rw [mem_iff_getElem?]
  constructor
  · rintro ⟨i, hi⟩
    rw [getElem?_slice] at hi
    split at hi
    · exact ⟨start + i, by omega, by omega, hi⟩
    · cases hi
  · rintro ⟨i, hlo, hhi, hget⟩
    refine ⟨i - start, ?_⟩
    rw [getElem?_slice, if_pos (by omega), Nat.add_sub_cancel' hlo, hget]

variable {start cursor : Nat}

theorem slice_append_take (xs : List α) (hle : start ≤ cursor)
    (n : Nat) : xs.slice start (cursor - start) ++ (xs.drop cursor).take n =
      xs.slice start (cursor + n - start) := by
  have hsplit : cursor + n - start = (cursor - start) + n := by omega
  have hdrop : (xs.drop start).drop (cursor - start) = xs.drop cursor := by
    rw [drop_drop, Nat.add_sub_cancel' hle]
  rw [List.slice, List.slice, hsplit, take_add, hdrop]

theorem slice_append_drop (xs : List α) (hle : start ≤ cursor) :
    xs.slice start (cursor - start) ++ xs.drop cursor = xs.drop start := by
  have hdrop : xs.drop cursor = (xs.drop start).drop (cursor - start) := by
    rw [drop_drop, Nat.add_sub_cancel' hle]
  rw [List.slice, hdrop, take_append_drop]

theorem length_slice (xs : List α) (hle : start ≤ cursor)
    (hlen : cursor ≤ xs.length) : (xs.slice start (cursor - start)).length = cursor - start := by
  unfold List.slice
  rw [length_take, length_drop]
  omega

/-! ## The parts of the walk -/

/-- What is absorbed stands right after the span. -/
theorem absorbResults_eq_take {rest more : List SurfaceAnno} {pending : List CallId}
    (h : absorbResults rest pending = some more) : more = rest.take more.length := by
  induction rest generalizing pending more with
  | nil =>
    cases h
    rfl
  | cons next rest ih =>
    unfold absorbResults at h
    split at h
    · cases h
      rfl
    split at h
    · split at h
      · cases h
      · cases h
        rfl
    · split at h
      · cases h
      · obtain ⟨more', hmore, rfl⟩ := Option.map_eq_some_iff.mp h
        rw [length_cons, take_succ_cons, ← ih hmore]

variable {surface : List SurfaceAnno}

/-- A widened span starts where it did, or earlier. -/
theorem pullCalls_le {start head : Nat} {needed : List CallId}
    (h : pullCalls surface start needed = some head) : head ≤ start := by
  induction start generalizing needed with
  | zero =>
    cases h
    exact Nat.le_refl _
  | succ start ih =>
    unfold pullCalls at h
    split at h
    · cases h
      exact Nat.le_refl _
    split at h
    · cases h
      exact Nat.le_refl _
    split at h
    · split at h
      · cases h
      · cases h
        exact Nat.le_refl _
    · split at h
      · cases h
      · exact Nat.le_succ_of_le (ih h)

theorem collectSpan_length (item : FoldItem) (rest : List SurfaceAnno) :
    (collectSpan item rest).1 + (collectSpan item rest).2.length ≤ rest.length := by
  induction rest with
  | nil => exact Nat.le_refl _
  | cons node rest ih =>
    unfold collectSpan
    split
    · have htake := (takeWhile_sublist (l := rest) item.includes).length_le
      simp only [length_cons]
      omega
    · split
      · simp only [length_cons]
        omega
      · exact Nat.zero_le _

variable {w w' : FoldWalk}

/-- Where a fold finds its span: behind the cursor, inside the surface, and not empty. -/
theorem locateSpan_spec {item : FoldItem}
    {span : Option (Nat × Nat)} (h : locateSpan surface w item = some (w', span)) :
    w'.ops = w.ops ∧ w.at_ ≤ w'.at_ ∧ ∀ start cursor, span = some (start, cursor) →
      w.at_ ≤ start ∧ start < cursor ∧ cursor ≤ surface.length := by
  unfold locateSpan at h
  dsimp only at h
  split at h
  · cases h
  rename_i current hcurrent
  have hlen := collectSpan_length item
    (surface.drop (w.at_ + staleNodes surface w.at_ item.firstSeq))
  rw [length_drop] at hlen
  split at h
  · split at h
    · cases h
      exact ⟨rfl, Nat.le_add_right _ _, fun _ _ hspan => nomatch hspan⟩
    · cases h
  rename_i skipped span hsome hcollect
  rw [hcollect] at hlen
  split at h
  · cases h
    refine ⟨rfl, ?_, fun _ _ hspan => nomatch hspan⟩
    dsimp only
    omega
  · cases h
    refine ⟨rfl, Nat.le_add_right _ _, fun start cursor hspan => ?_⟩
    cases hspan
    have hpos : 0 < span.length := length_pos_iff.mpr hsome
    obtain ⟨hlt, -⟩ := List.getElem?_eq_some_iff.mp hcurrent
    dsimp only at hlt hlen
    omega

/-! ## Ops and their ranges -/

theorem exists_of_forall₂_right {α β : Type*} {R : α → β → Prop} {as : List α} {bs : List β}
    (h : List.Forall₂ R as bs) {b : β} (hb : b ∈ bs) : ∃ a ∈ as, R a b := by
  induction h with
  | nil => cases hb
  | cons hab _ ih =>
    rcases mem_cons.mp hb with rfl | hb
    · exact ⟨_, mem_cons_self, hab⟩
    · obtain ⟨a, ha, hR⟩ := ih hb
      exact ⟨a, mem_cons_of_mem _ ha, hR⟩

theorem exists_of_forall₂_left {α β : Type*} {R : α → β → Prop} {as : List α} {bs : List β}
    (h : List.Forall₂ R as bs) {a : α} (ha : a ∈ as) : ∃ b ∈ bs, R a b :=
  exists_of_forall₂_right h.flip ha

theorem forall₂_append_left {α β : Type*} {R : α → β → Prop} {as as' : List α} {bs : List β}
    (h : List.Forall₂ R (as ++ as') bs) :
    ∃ bs₁ bs₂, List.Forall₂ R as bs₁ ∧ List.Forall₂ R as' bs₂ ∧ bs = bs₁ ++ bs₂ := by
  have hflip : List.Forall₂ (flip R) bs (as ++ as') := List.Forall₂.flip h
  refine ⟨bs.take as.length, bs.drop as.length, .flip ?_, .flip ?_, (take_append_drop ..).symm⟩
  · exact forall₂_take_append bs as as' hflip
  · exact forall₂_drop_append bs as as' hflip

/-- An op shadows the nodes from `range.1` up to `range.2`. -/
structure OpAt (surface : List SurfaceAnno) (op : FoldOp) (range : Nat × Nat) : Prop where
  nonempty : range.1 < range.2
  inside : range.2 ≤ surface.length
  shadowed : op.shadowedSeqs = (surface.slice range.1 (range.2 - range.1)).map (·.seq)
  start : (surface[range.1]?).map (·.seq) = some op.startSeq
  end_ : (surface[range.2 - 1]?).map (·.seq) = some op.endSeq

theorem planSpan_spec {item : FoldItem} (h : planSpan surface w item start cursor = some w')
    (hlt : start < cursor) (hlen : cursor ≤ surface.length) :
    ∃ head more op,
      pullCalls surface start (neededCalls (surface.slice start (cursor - start))) = some head ∧
      absorbResults (surface.drop cursor) (pendingCalls (surface.slice head (cursor - head))) =
        some more ∧
      head ≤ start ∧ w'.at_ = cursor + more.length ∧ w'.ops = w.ops ++ [op] ∧
      OpAt surface op (head, w'.at_) := by
  unfold planSpan at h
  cases hpull : pullCalls surface start (neededCalls (surface.slice start (cursor - start))) with
  | none =>
    rw [hpull] at h
    cases h
  | some head =>
    simp only [hpull] at h
    cases habsorb : absorbResults (surface.drop cursor)
        (pendingCalls (surface.slice head (cursor - head))) with
    | none =>
      rw [habsorb] at h
      cases h
    | some more =>
      simp only [habsorb] at h
      have hhead := pullCalls_le hpull
      have htake := absorbResults_eq_take habsorb
      have hmore : more.length ≤ surface.length - cursor := by
        rw [htake, ← length_drop]
        exact length_take_le' _ _
      -- the span and what it absorbed are one slice
      have hslice : surface.slice head (cursor - head) ++ more =
          surface.slice head (cursor + more.length - head) := by
        conv_lhs => rw [htake]
        exact slice_append_take surface (by omega) _
      have hlength : (surface.slice head (cursor + more.length - head)).length =
          cursor + more.length - head := length_slice surface (by omega) (by omega)
      cases hspan : surface.slice head (cursor - head) ++ more with
      | nil =>
        rw [hspan] at h
        cases h
      | cons first rest =>
        simp only [hspan] at h
        cases h
        rw [hslice] at hspan
        refine ⟨head, more, _, rfl, habsorb, hhead, rfl, rfl, by dsimp only; omega,
          by dsimp only; omega, ?_, ?_, ?_⟩
        · exact (congrArg (List.map (·.seq)) hspan).symm
        · have hfirst : (surface.slice head (cursor + more.length - head))[0]? = some first := by
            rw [hspan]
            rfl
          rw [getElem?_slice, if_pos (by omega), Nat.add_zero] at hfirst
          exact congrArg (Option.map (·.seq)) hfirst
        · have hlast : (surface.slice head (cursor + more.length - head)).getLast? =
              some ((first :: rest).getLast (cons_ne_nil first rest)) := by
            rw [hspan]
            exact getLast?_eq_some_getLast _
          rw [getLast?_eq_getElem?, hlength, getElem?_slice, if_pos (by omega)] at hlast
          have hindex : head + (cursor + more.length - head - 1) = cursor + more.length - 1 := by
            omega
          rw [hindex] at hlast
          exact congrArg (Option.map (·.seq)) hlast

/-! ## Keeping clear -/

/-- The seqs that the repair of a fold's tool pairs pulls in before its span. -/
def pulledBack (surface : List SurfaceAnno) (w : FoldWalk) (item : FoldItem) : List Nat :=
  match locateSpan surface w item with
  | some (_, some (start, cursor)) =>
    match pullCalls surface start (neededCalls (surface.slice start (cursor - start))) with
    | some head => (surface.slice head (start - head)).map (·.seq)
    | none => []
  | _ => []

/-- No fold pulls in a node that an earlier fold of the plan shadows. -/
def RepairsKeepClear (surface : List SurfaceAnno) (desired : List DesiredItem) : Prop :=
  ∀ pre item post w, desired = pre ++ .fold item :: post → planItems surface .init pre = some w →
    ∀ seq ∈ pulledBack surface w item, ∀ op ∈ w.ops, seq ∉ op.shadowedSeqs

theorem planItems_append (surface : List SurfaceAnno) (w : FoldWalk) (items items' : List DesiredItem) :
    planItems surface w (items ++ items') =
      (planItems surface w items).bind fun w => planItems surface w items' := by
  induction items generalizing w with
  | nil => rfl
  | cons item items ih =>
    rw [cons_append, planItems, planItems, Option.bind_assoc]
    exact congrArg _ (funext fun w => ih w)

variable {desired : List DesiredItem} {item : DesiredItem}

theorem repairsKeepClear_snoc {w : FoldWalk} (hw : planItems surface .init desired = some w) :
    RepairsKeepClear surface (desired ++ [item]) ↔ RepairsKeepClear surface desired ∧
      ∀ fold, item = .fold fold →
        ∀ seq ∈ pulledBack surface w fold, ∀ op ∈ w.ops, seq ∉ op.shadowedSeqs := by
  constructor
  · intro h
    refine ⟨fun pre fold post w' hpre => h pre fold (post ++ [item]) w' (by simp [hpre]), ?_⟩
    rintro fold rfl
    exact h desired fold [] w rfl hw
  rintro ⟨hbefore, hlast⟩ pre fold post w' hsplit hw'
  rcases eq_nil_or_concat post with rfl | ⟨post', last, rfl⟩
  · obtain ⟨rfl, hitem⟩ := append_inj' hsplit rfl
    obtain rfl := Option.some.inj (hw.symm.trans hw')
    exact hlast fold (by simpa using hitem)
  · have hsplit' : desired ++ [item] = (pre ++ .fold fold :: post') ++ [last] := by
      simpa using hsplit
    exact hbefore pre fold post' w' (append_inj' hsplit' rfl).1 hw'

/-- The ranges of what a walk has planned: each ends behind the ones before it, and they
keep clear of each other exactly when the repairs do. -/
structure Walked (surface : List SurfaceAnno) (desired : List DesiredItem) (w : FoldWalk)
    (ranges : List (Nat × Nat)) : Prop where
  ops : List.Forall₂ (OpAt surface) w.ops ranges
  behind : ∀ r ∈ ranges, r.2 ≤ w.at_
  rising : ranges.Pairwise (·.2 < ·.2)
  clear : RepairsKeepClear surface desired ↔ ranges.Pairwise (·.2 ≤ ·.1)

/-- An item that plans no op. -/
theorem Walked.skip {ranges : List (Nat × Nat)} (h : Walked surface desired w ranges)
    (hw : planItems surface .init desired = some w) (hops : w'.ops = w.ops) (hat : w.at_ ≤ w'.at_)
    (hpulled : ∀ fold, item = .fold fold → pulledBack surface w fold = []) :
    Walked surface (desired ++ [item]) w' ranges where
  ops := hops ▸ h.ops
  behind r hr := Nat.le_trans (h.behind r hr) hat
  rising := h.rising
  clear := by
    rw [repairsKeepClear_snoc hw, h.clear]
    refine and_iff_left fun fold hfold seq hseq => ?_
    rw [hpulled fold hfold] at hseq
    cases hseq

theorem OpAt.mem_shadowed {op : FoldOp} {range : Nat × Nat}
    (h : OpAt surface op range) {seq : Nat} : seq ∈ op.shadowedSeqs ↔
      ∃ i node, range.1 ≤ i ∧ i < range.2 ∧ surface[i]? = some node ∧ node.seq = seq := by
  have hlt := h.nonempty
  rw [h.shadowed, mem_map]
  constructor
  · rintro ⟨node, hnode, rfl⟩
    obtain ⟨i, hlo, hhi, hget⟩ := mem_slice_iff.mp hnode
    exact ⟨i, node, hlo, by omega, hget, rfl⟩
  · rintro ⟨i, node, hlo, hhi, hget, rfl⟩
    exact ⟨node, mem_slice_iff.mpr ⟨i, hlo, by omega, hget⟩, rfl⟩

/-- Two nodes of one seq are one node. -/
theorem index_unique (hnodup : (surface.map (·.seq)).Nodup)
    {i j : Nat} {node node' : SurfaceAnno} (hi : surface[i]? = some node)
    (hj : surface[j]? = some node') (hseq : node.seq = node'.seq) : i = j := by
  obtain ⟨hlt, -⟩ := List.getElem?_eq_some_iff.mp hi
  refine (getElem?_inj (by simpa using hlt) hnodup).mp ?_
  rw [getElem?_map, getElem?_map, hi, hj, Option.map_some, Option.map_some, hseq]

/-- A fold that plans an op. -/
theorem Walked.plan (hnodup : (surface.map (·.seq)).Nodup) {w w₁ w' : FoldWalk}
    {ranges : List (Nat × Nat)}
    (h : Walked surface desired w ranges) {fold : FoldItem}
    (hw : planItems surface .init desired = some w)
    (hlocate : locateSpan surface w fold = some (w₁, some (start, cursor)))
    (hplan : planSpan surface w₁ fold start cursor = some w') :
    ∃ range, Walked surface (desired ++ [.fold fold]) w' (ranges ++ [range]) := by
  obtain ⟨hops, -, hspan⟩ := locateSpan_spec hlocate
  obtain ⟨hat, hlt, hlen⟩ := hspan start cursor rfl
  obtain ⟨head, more, op, hpull, -, hhead, hat', hops', hop⟩ := planSpan_spec hplan hlt hlen
  have hpulled : pulledBack surface w fold = (surface.slice head (start - head)).map (·.seq) := by
    simp only [pulledBack, hlocate, hpull]
  refine ⟨(head, w'.at_), ?_, fun r hr => ?_, ?_, ?_⟩
  · rw [hops', hops]
    exact rel_append h.ops (.cons hop .nil)
  · rcases mem_append.mp hr with hr | hr
    · have := h.behind r hr
      omega
    · obtain rfl := mem_singleton.mp hr
      exact Nat.le_refl _
  · refine pairwise_append.mpr ⟨h.rising, pairwise_singleton _ _, fun a ha b hb => ?_⟩
    obtain rfl := mem_singleton.mp hb
    have := h.behind a ha
    dsimp only
    omega
  · rw [repairsKeepClear_snoc hw, h.clear, pairwise_append]
    simp only [pairwise_singleton, true_and, mem_singleton, forall_eq,
      DesiredItem.fold.injEq, forall_eq']
    rw [hpulled]
    refine and_congr_right fun _ => ⟨fun hclear a ha => ?_, fun hclear seq hseq op' hop' => ?_⟩
    · -- the last node of an earlier op would be pulled in
      by_contra hover
      obtain ⟨op', hop', hat''⟩ := exists_of_forall₂_right h.ops ha
      have hlast := hat''.nonempty
      have hbehind := h.behind a ha
      obtain ⟨node, hnode⟩ : ∃ node, surface[a.2 - 1]? = some node :=
        Option.isSome_iff_exists.mp (by simp; have := hat''.inside; omega)
      refine hclear node.seq ?_ op' hop' (hat''.mem_shadowed.mpr ⟨a.2 - 1, node, by omega, by omega,
        hnode, rfl⟩)
      exact mem_map_of_mem (mem_slice_iff.mpr ⟨a.2 - 1, by omega, by omega, hnode⟩)
    · obtain ⟨a, ha, hat''⟩ := exists_of_forall₂_left h.ops hop'
      rw [hat''.mem_shadowed]
      rintro ⟨i, node, -, hi, hget, rfl⟩
      obtain ⟨node', hnode', hsame⟩ := mem_map.mp hseq
      obtain ⟨j, hj, -, hget'⟩ := mem_slice_iff.mp hnode'
      have hij := index_unique hnodup hget' hget hsame
      have hhead' := hclear a ha
      omega

/-- An item moves the cursor on, or plans one op. -/
theorem planItem_cases (h : planItem surface w item = some w') :
    (w'.ops = w.ops ∧ w.at_ ≤ w'.at_ ∧ ∀ fold, item = .fold fold → pulledBack surface w fold = []) ∨
      ∃ fold start cursor w₁, item = .fold fold ∧
        locateSpan surface w fold = some (w₁, some (start, cursor)) ∧
        planSpan surface w₁ fold start cursor = some w' := by
  cases item with
  | raw seq =>
    refine .inl ?_
    unfold planItem planRaw at h
    dsimp only at h
    split at h
    · cases h
      exact ⟨rfl, Nat.le_refl _, fun _ hfold => nomatch hfold⟩
    split at h
    · cases h
    split at h
    · split at h
      · cases h
        exact ⟨rfl, Nat.le_add_right _ _, fun _ hfold => nomatch hfold⟩
      · cases h
    · split at h
      · cases h
        refine ⟨rfl, ?_, fun _ hfold => nomatch hfold⟩
        dsimp only
        omega
      · cases h
  | fold fold =>
    unfold planItem planFold at h
    cases hlocate : locateSpan surface w fold with
    | none => simp [hlocate] at h
    | some found =>
      obtain ⟨w₁, span⟩ := found
      cases span with
      | none =>
        simp only [hlocate, Option.some.injEq] at h
        subst h
        obtain ⟨hops, hat, -⟩ := locateSpan_spec hlocate
        refine .inl ⟨hops, hat, fun fold' hfold => ?_⟩
        cases hfold
        simp [pulledBack, hlocate]
      | some bounds =>
        obtain ⟨start, cursor⟩ := bounds
        simp only [hlocate] at h
        exact .inr ⟨fold, start, cursor, w₁, rfl, hlocate, h⟩

theorem planItems_walked (hnodup : (surface.map (·.seq)).Nodup) {w : FoldWalk}
    (hw : planItems surface .init desired = some w) :
    ∃ ranges, Walked surface desired w ranges := by
  induction desired using List.reverseRecOn generalizing w with
  | nil =>
    cases hw
    refine ⟨[], .nil, by simp, .nil, iff_of_true ?_ .nil⟩
    intro pre item post w hsplit
    simp at hsplit
  | append_singleton desired item ih =>
    rw [planItems_append, Option.bind_eq_some_iff] at hw
    obtain ⟨w₀, hw₀, hitem⟩ := hw
    rw [planItems, Option.bind_eq_some_iff] at hitem
    obtain ⟨w₁, hitem, hnil⟩ := hitem
    cases hnil
    obtain ⟨ranges, hwalked⟩ := ih hw₀
    rcases planItem_cases hitem with ⟨hops, hat, hpulled⟩ | ⟨fold, _, _, _, rfl, hlocate, hplan⟩
    · exact ⟨ranges, hwalked.skip hw₀ hops hat hpulled⟩
    · obtain ⟨range, hplanned⟩ := hwalked.plan hnodup hw₀ hlocate hplan
      exact ⟨ranges ++ [range], hplanned⟩

end Harness
