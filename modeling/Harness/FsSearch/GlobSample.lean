-- SUMMARY: The inline page of a capped `glob` result (`tool-fs-search/src/glob.ts`): round-robin over the top-level entries, and its shares.
import Harness.Json.Value
import Harness.Lib.OrderedMap
import Harness.Lib.WhileLoop
import Mathlib.Data.List.Flatten
import Mathlib.Data.List.Perm.Subperm

/-!
# Sampling across the top level

The groups are filled like vessels to one level: after any number of turns every group has given
what it has up to the level, and the groups before some place one path more.
-/

namespace Harness

open List OrderedMap
namespace FsSearch

open WhileLoop

/-! ## Groups -/

section Keys

-- the platform's separator
variable (sep : UInt16)

/-- Strip only separators recognized by the execution platform. -/
def stripLeadingSeparators (path : JsString) : JsString := ⟨path.units.dropWhile (· = sep)⟩

/-- Remove the displayed search-root prefix before choosing a top-level group. -/
def relativeToSearchRoot (path root : JsString) : JsString :=
  if root = "." then
    if (JsString.ofString ".").units ++ [sep] <+: path.units then ⟨path.units.drop 2⟩ else path
  else
    let trimmedRoot : List UInt16 := (root.units.reverse.dropWhile (· = sep)).reverse
    if trimmedRoot = [] then stripLeadingSeparators sep path
    else if path.units = trimmedRoot then ⟨[]⟩
    else if trimmedRoot ++ [sep] <+: path.units then ⟨path.units.drop (trimmedRoot.length + 1)⟩
    else path

/-- The leading path segment of one display path. -/
def topLevelSegment (path : JsString) : JsString :=
  ⟨(stripLeadingSeparators sep path).units.takeWhile (· ≠ sep)⟩

def topLevelEntry (root path : JsString) : JsString :=
  topLevelSegment sep (relativeToSearchRoot sep path root)

end Keys

/-! ## The sample -/

structure ActiveGroup where
  key : JsString
  items : List JsString
  index : Nat
  current : JsString

structure GlobSample where
  items : List JsString
  shown : Nat
  total : Nat

/-- `bucket.push(path)`, with a new bucket where there is none. -/
def pushTo (groups : OrderedMap JsString (List JsString)) (key path : JsString) :
    OrderedMap JsString (List JsString) :=
  groups.set key ((groups.get? key).getD [] ++ [path])

/-- The paths under their top-level entries, in the order of the first ones. -/
def groupPaths (topLevel : JsString → JsString) (paths : List JsString) :
    OrderedMap JsString (List JsString) :=
  paths.foldl (fun groups path => pushTo groups (topLevel path) path) []

/-- A group from one of its items on, if it has that item. -/
def activeAt (index : Nat) (group : JsString × List JsString) : Option ActiveGroup :=
  group.2[index]?.map fun current => { key := group.1, items := group.2, index, current }

structure SampleState where
  active : List ActiveGroup
  taken : OrderedMap JsString (List JsString) := []
  count : Nat := 0

/-- The body of the outer loop from some active group on. -/
def sampleRound (maxItems : Nat) : List ActiveGroup → SampleState → SampleState
  | [], s => s
  | group :: groups, s =>
    if s.count ≥ maxItems then s
    else
      let nextActive := (activeAt (group.index + 1) (group.key, group.items)).toList
      sampleRound maxItems groups
        { active := s.active ++ nextActive
          taken := pushTo s.taken group.key group.current
          count := s.count + 1 }

def sampleTurn (maxItems : Nat) (s : SampleState) : Except Empty (SampleState ⊕ SampleState) :=
  if s.active.length > 0 ∧ s.count < maxItems then
    .ok (.inl (sampleRound maxItems s.active { s with active := [] }))
  else .ok (.inr s)

/-- The groups as the loop starts with them. -/
def initialSample (groups : OrderedMap JsString (List JsString)) : SampleState where
  active := groups.filterMap (activeAt 0)

def sampleOf (groups taken : OrderedMap JsString (List JsString)) : GlobSample where
  items := (taken.map Prod.snd).flatten
  shown := taken.length
  total := groups.length

/-- `sampleAcrossTopLevel` with at most `n` rounds. -/
def sampleAcrossTopLevel (n : Nat) (sep : UInt16) (paths : List JsString) (maxItems : Nat)
    (root : JsString) : Except Empty (Option GlobSample) := do
  let groups := groupPaths (topLevelEntry sep root) paths
  let done ← loop (sampleTurn maxItems) n (initialSample groups)
  .ok (done.map fun s => sampleOf groups s.taken)

/-! ## Pushing -/

section Pushing

variable {groups m m' : OrderedMap JsString (List JsString)} {key path : JsString}

theorem pushTo_fresh (hfresh : key ∉ groups.keys) :
    pushTo groups key path = groups ++ [(key, [path])] := by
  rw [pushTo, get?_eq_none_iff.mpr hfresh, OrderedMap.set, if_neg hfresh]
  rfl

theorem pushTo_append (hm : key ∉ OrderedMap.keys m) (hm' : key ∉ OrderedMap.keys m')
    (bucket : List JsString) :
    pushTo (m ++ (key, bucket) :: m') key path = m ++ (key, bucket ++ [path]) :: m' := by
  have hkeep : ∀ {l : OrderedMap JsString (List JsString)} (value : List JsString),
      key ∉ OrderedMap.keys l → l.map (fun e => if e.1 = key then (key, value) else e) = l := by
    intro l value hl
    refine (map_congr_left fun e he => ?_).trans (map_id l)
    refine if_neg fun heq => hl ?_
    rw [← heq]
    exact mem_map_of_mem he
  have hget : get? (m ++ (key, bucket) :: m') key = some bucket := by
    have hnone := get?_eq_none_iff.mpr hm
    rw [get?, Option.map_eq_none_iff] at hnone
    rw [get?, find?_append, hnone]
    simp
  have hmem : key ∈ OrderedMap.keys (m ++ (key, bucket) :: m') := by
    rw [OrderedMap.keys_append]
    exact mem_append_right _ mem_cons_self
  rw [pushTo, hget, OrderedMap.set, if_pos hmem, map_append, map_cons, hkeep _ hm,
    hkeep _ hm', if_pos rfl, Option.getD_some]

/-- What a map holds in all its buckets. -/
def bucketItems (groups : OrderedMap JsString (List JsString)) : List JsString :=
  (groups.map Prod.snd).flatten

theorem perm_pushTo (hnodup : groups.keys.Nodup) :
    (bucketItems (pushTo groups key path)).Perm (path :: bucketItems groups) := by
  by_cases hkey : key ∈ groups.keys
  · obtain ⟨⟨_, bucket⟩, hmem, rfl⟩ := mem_map.mp hkey
    obtain ⟨m, m', rfl⟩ := append_of_mem hmem
    rw [OrderedMap.keys_append] at hnodup
    have hsplit := nodup_middle.mp hnodup
    obtain ⟨hm, hm'⟩ := not_or.mp (mt mem_append.mpr (nodup_cons.mp hsplit).1)
    rw [pushTo_append hm hm']
    simp only [bucketItems, map_append, map_cons, flatten_append, flatten_cons,
      append_assoc, singleton_append]
    rw [← append_assoc, ← append_assoc (List.map Prod.snd m).flatten bucket]
    exact perm_middle
  · rw [pushTo_fresh hkey]
    simp only [bucketItems, map_append, flatten_append]
    exact perm_append_singleton _ _

end Pushing

/-! ## The groups -/

section Groups

variable (topLevel : JsString → JsString) (paths : List JsString)

/-- The paths under an entry, in order. -/
def groupOf (entry : JsString) : List JsString := paths.filter (topLevel · = entry)

/-- The entries in the order in which they first appear. -/
def entriesOf : List JsString := (paths.map topLevel).eraseDups

theorem eraseDups_snoc (keys : List JsString) (key : JsString) :
    (keys ++ [key]).eraseDups = if key ∈ keys then keys.eraseDups else keys.eraseDups ++ [key] := by
  rw [eraseDups_append]
  split
  case isTrue h => simp [List.removeAll, h]
  case isFalse h => simp [List.removeAll, h, eraseDups_cons]

theorem entriesOf_snoc (path : JsString) : entriesOf topLevel (paths ++ [path]) =
    if topLevel path ∈ paths.map topLevel then entriesOf topLevel paths
    else entriesOf topLevel paths ++ [topLevel path] := by
  rw [entriesOf, map_append]
  exact eraseDups_snoc _ _

theorem nodup_entriesOf : (entriesOf topLevel paths).Nodup := by
  rw [entriesOf]
  induction paths.map topLevel using List.reverseRecOn with
  | nil => exact nodup_nil
  | append_singleton keys key ih =>
    rw [eraseDups_snoc]
    split
    case isTrue => exact ih
    case isFalse h =>
      rw [← concat_eq_append]
      exact ih.concat fun hmem => h (mem_eraseDups.mp hmem)

theorem groupPaths_eq : groupPaths topLevel paths =
    (entriesOf topLevel paths).map fun entry => (entry, groupOf topLevel paths entry) := by
  induction paths using List.reverseRecOn with
  | nil => rfl
  | append_singleton paths path ih =>
    have hfilter : ∀ entry, groupOf topLevel (paths ++ [path]) entry =
        groupOf topLevel paths entry ++ if topLevel path = entry then [path] else [] := by
      intro entry
      rw [groupOf, filter_append, ← groupOf]
      by_cases h : topLevel path = entry <;> simp [h]
    have hother : ∀ {entries : List JsString}, topLevel path ∉ entries →
        (entries.map fun entry => (entry, groupOf topLevel (paths ++ [path]) entry)) =
          entries.map fun entry => (entry, groupOf topLevel paths entry) := by
      intro entries hnot
      refine map_congr_left fun entry hmem => ?_
      rw [hfilter, if_neg (ne_of_mem_of_not_mem hmem hnot).symm, append_nil]
    have hkeys : ∀ entries : List JsString,
        OrderedMap.keys (entries.map fun entry => (entry, groupOf topLevel paths entry)) =
          entries := by
      intro entries
      rw [OrderedMap.keys, map_map]
      exact map_id entries
    have hnodup := nodup_entriesOf topLevel paths
    rw [groupPaths, foldl_append, ← groupPaths, ih, entriesOf_snoc, foldl_cons,
      foldl_nil]
    by_cases hmem : topLevel path ∈ paths.map topLevel
    · obtain ⟨pre, suf, heq⟩ := append_of_mem (mem_eraseDups.mpr hmem)
      rw [← entriesOf] at heq
      rw [heq] at hnodup
      obtain ⟨hpre, hsuf⟩ := not_or.mp
        (mt mem_append.mpr (nodup_cons.mp (nodup_middle.mp hnodup)).1)
      rw [if_pos hmem, heq, map_append, map_append, map_cons, map_cons,
        pushTo_append (by rwa [hkeys]) (by rwa [hkeys]), hother hpre, hother hsuf, hfilter,
        if_pos rfl]
    · have hfresh : topLevel path ∉ entriesOf topLevel paths := mt mem_eraseDups.mp hmem
      have hempty : groupOf topLevel paths (topLevel path) = [] :=
        filter_eq_nil_iff.mpr fun other hother =>
          mt (fun h => of_decide_eq_true h ▸ mem_map_of_mem hother) hmem
      rw [if_neg hmem, pushTo_fresh (by rwa [hkeys]), map_append, hother hfresh]
      simp [hfilter, hempty]

end Groups

/-! ## Rounds -/

section Rounds

variable (items : JsString → List JsString) (keys : List JsString)

/-- The groups that go on at a level. -/
def actives (level : Nat) (keys : List JsString) : List ActiveGroup :=
  keys.filterMap fun key => activeAt level (key, items key)

/-- The page when the groups of `pre` have given one path more than those of `suf`, as far as they
have them. -/
def filled (level : Nat) (pre suf : List JsString) : OrderedMap JsString (List JsString) :=
  (pre.map fun key => (key, (items key).take (level + 1))) ++
    if level = 0 then [] else suf.map fun key => (key, (items key).take level)

variable {items keys} {level maxItems : Nat} {pre suf : List JsString} {key path : JsString}

theorem keys_filled : OrderedMap.keys (filled items level pre suf) =
    pre ++ if level = 0 then [] else suf := by
  rw [filled, OrderedMap.keys_append]
  split <;> simp [OrderedMap.keys, Function.comp_def]

theorem nodup_filled (hnodup : (pre ++ suf).Nodup) :
    (OrderedMap.keys (filled items level pre suf)).Nodup := by
  rw [keys_filled]
  refine hnodup.sublist (List.Sublist.append_left ?_ pre)
  split
  case isTrue => exact nil_sublist suf
  case isFalse => exact List.Sublist.refl suf

theorem filled_push (hnodup : (pre ++ key :: suf).Nodup) (hpath : (items key)[level]? = some path) :
    pushTo (filled items level pre (key :: suf)) key path =
      filled items level (pre ++ [key]) suf := by
  obtain ⟨hpre, hsuf⟩ := not_or.mp
    (mt mem_append.mpr (nodup_cons.mp (nodup_middle.mp hnodup)).1)
  have hkeys : ∀ (n : Nat) (l : List JsString),
      OrderedMap.keys (l.map fun key => (key, (items key).take n)) = l := by
    intro n l
    rw [OrderedMap.keys, map_map]
    exact map_id l
  have htake : (items key).take (level + 1) = (items key).take level ++ [path] := by
    rw [take_add_one, hpath]
    rfl
  rw [filled, filled, map_append, map_singleton, htake]
  split
  case isTrue h =>
    subst h
    rw [append_nil, append_nil, pushTo_fresh (by rwa [hkeys])]
    rfl
  case isFalse =>
    rw [map_cons, pushTo_append (by rwa [hkeys]) (by rwa [hkeys]), append_assoc,
      singleton_append]

/-- A group that has given all it has stands at both levels. -/
theorem filled_skip (hne : items key ≠ []) (hdone : (items key)[level]? = none) :
    filled items level pre (key :: suf) = filled items level (pre ++ [key]) suf := by
  have hlength := List.getElem?_eq_none_iff.mp hdone
  have hpos : level ≠ 0 := by
    rintro rfl
    exact hne (length_eq_zero_iff.mp (Nat.le_zero.mp hlength))
  rw [filled, filled, if_neg hpos, if_neg hpos, map_append, map_cons, map_singleton,
    take_of_length_le hlength, take_of_length_le (Nat.le_succ_of_le hlength),
    append_assoc, singleton_append]

/-- The state in the middle of a round. -/
structure Filling (items : JsString → List JsString) (keys : List JsString) (maxItems level : Nat)
    (pre suf : List JsString) (s : SampleState) : Prop where
  split : pre ++ suf = keys
  taken : s.taken = filled items level pre suf
  count : s.count = (bucketItems s.taken).length
  active : s.active = actives items (level + 1) pre
  bound : s.count ≤ maxItems

theorem sampleRound_filling (hnodup : keys.Nodup) (hne : ∀ key ∈ keys, items key ≠ [])
    {s : SampleState} (h : Filling items keys maxItems level pre suf s) :
    ∃ pre' suf', Filling items keys maxItems level pre' suf'
        (sampleRound maxItems (actives items level suf) s) ∧
      (suf' = [] ∨ (sampleRound maxItems (actives items level suf) s).count = maxItems) := by
  induction suf generalizing pre s with
  | nil => exact ⟨pre, [], h, .inl rfl⟩
  | cons key suf ih =>
    have hsplit : (pre ++ [key]) ++ suf = keys := by rw [← h.split, append_assoc]; rfl
    have hdistinct : (pre ++ key :: suf).Nodup := h.split ▸ hnodup
    cases hcurrent : (items key)[level]? with
    | none =>
      have hskip : actives items level (key :: suf) = actives items level suf := by
        simp [actives, activeAt, hcurrent]
      have hlater : (items key)[level + 1]? = none :=
        getElem?_eq_none (Nat.le_succ_of_le (List.getElem?_eq_none_iff.mp hcurrent))
      have hmem : key ∈ keys := h.split ▸ mem_append_right _ mem_cons_self
      rw [hskip]
      refine ih ⟨hsplit, ?_, h.count, ?_, h.bound⟩
      · rw [h.taken, filled_skip (hne key hmem) hcurrent]
      · rw [h.active]
        simp [actives, activeAt, hlater]
    | some current =>
      have hgroup : actives items level (key :: suf) =
          { key, items := items key, index := level, current } :: actives items level suf := by
        simp [actives, activeAt, hcurrent]
      rw [hgroup, sampleRound]
      split
      case isTrue hfull => exact ⟨pre, key :: suf, h, .inr (Nat.le_antisymm h.bound hfull)⟩
      case isFalse hfull =>
        refine ih ⟨hsplit, ?_, ?_, ?_, Nat.lt_of_not_le hfull⟩
        · dsimp only
          rw [h.taken, filled_push hdistinct hcurrent]
        · dsimp only
          have hkeys : (OrderedMap.keys s.taken).Nodup := h.taken ▸ nodup_filled hdistinct
          rw [h.count, (perm_pushTo hkeys).length_eq, length_cons]
        · rw [actives, filterMap_append, ← actives, ← h.active, filterMap_cons]
          cases activeAt (level + 1) (key, items key) <;> rfl

theorem filled_next : filled items level keys [] = filled items (level + 1) [] keys := by
  simp [filled]

/-- What the loop ends with: a full page, or everything. -/
def Ended (items : JsString → List JsString) (keys : List JsString) (maxItems : Nat)
    (taken : OrderedMap JsString (List JsString)) : Prop :=
  ∃ level pre suf, pre ++ suf = keys ∧ taken = filled items level pre suf ∧
    ((bucketItems taken).length = maxItems ∨
      (bucketItems taken).length ≤ maxItems ∧ pre = [] ∧
        ∀ key ∈ keys, (items key).length ≤ level)

theorem finishes_filling (hnodup : keys.Nodup) (hne : ∀ key ∈ keys, items key ≠ []) (d : Nat) :
    ∀ (level : Nat) (s : SampleState), (∀ key ∈ keys, (items key).length ≤ level + d) →
      s.active = actives items level keys →
      Filling items keys maxItems level [] keys { s with active := [] } →
      ∃ done, Finishes (sampleTurn maxItems) s done ∧ Ended items keys maxItems done.taken := by
  induction d with
  | zero =>
    intro level s hlength hactive h
    have hnone : s.active = [] := by
      rw [hactive, actives, filterMap_eq_nil_iff]
      intro key hmem
      exact Option.map_eq_none_iff.mpr (getElem?_eq_none (hlength key hmem))
    refine ⟨s, finishes_of_step ?_, level, [], keys, rfl, h.taken, .inr ⟨?_, rfl, hlength⟩⟩
    · rw [sampleTurn, hnone, if_neg (by simp)]
    · exact h.count ▸ h.bound
  | succ d ih =>
    intro level s hlength hactive h
    by_cases hgo : s.active.length > 0 ∧ s.count < maxItems
    · have hturn : sampleTurn maxItems s =
          .ok (.inl (sampleRound maxItems (actives items level keys) { s with active := [] })) := by
        rw [sampleTurn, if_pos hgo, hactive]
      obtain ⟨pre, suf, hnext, hend⟩ := sampleRound_filling hnodup hne h
      rcases hend with rfl | hfull
      · -- a whole round lifts every group by one
        have hkeys := hnext.split
        rw [append_nil] at hkeys
        subst hkeys
        obtain ⟨done, hdone, hended⟩ := ih (level + 1) _
          (fun key hmem => Nat.add_right_comm level d 1 ▸ hlength key hmem) hnext.active
          ⟨rfl, hnext.taken.trans filled_next, hnext.count, rfl, hnext.bound⟩
        exact ⟨done, (leads_of_step hturn).finishes hdone, hended⟩
      · refine ⟨_, (leads_of_step hturn).finishes (finishes_of_step ?_), level, pre, suf,
          hnext.split, hnext.taken, .inl (hnext.count.symm.trans hfull)⟩
        rw [sampleTurn, if_neg fun h => absurd hfull (Nat.ne_of_lt h.2)]
    · refine ⟨s, finishes_of_step (by rw [sampleTurn, if_neg hgo]), level, [], keys, rfl, h.taken,
        ?_⟩
      rcases Nat.lt_or_ge s.count maxItems with hlt | hge
      · refine .inr ⟨h.count ▸ h.bound, rfl, fun key hmem => ?_⟩
        have hnone : s.active = [] := by
          by_contra hsome
          exact hgo ⟨length_pos_iff.mpr hsome, hlt⟩
        rw [hactive, actives, filterMap_eq_nil_iff] at hnone
        exact List.getElem?_eq_none_iff.mp (Option.map_eq_none_iff.mp (hnone key hmem))
      · exact .inl (h.count.symm.trans (Nat.le_antisymm h.bound hge))

end Rounds

/-! ## The shares -/

section Shares

variable (topLevel : JsString → JsString) (paths : List JsString)

/-- How a sample divides the page among the top-level entries. -/
structure Shares (maxItems : Nat) (share : JsString → Nat) (sample : GlobSample) : Prop where
  items : sample.items =
    (entriesOf topLevel paths).flatMap fun entry =>
      (groupOf topLevel paths entry).take (share entry)
  within : ∀ entry, share entry ≤ (groupOf topLevel paths entry).length
  length : sample.items.length = min maxItems paths.length
  given : sample.items.Subperm paths
  fair : ∀ a b, share a + 1 < share b → share a = (groupOf topLevel paths a).length
  earlier : (entriesOf topLevel paths).Pairwise fun a b =>
    share a < share b → share a = (groupOf topLevel paths a).length
  shown : sample.shown = (entriesOf topLevel paths).countP (0 < share ·)
  total : sample.total = (entriesOf topLevel paths).length
  head : (paths.map topLevel).Nodup → sample.items = paths.take maxItems

theorem groupPaths_snoc (path : JsString) : groupPaths topLevel (paths ++ [path]) =
    pushTo (groupPaths topLevel paths) (topLevel path) path := by
  rw [groupPaths, foldl_append]
  rfl

theorem keys_groupPaths : (groupPaths topLevel paths).keys = entriesOf topLevel paths := by
  rw [groupPaths_eq, OrderedMap.keys, map_map]
  exact map_id _

theorem bucketItems_groupPaths : bucketItems (groupPaths topLevel paths) =
    (entriesOf topLevel paths).flatMap (groupOf topLevel paths) := by
  rw [groupPaths_eq, bucketItems, map_map]
  rfl

theorem perm_groupPaths : (bucketItems (groupPaths topLevel paths)).Perm paths := by
  induction paths using List.reverseRecOn with
  | nil => exact .nil
  | append_singleton paths path ih =>
    rw [groupPaths_snoc]
    have hnodup : (groupPaths topLevel paths).keys.Nodup :=
      (keys_groupPaths topLevel paths).symm ▸ nodup_entriesOf topLevel paths
    exact (perm_pushTo hnodup).trans
      ((ih.cons path).trans (perm_append_singleton path paths).symm)

theorem groupPaths_distinct (h : (paths.map topLevel).Nodup) :
    groupPaths topLevel paths = paths.map fun path => (topLevel path, [path]) := by
  induction paths using List.reverseRecOn with
  | nil => rfl
  | append_singleton paths path ih =>
    rw [map_append, map_singleton, ← concat_eq_append, nodup_concat] at h
    rw [groupPaths_snoc, ih h.2, map_append, pushTo_fresh]
    · rfl
    · rw [OrderedMap.keys, map_map]
      exact h.1

variable {topLevel paths}

theorem groupOf_ne_nil {entry : JsString} (h : entry ∈ entriesOf topLevel paths) :
    groupOf topLevel paths entry ≠ [] := by
  obtain ⟨path, hmem, rfl⟩ := mem_map.mp (mem_eraseDups.mp h)
  exact ne_nil_of_mem (mem_filter.mpr ⟨hmem, decide_eq_true rfl⟩)

/-- What a group has given when the groups of `pre` are one turn ahead. -/
def shareAt (items : JsString → List JsString) (level : Nat) (pre : List JsString)
    (key : JsString) : Nat :=
  min (items key).length (if key ∈ pre then level + 1 else level)

variable {items : JsString → List JsString} {level : Nat} {pre suf : List JsString}
  {a b : JsString}

/-- A group that is behind another has nothing left, unless it is one behind an earlier one. -/
theorem shareAt_eq_length (hlt : shareAt items level pre a < shareAt items level pre b)
    (h : (b ∈ pre → a ∈ pre) ∨ shareAt items level pre a + 1 < shareAt items level pre b) :
    shareAt items level pre a = (items a).length := by
  unfold shareAt at *
  by_cases hb : b ∈ pre
  · by_cases ha : a ∈ pre
    · rw [if_pos ha, if_pos hb] at *
      omega
    rcases h with h | h
    · exact absurd (h hb) ha
    · rw [if_neg ha, if_pos hb] at *
      omega
  · rw [if_neg hb] at *
    split_ifs at * <;> omega

theorem take_shareAt (key : JsString) : (items key).take (shareAt items level pre key) =
    (items key).take (if key ∈ pre then level + 1 else level) := by
  rw [shareAt, Nat.min_comm, ← take_eq_take_min]

theorem bucketItems_append : bucketItems (filled items level pre suf) =
    (pre.flatMap fun key => (items key).take (level + 1)) ++
      if level = 0 then [] else suf.flatMap fun key => (items key).take level := by
  rw [bucketItems, filled]
  split
  all_goals simp [List.flatMap, Function.comp_def]

theorem bucketItems_filled (hnodup : (pre ++ suf).Nodup) :
    bucketItems (filled items level pre suf) =
      (pre ++ suf).flatMap fun key => (items key).take (shareAt items level pre key) := by
  have hpre : (pre.flatMap fun key => (items key).take (shareAt items level pre key)) =
      pre.flatMap fun key => (items key).take (level + 1) :=
    flatMap_congr fun key hkey => by rw [take_shareAt, if_pos hkey]
  have hsuf : (suf.flatMap fun key => (items key).take (shareAt items level pre key)) =
      suf.flatMap fun key => (items key).take level :=
    flatMap_congr fun key hkey => by
      rw [take_shareAt, if_neg fun h => (nodup_append.mp hnodup).2.2 _ h _ hkey rfl]
  rw [bucketItems_append, flatMap_append, hpre, hsuf]
  split
  case isTrue h => simp [h]
  case isFalse => rfl

theorem length_filled (hne : ∀ key ∈ pre ++ suf, items key ≠ []) (hnodup : (pre ++ suf).Nodup) :
    (filled items level pre suf).length =
      (pre ++ suf).countP (0 < shareAt items level pre ·) := by
  have hlength : ∀ key ∈ pre ++ suf, 0 < (items key).length :=
    fun key hkey => length_pos_iff.mpr (hne key hkey)
  have hpre : pre.countP (0 < shareAt items level pre ·) = pre.length :=
    countP_eq_length.mpr fun key hkey => by
      have := hlength key (mem_append_left _ hkey)
      rw [shareAt, if_pos hkey]
      exact decide_eq_true (by omega)
  have hsuf : suf.countP (0 < shareAt items level pre ·) = if level = 0 then 0 else suf.length := by
    have hshare : ∀ key ∈ suf, shareAt items level pre key = min (items key).length level :=
      fun key hkey => by
        rw [shareAt, if_neg fun h => (nodup_append.mp hnodup).2.2 _ h _ hkey rfl]
    split
    case isTrue h =>
      exact countP_eq_zero.mpr fun key hkey => by
        rw [hshare key hkey, h, Nat.min_zero]
        exact of_decide_eq_false rfl
    case isFalse h =>
      refine countP_eq_length.mpr fun key hkey => ?_
      have := hlength key (mem_append_right _ hkey)
      rw [hshare key hkey]
      exact decide_eq_true (by omega)
  rw [countP_append, hpre, hsuf, filled]
  split <;> simp

section Ending

variable {topLevel : JsString → JsString} {paths : List JsString} {maxItems : Nat}
  {taken : OrderedMap JsString (List JsString)}

/-- A page of distinct entries starts as the paths do. -/
theorem prefix_of_distinct (h : (paths.map topLevel).Nodup)
    (hsplit : pre ++ suf = entriesOf topLevel paths) :
    bucketItems (filled (groupOf topLevel paths) level pre suf) <+: paths := by
  have hnodup : (pre ++ suf).Nodup := hsplit ▸ nodup_entriesOf topLevel paths
  have hgroups := groupPaths_distinct topLevel paths h
  have hall : (entriesOf topLevel paths).flatMap (groupOf topLevel paths) = paths := by
    rw [← bucketItems_groupPaths, hgroups, bucketItems, map_map]
    exact flatMap_singleton' paths
  have hsingle : ∀ entry ∈ pre ++ suf, (groupOf topLevel paths entry).length ≤ 1 := by
    intro entry hentry
    have hmem : (entry, groupOf topLevel paths entry) ∈ groupPaths topLevel paths := by
      rw [groupPaths_eq, ← hsplit]
      exact mem_map_of_mem hentry
    rw [hgroups] at hmem
    obtain ⟨path, -, heq⟩ := mem_map.mp hmem
    rw [← (Prod.mk.inj heq).2]
    exact Nat.le_refl 1
  have hpre : (pre.flatMap fun key => (groupOf topLevel paths key).take (level + 1)) =
      pre.flatMap (groupOf topLevel paths) :=
    flatMap_congr fun key hkey =>
      take_of_length_le (Nat.le_add_left_of_le (hsingle key (mem_append_left _ hkey)))
  rw [← hsplit, flatMap_append] at hall
  suffices hprefix : bucketItems (filled (groupOf topLevel paths) level pre suf) <+:
      pre.flatMap (groupOf topLevel paths) ++ suf.flatMap (groupOf topLevel paths) by
    rwa [hall] at hprefix
  rw [bucketItems_append, hpre]
  split
  case isTrue =>
    rw [append_nil]
    exact prefix_append _ _
  case isFalse h =>
    have hsuf : (suf.flatMap fun key => (groupOf topLevel paths key).take level) =
        suf.flatMap (groupOf topLevel paths) :=
      flatMap_congr fun key hkey => take_of_length_le
        (Nat.le_trans (hsingle key (mem_append_right _ hkey)) (Nat.one_le_iff_ne_zero.mpr h))
    exact hsuf ▸ prefix_rfl

theorem shares_of_ended
    (h : Ended (groupOf topLevel paths) (entriesOf topLevel paths) maxItems taken) :
    ∃ share, Shares topLevel paths maxItems share (sampleOf (groupPaths topLevel paths) taken) := by
  obtain ⟨level, pre, suf, hsplit, rfl, hend⟩ := h
  have hnodup : (pre ++ suf).Nodup := hsplit ▸ nodup_entriesOf topLevel paths
  have hne : ∀ key ∈ pre ++ suf, groupOf topLevel paths key ≠ [] :=
    fun key hkey => groupOf_ne_nil (hsplit ▸ hkey)
  have hitems : bucketItems (filled (groupOf topLevel paths) level pre suf) = _ :=
    bucketItems_filled hnodup
  have hperm : ((pre ++ suf).flatMap (groupOf topLevel paths)).Perm paths := by
    rw [hsplit, ← bucketItems_groupPaths]
    exact perm_groupPaths topLevel paths
  have hgiven : (bucketItems (filled (groupOf topLevel paths) level pre suf)).Subperm paths := by
    rw [hitems]
    exact (List.Sublist.flatMap_right _ fun key _ => take_sublist _ _).subperm.trans
      hperm.subperm
  have hlength : (bucketItems (filled (groupOf topLevel paths) level pre suf)).length =
      min maxItems paths.length := by
    rcases hend with hfull | ⟨hle, rfl, hall⟩
    · have := hgiven.length_le
      omega
    -- nothing is left in any group
    have hwhole : bucketItems (filled (groupOf topLevel paths) level [] suf) =
        ([] ++ suf).flatMap (groupOf topLevel paths) := by
      rw [hitems]
      refine flatMap_congr fun key hkey => ?_
      rw [take_shareAt, if_neg not_mem_nil]
      exact take_of_length_le (hall key (hsplit ▸ hkey))
    have := hwhole ▸ hperm.length_eq
    omega
  refine ⟨shareAt (groupOf topLevel paths) level pre, ?_, fun entry => Nat.min_le_left _ _, hlength,
    hgiven, fun a b h => ?_, ?_, ?_, ?_, fun h => ?_⟩
  · exact hsplit ▸ hitems
  · exact shareAt_eq_length (Nat.lt_of_succ_lt h) (.inr h)
  · rw [← hsplit]
    have hahead : (pre ++ suf).Pairwise fun a b => b ∈ pre → a ∈ pre := by
      refine pairwise_append.mpr ⟨hnodup.of_append_left.imp_of_mem fun ha _ _ _ => ha,
        hnodup.of_append_right.imp_of_mem fun _ hb _ h => ?_, fun _ ha _ _ _ => ha⟩
      exact absurd rfl ((nodup_append.mp hnodup).2.2 _ h _ hb)
    exact hahead.imp fun h hlt => shareAt_eq_length hlt (.inl h)
  · rw [← hsplit]
    exact length_filled hne hnodup
  · rw [sampleOf, groupPaths_eq, length_map]
  · have hprefix : bucketItems (filled (groupOf topLevel paths) level pre suf) <+: paths :=
      prefix_of_distinct h hsplit
    rw [prefix_iff_eq_take, hlength, ← take_eq_take_min] at hprefix
    exact hprefix

end Ending

end Shares

end FsSearch
end Harness
