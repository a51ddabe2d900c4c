-- SUMMARY: The insertion-ordered map of JavaScript as a list of entries.
import Mathlib.Data.List.Induction
import Mathlib.Data.List.Nodup
import Mathlib.Data.List.Perm.Basic

/-!
# Insertion-ordered maps

`Map` keeps its keys in the order in which they were first set. Setting a present
key keeps its place, deleting a key and setting it again moves it to the end.
-/

abbrev OrderedMap (κ ν : Type*) := List (κ × ν)

namespace OrderedMap

open List

variable {κ ν : Type*} [DecidableEq κ]

def keys (m : OrderedMap κ ν) : List κ := m.map Prod.fst

/-- `m.get(key)`. -/
def get? (m : OrderedMap κ ν) (key : κ) : Option ν := (m.find? (·.1 = key)).map Prod.snd

/-- `m.set(key, value)`. -/
def set (m : OrderedMap κ ν) (key : κ) (value : ν) : OrderedMap κ ν :=
  if key ∈ keys m then m.map fun e => if e.1 = key then (key, value) else e
  else m ++ [(key, value)]

/-- `m.delete(key)`. -/
def delete (m : OrderedMap κ ν) (key : κ) : OrderedMap κ ν := m.filter (·.1 ≠ key)

/-- Update the value object under `key` in place, when there is one. -/
def modify (m : OrderedMap κ ν) (key : κ) (f : ν → ν) : OrderedMap κ ν :=
  m.map fun e => if e.1 = key then (e.1, f e.2) else e

variable (l : List (κ × ν))

/-- The map that setting the entries of `l` one after the other builds. -/
def ofList : OrderedMap κ ν := l.foldl (fun m e => set m e.1 e.2) []

omit [DecidableEq κ] in
@[simp] theorem keys_append (m m' : OrderedMap κ ν) : keys (m ++ m') = keys m ++ keys m' :=
  map_append

@[simp] theorem keys_modify (m : OrderedMap κ ν) (key : κ) (f : ν → ν) :
    keys (modify m key f) = keys m := by
  simp only [keys, modify, map_map]
  apply map_congr_left
  intro e _
  simp only [Function.comp_apply]
  split <;> rfl

variable {key : κ} {m : OrderedMap κ ν}

/-- Updating the entry that was appended last. -/
theorem modify_append_fresh (hfresh : key ∉ keys m) (value : ν)
    (f : ν → ν) : modify (m ++ [(key, value)]) key f = m ++ [(key, f value)] := by
  have hold : m.map (fun e => if e.1 = key then (e.1, f e.2) else e) = m := by
    refine (map_congr_left fun e he => ?_).trans (map_id m)
    refine if_neg fun heq => hfresh ?_
    rw [← heq]
    exact mem_map_of_mem he
  rw [modify, map_append, hold]
  simp

theorem keys_set (m : OrderedMap κ ν) (key : κ) (value : ν) :
    keys (set m key value) = if key ∈ keys m then keys m else keys m ++ [key] := by
  unfold set
  split
  · simp only [keys, map_map]
    apply map_congr_left
    intro e _
    simp only [Function.comp_apply]
    split
    · rename_i h
      exact h.symm
    · rfl
  · simp [keys]

theorem keys_delete (m : OrderedMap κ ν) (key : κ) :
    keys (delete m key) = (keys m).filter (· ≠ key) := by
  simp only [keys, delete, filter_map]
  rfl

variable {value : ν}

theorem mem_set {e : κ × ν} (he : e ∈ set m key value) : e ∈ m ∨ e = (key, value) := by
  unfold set at he
  split at he
  · obtain ⟨e', he', heq⟩ := mem_map.mp he
    split at heq
    · exact .inr heq.symm
    · exact .inl (heq ▸ he')
  · rcases mem_append.mp he with he | he
    · exact .inl he
    · exact .inr (mem_singleton.mp he)

theorem get?_eq_none_iff : get? m key = none ↔ key ∉ keys m := by
  simp only [get?, keys, Option.map_eq_none_iff, find?_eq_none, decide_eq_true_eq, mem_map,
    not_exists, not_and]

theorem mem_of_get? (h : get? m key = some value) : (key, value) ∈ m := by
  obtain ⟨e, he, rfl⟩ := Option.map_eq_some_iff.mp h
  have hkey : e.1 = key := by simpa using find?_some he
  rw [← hkey]
  exact mem_of_find?_eq_some he

theorem get?_of_mem (hnodup : (keys m).Nodup) (h : (key, value) ∈ m) : get? m key = some value := by
  cases hget : get? m key with
  | none => exact absurd (mem_map_of_mem h) (get?_eq_none_iff.mp hget)
  | some value' =>
    have hinj := inj_on_of_nodup_map hnodup (mem_of_get? hget) h rfl
    exact congrArg some (Prod.mk.inj hinj).2

theorem get?_cons (e : κ × ν) (m : OrderedMap κ ν) (key : κ) :
    get? (e :: m) key = if e.1 = key then some e.2 else get? m key := by
  by_cases h : e.1 = key <;> simp [get?, h]

theorem get?_delete (m : OrderedMap κ ν) (key key' : κ) :
    get? (delete m key) key' = if key' = key then none else get? m key' := by
  unfold get? delete
  rw [find?_filter]
  split
  · rename_i heq
    subst heq
    simp
  rename_i hne
  congr 2
  funext e
  by_cases he : e.1 = key'
  · simp [he, hne]
  · simp [he]

theorem get?_append_fresh (hfresh : key ∉ keys m) (value : ν)
    (key' : κ) : get? (m ++ [(key, value)]) key' = if key' = key then some value else get? m key' := by
  unfold get?
  rw [find?_append]
  by_cases heq : key' = key
  · subst heq
    have hnone : m.find? (·.1 = key') = none := by simpa [get?] using get?_eq_none_iff.mpr hfresh
    simp [hnone]
  · have hne : ¬ key = key' := fun h => heq h.symm
    simp [heq, hne]

theorem get?_set (m : OrderedMap κ ν) (key : κ) (value : ν) (key' : κ) :
    get? (set m key value) key' = if key' = key then some value else get? m key' := by
  unfold set
  split
  · rename_i hmem
    unfold get?
    rw [find?_map]
    by_cases heq : key' = key
    · subst heq
      obtain ⟨e, he, rfl⟩ := mem_map.mp hmem
      have hsome : (m.find? ((fun x => decide (x.1 = e.1)) ∘
          fun x => if x.1 = e.1 then (e.1, value) else x)).isSome := by
        rw [find?_isSome]
        exact ⟨e, he, by simp⟩
      obtain ⟨x, hx⟩ := Option.isSome_iff_exists.mp hsome
      have hkey : x.1 = e.1 := by
        have := find?_some hx
        by_cases hx' : x.1 = e.1
        · exact hx'
        · simp [hx'] at this
      simp only [hx, Option.map_some, if_pos hkey, if_pos]
    · have hpred : ((fun x : κ × ν => decide (x.1 = key')) ∘
          fun x => if x.1 = key then (key, value) else x) = fun x => decide (x.1 = key') := by
        funext x
        by_cases hx : x.1 = key
        · simp [hx, heq, Ne.symm heq]
        · simp [hx]
      rw [hpred, if_neg heq]
      cases hfind : m.find? (fun x => decide (x.1 = key')) with
      | none => rfl
      | some x =>
        have hkey : x.1 = key' := by simpa using find?_some hfind
        simp [hkey, heq]
  · rename_i hfresh
    exact get?_append_fresh hfresh value key'

/-- The entry of a key, and the rest. -/
theorem perm_delete (hnodup : (keys m).Nodup)
    (h : get? m key = some value) : m.Perm ((key, value) :: delete m key) := by
  have hmem := mem_of_get? h
  have hsingle : m.filter (·.1 = key) = [(key, value)] := by
    refine perm_singleton.mp ?_
    refine (perm_ext_iff_of_nodup (List.Nodup.of_map _ (List.Nodup.sublist
      (List.filter_sublist.map _) hnodup)) (nodup_singleton _)).mpr fun e => ?_
    rw [mem_filter, mem_singleton]
    constructor
    · rintro ⟨he, hkey⟩
      exact inj_on_of_nodup_map hnodup he hmem (by simpa using hkey)
    · rintro rfl
      exact ⟨hmem, by simp⟩
  have hsplit := (filter_append_perm (fun e : κ × ν => decide (e.1 = key)) m).symm
  rw [hsingle] at hsplit
  have hrest : m.filter (fun e => !decide (e.1 = key)) = delete m key := by
    unfold delete
    congr 1
    funext e
    simp
  rw [hrest] at hsplit
  exact hsplit

/-! ## Unique keys -/

theorem nodup_set (h : (keys m).Nodup) (key : κ) (value : ν) : (keys (set m key value)).Nodup := by
  rw [keys_set]
  split
  · exact h
  rename_i hfresh
  exact nodup_append.mpr ⟨h, nodup_singleton _, by
    rintro a ha b hb rfl
    exact hfresh (mem_singleton.mp hb ▸ ha)⟩

theorem nodup_delete (h : (keys m).Nodup) (key : κ) : (keys (delete m key)).Nodup := by
  rw [keys_delete]
  exact h.filter _

theorem nodup_foldl_set (h : (keys m).Nodup) :
    (keys (l.foldl (fun m e => set m e.1 e.2) m)).Nodup := by
  induction l generalizing m with
  | nil => exact h
  | cons e l ih => exact ih (nodup_set h e.1 e.2)

theorem nodup_ofList : (keys (ofList l)).Nodup :=
  nodup_foldl_set l nodup_nil

/-! ## Mapping values -/

/-- Apply `g` to every value. -/
def mapValues {μ : Type*} (g : ν → μ) (m : OrderedMap κ ν) : OrderedMap κ μ :=
  m.map fun e => (e.1, g e.2)

variable {μ : Type*}

omit [DecidableEq κ] in
@[simp] theorem keys_mapValues (g : ν → μ) (m : OrderedMap κ ν) :
    keys (mapValues g m) = keys m := by
  simp [keys, mapValues]

theorem get?_mapValues (g : ν → μ) (m : OrderedMap κ ν) (key : κ) :
    get? (mapValues g m) key = (get? m key).map g := by
  induction m with
  | nil => rfl
  | cons e m ih =>
    have hcons : mapValues g (e :: m) = (e.1, g e.2) :: mapValues g m := rfl
    rw [hcons, get?_cons, get?_cons, ih]
    split <;> rfl

theorem mapValues_set (g : ν → μ) (m : OrderedMap κ ν) (key : κ) (value : ν) :
    mapValues g (set m key value) = set (mapValues g m) key (g value) := by
  unfold set
  rw [keys_mapValues]
  split
  · simp only [mapValues, map_map]
    apply map_congr_left
    intro e _
    simp only [Function.comp_apply]
    split <;> rfl
  · simp [mapValues]

theorem mapValues_modify (g : ν → μ) (f : ν → ν) (f' : μ → μ)
    (hcomm : ∀ v, g (f v) = f' (g v)) (m : OrderedMap κ ν) (key : κ) :
    mapValues g (modify m key f) = modify (mapValues g m) key f' := by
  simp only [mapValues, modify, map_map]
  apply map_congr_left
  intro e _
  simp only [Function.comp_apply]
  split
  · simp [hcomm]
  · rfl

theorem mapValues_delete (g : ν → μ) (m : OrderedMap κ ν) (key : κ) :
    mapValues g (delete m key) = delete (mapValues g m) key := by
  simp only [mapValues, delete, filter_map]
  rfl

/-! ## Dropping entries -/

/-- What a filter on the entries leaves under a key. -/
theorem get?_filter (hnodup : (keys m).Nodup) (p : κ × ν → Bool) (key : κ) :
    get? (m.filter p) key = (get? m key).filter fun value => p (key, value) := by
  induction m with
  | nil => rfl
  | cons e m ih =>
    obtain ⟨k, v⟩ := e
    obtain ⟨hfresh, hnodup⟩ : k ∉ keys m ∧ (keys m).Nodup := nodup_cons.mp hnodup
    have hrest := ih hnodup
    by_cases hkey : k = key
    · subst hkey
      rw [get?_eq_none_iff.mpr hfresh] at hrest
      rw [get?_cons, if_pos rfl, filter_cons]
      cases hp : p (k, v) with
      | true => simp [get?_cons, Option.filter, hp]
      | false => simpa [Option.filter, hp] using hrest
    · rw [get?_cons, if_neg hkey, filter_cons, ← hrest]
      split
      · rw [get?_cons, if_neg hkey]
      · rfl

omit [DecidableEq κ] in
theorem nodup_filter (hnodup : (keys m).Nodup) (p : κ × ν → Bool) : (keys (m.filter p)).Nodup :=
  hnodup.sublist (List.filter_sublist.map _)

/-! ## Maps built from lists -/

theorem ofList_append (l l' : List (κ × ν)) :
    ofList (l ++ l') = l'.foldl (fun m e => set m e.1 e.2) (ofList l) :=
  foldl_append

theorem ofList_snoc (e : κ × ν) : ofList (l ++ [e]) = set (ofList l) e.1 e.2 := by
  rw [ofList_append]
  rfl

/-- A list without repeated keys is its own map. -/
theorem ofList_eq_self {l : List (κ × ν)} (h : (keys l).Nodup) : ofList l = l := by
  induction l using List.reverseRecOn with
  | nil => rfl
  | append_singleton l e ih =>
    rw [keys_append, nodup_append] at h
    obtain ⟨hl, -, hdisjoint⟩ := h
    have hfresh : e.1 ∉ keys l := fun hmem => hdisjoint e.1 hmem e.1 (by simp [keys]) rfl
    rw [ofList_snoc, ih hl, set, if_neg hfresh]

theorem length_set_le (m : OrderedMap κ ν) (key : κ) (value : ν) :
    (set m key value).length ≤ m.length + 1 := by
  unfold set
  split
  · simp
  · simp

theorem length_ofList_le : (ofList l).length ≤ l.length := by
  induction l using List.reverseRecOn with
  | nil => exact Nat.le_refl _
  | append_singleton l e ih =>
    rw [ofList_snoc, length_append, length_singleton]
    exact Nat.le_trans (length_set_le _ _ _) (Nat.succ_le_succ ih)

/-- Setting what is there. -/
theorem set_of_get? (hnodup : (keys m).Nodup) (h : get? m key = some value) :
    set m key value = m := by
  have hmem : key ∈ keys m := mem_map.mpr ⟨_, mem_of_get? h, rfl⟩
  rw [set, if_pos hmem]
  refine (map_congr_left fun e he => ?_).trans (map_id m)
  split
  · rename_i heq
    have hvalue := get?_of_mem hnodup he
    rw [heq, h] at hvalue
    exact Prod.ext heq.symm (Option.some.inj hvalue)
  · rfl

theorem set_modify_comm (m : OrderedMap κ ν) (key key' : κ) (value : ν) (f : ν → ν) :
    set (modify m key f) key' (if key' = key then f value else value) =
      modify (set m key' value) key f := by
  unfold set
  rw [keys_modify]
  split
  · simp only [modify, map_map]
    apply map_congr_left
    intro e _
    simp only [Function.comp_apply]
    by_cases h : e.1 = key' <;> by_cases h' : e.1 = key <;> by_cases h'' : key' = key <;> simp_all
  · simp only [modify, map_append, map_singleton]
    by_cases h : key' = key <;> simp [h]

/-- Updating the values under one key commutes with building the map. -/
theorem ofList_map_modify (key : κ) (f : ν → ν) :
    ofList (l.map fun e => if e.1 = key then (e.1, f e.2) else e) = modify (ofList l) key f := by
  induction l using List.reverseRecOn with
  | nil => rfl
  | append_singleton l e ih =>
    rw [map_append, map_singleton, ofList_snoc, ofList_snoc, ih, ← set_modify_comm]
    by_cases h : e.1 = key <;> simp [h]

theorem set_delete_self (m : OrderedMap κ ν) (key : κ) (value : ν) :
    delete (set m key value) key = delete m key := by
  unfold set
  split
  · simp only [delete, filter_map]
    rw [show ((fun e : κ × ν => decide (e.1 ≠ key)) ∘
        fun e => if e.1 = key then (key, value) else e) = fun e => decide (e.1 ≠ key) by
      funext e
      by_cases h : e.1 = key <;> simp [h]]
    conv_rhs => rw [← map_id (m.filter _)]
    apply map_congr_left
    intro e he
    have : e.1 ≠ key := by simpa using (mem_filter.mp he).2
    simp [this]
  · simp [delete]

theorem set_delete_of_ne (m : OrderedMap κ ν) {key key' : κ} (hne : key' ≠ key) (value : ν) :
    delete (set m key' value) key = set (delete m key) key' value := by
  unfold set
  have hmem : key' ∈ keys (delete m key) ↔ key' ∈ keys m := by
    rw [keys_delete]
    simp [hne]
  by_cases h : key' ∈ keys m
  · rw [if_pos h, if_pos (hmem.mpr h)]
    simp only [delete, filter_map]
    rw [show ((fun e : κ × ν => decide (e.1 ≠ key)) ∘
        fun e => if e.1 = key' then (key', value) else e) = fun e => decide (e.1 ≠ key) by
      funext e
      by_cases h' : e.1 = key' <;> simp [h', hne]]
  · rw [if_neg h, if_neg (fun h' => h (hmem.mp h'))]
    simp [delete, hne]

/-- Deleting one key commutes with building the map. -/
theorem ofList_filter (key : κ) : ofList (l.filter (·.1 ≠ key)) = delete (ofList l) key := by
  induction l using List.reverseRecOn with
  | nil => rfl
  | append_singleton l e ih =>
    rw [ofList_snoc]
    by_cases h : e.1 = key
    · rw [h, set_delete_self, ← ih]
      simp [h]
    · rw [set_delete_of_ne _ h, ← ih, ← ofList_snoc]
      simp [h]

end OrderedMap
