-- SUMMARY: `applyPathOp` of `settings/src/index.ts`: path-addressed edits of a section, and what one edit does at each position.
import Harness.Settings.Value

/-!
# Path edits
-/

namespace Harness

open List Setting OrderedMap

/-- What a path op does at its path. -/
inductive SettingsEdit where
  | set (value : Setting)
  | unset

/-- One path-addressed edit to a namespace's user section. -/
structure SettingsPathOp where
  op : SettingsEdit
  path : List JsString

/-- Whether a value is a plain data object. `Object.prototype` is one: its prototype is null. -/
def isPlainObject : Setting → Bool
  | .record _ => true
  | .inherited name => decide (name = protoKey)
  | _ => false

def applyPathEdit (edit : SettingsEdit) : Setting → List JsString → Except String Setting
  | _, [] =>
    match edit with
    | .unset => .ok (.record [])
    | .set value =>
      if isPlainObject value then .ok (.record value.entries)
      else .error "settings mutate: setting the section root requires a plain object"
  | section_, [head] =>
    match edit with
    | .set value => .ok (.record (set section_.entries head value))
    | .unset => .ok (.record (delete section_.entries head))
  | section_, head :: rest =>
    let child := section_.member head
    if !isPlainObject child then
      match edit with
      -- an absent path is already unset; setting creates the objects on the way
      | .unset => .ok section_
      | .set _ => (applyPathEdit edit (.record []) rest).map fun created =>
          .record (set section_.entries head created)
    else (applyPathEdit edit child rest).map fun changed =>
      .record (set section_.entries head changed)

/-- Apply one path op to a detached section, returning the next section. -/
def applyPathOp (section_ : Setting) (op : SettingsPathOp) : Except String Setting :=
  applyPathEdit op.op section_ op.path

/-- The edits of one `mutate`, each on what the ones before it left. -/
def mutateSection (current : Setting) (ops : List SettingsPathOp) : Except String Setting :=
  ops.foldlM applyPathOp current

/-! ## Plain objects -/

variable {s : Setting}

theorem own_of_plain (h : isPlainObject s = true) : s.own = s.entries := by
  cases s <;> first | rfl | cases h

theorem content_of_plain (h : isPlainObject s = true) : s.content = .record := by
  cases s with
  | record => rfl
  | inherited name =>
    have hproto : name = protoKey := of_decide_eq_true h
    simp [content, hproto]
  | _ => cases h

/-- Below a plain object, a read finds the own value, or something with no own keys where
there is none. -/
theorem member_cases (h : isPlainObject s = true) (key : JsString) : s.member key = s.ownValue key
      ∨ (s.ownValue key = .undefined ∧ ∀ k, (s.member key).ownValue k = .undefined) := by
  have hinherited : ∀ k, (inheritedMember key).ownValue k = .undefined := by
    intro k
    unfold inheritedMember
    split <;> rfl
  cases s with
  | record fields =>
    simp only [member, ownValue, own]
    cases hget : get? fields key with
    | some value => exact .inl rfl
    | none => exact .inr ⟨rfl, hinherited⟩
  | inherited name =>
    have hproto : name = protoKey := of_decide_eq_true h
    refine .inr ⟨rfl, fun k => ?_⟩
    simp only [member, hproto, if_true]
    split
    · rfl
    · exact hinherited k
  | _ => cases h

variable {p : List JsString}

theorem at__of_empty (h : ∀ k, s.ownValue k = .undefined) (hp : p ≠ []) : s.at_ p = .undefined := by
  cases p with
  | nil => exact absurd rfl hp
  | cons key rest => rw [at__cons, h key, at__undefined]

/-- A value with no own properties but for its items. -/
theorem at__of_not_plain (hplain : isPlainObject s = false)
    (harray : ∀ items, s ≠ .array items) (hp : p ≠ []) :
    s.at_ p = .undefined := by
  refine at__of_empty (fun k => ?_) hp
  cases s with
  | record fields => cases hplain
  | array items => exact absurd rfl (harray items)
  | _ => rfl

@[simp] theorem ownValue_set (fields : OrderedMap JsString Setting) (head : JsString)
    (value : Setting) (key : JsString) :
    (Setting.record (set fields head value)).ownValue key
      = if key = head then value else (Setting.record fields).ownValue key := by
  simp only [ownValue, own, get?_set]
  split <;> rfl

@[simp] theorem ownValue_delete (fields : OrderedMap JsString Setting) (head key : JsString) :
    (Setting.record (delete fields head)).ownValue key
      = if key = head then .undefined else (Setting.record fields).ownValue key := by
  simp only [ownValue, own, get?_delete]
  split <;> rfl

theorem ownValue_entries (h : isPlainObject s = true) (key : JsString) :
    (Setting.record s.entries).ownValue key = s.ownValue key := by
  rw [ownValue, ownValue, own_of_plain h]
  rfl

/-! ## One edit, position by position -/

/-- The position holds an array. -/
def IsArray (value : Setting) : Prop := ∃ items, value = .array items

/-- Neither position is at or under the other. -/
def Apart (p q : List JsString) : Prop := ¬ p <+: q ∧ ¬ q <+: p

/-- What setting `value` at `path` does to `before`. An array on the way is replaced, with
every item that the path does not go through. -/
structure SetsAt (before : Setting) (path : List JsString) (value after : Setting) : Prop where
  here : ∀ q, after.at_ (path ++ q) = value.at_ q
  way : ∀ q, q <+: path → q ≠ path → (after.at_ q).content = .record
  broken : ∀ q, Apart path q → (∃ b, b <+: path ∧ b <+: q ∧ IsArray (before.at_ b)) →
    after.at_ q = .undefined
  rest : ∀ q, Apart path q → (∀ b, b <+: path → b <+: q → ¬ IsArray (before.at_ b)) →
    after.at_ q = before.at_ q

/-- What unsetting `path` does to `before`. Nothing happens where an array is on the way. -/
structure UnsetsAt (before : Setting) (path : List JsString) (after : Setting) : Prop where
  here : (∀ b, b <+: path → b ≠ path → ¬ IsArray (before.at_ b)) →
    ∀ q, after.at_ (path ++ q) = .undefined
  blocked : (∃ b, b <+: path ∧ b ≠ path ∧ IsArray (before.at_ b)) →
    ∀ q, after.at_ (path ++ q) = before.at_ (path ++ q)
  way : ∀ q, q <+: path → q ≠ path →
    (after.at_ q).content = (before.at_ q).content
      ∨ (before.at_ q = .undefined ∧ (after.at_ q).content = .record)
  array : ∀ q, q <+: path → q ≠ path → IsArray (before.at_ q) → after.at_ q = before.at_ q
  rest : ∀ q, Apart path q → after.at_ q = before.at_ q

variable {head : JsString}

theorem apart_cons {p q : List JsString} : Apart (head :: p) (head :: q) ↔ Apart p q := by
  simp [Apart, cons_prefix_cons]

theorem not_apart_nil : ¬ Apart p [] := fun h => h.2 nil_prefix

theorem not_isArray_of_plain (h : isPlainObject s = true) : ¬ IsArray s := by
  rintro ⟨items, rfl⟩
  cases h

theorem setsAt_key (h : isPlainObject s = true) (head : JsString) (value : Setting) :
    SetsAt s [head] value (.record (set s.entries head value)) := by
  refine ⟨?_, ?_, ?_, ?_⟩
  · intro q
    simp
  · intro q hq hne
    have hnil : q = [] := by
      rcases prefix_cons_iff.mp hq with hnil | ⟨t, rfl, ht⟩
      · exact hnil
      · exact absurd (by rw [prefix_nil.mp ht]) hne
    rw [hnil]
    rfl
  · rintro q hapart ⟨b, hb, hbq, harray⟩
    rcases prefix_cons_iff.mp hb with rfl | ⟨t, rfl, ht⟩
    · exact absurd harray (not_isArray_of_plain h)
    · rw [prefix_nil.mp ht] at hbq
      exact absurd hbq hapart.1
  · intro q hapart _
    cases q with
    | nil => exact absurd hapart not_apart_nil
    | cons key q =>
      have hne : key ≠ head := by
        rintro rfl
        exact hapart.1 (cons_prefix_cons.mpr ⟨rfl, nil_prefix⟩)
      simp [hne, ownValue_entries h]

/-- What an edit below `head` goes on from: the own value there, or an object with no own
keys where there is none. -/
def GoesOn (s below : Setting) (head : JsString) : Prop :=
  isPlainObject below = true ∧ (below = s.ownValue head
    ∨ (isPlainObject (s.ownValue head) = false ∧ ∀ k, below.ownValue k = .undefined))

/-- Positions apart from a path that begins with `head`. -/
theorem apart_cases {path q : List JsString} (h : Apart (head :: path) q) :
    (∃ q', q = head :: q' ∧ Apart path q') ∨ ∃ key q', q = key :: q' ∧ key ≠ head := by
  cases q with
  | nil => exact absurd h not_apart_nil
  | cons key q' =>
    by_cases hkey : key = head
    · subst hkey
      exact .inl ⟨q', rfl, apart_cons.mp h⟩
    · exact .inr ⟨key, q', rfl, hkey⟩

theorem at__after_key {s created : Setting} (h : isPlainObject s = true) {head key : JsString}
    (hne : key ≠ head) (q : List JsString) :
    (Setting.record (set s.entries head created)).at_ (key :: q) = s.at_ (key :: q) := by
  simp [hne, ownValue_entries h]

theorem at__after_head {s created : Setting} (q : List JsString) :
    (Setting.record (set s.entries head created)).at_ (head :: q) = created.at_ q := by
  simp

/-- Only the root is on the way to two keys that differ. -/
theorem not_isArray_root (h : isPlainObject s = true) {head key : JsString}
    (hne : key ≠ head) {path q b : List JsString} (hb : b <+: head :: path) (hbq : b <+: key :: q) :
    ¬ IsArray (s.at_ b) := by
  rcases prefix_cons_iff.mp hb with rfl | ⟨t, rfl, -⟩
  · exact not_isArray_of_plain h
  · exact absurd (cons_prefix_cons.mp hbq).1.symm hne

variable {path : List JsString}

/-- Setting through a key of a plain object. -/
theorem setsAt_cons {s below created value : Setting} (h : isPlainObject s = true)
    (hbelow : GoesOn s below head)
    (hset : SetsAt below path value created) :
    SetsAt s (head :: path) value (.record (set s.entries head created)) := by
  obtain ⟨hplain, hbelow⟩ := hbelow
  have hempty : ∀ q, Apart path q → (∀ k, below.ownValue k = .undefined) →
      created.at_ q = .undefined := by
    intro q hapart hnone
    have hq : q ≠ [] := fun heq => not_apart_nil (heq ▸ hapart)
    rw [hset.rest q hapart, at__of_empty hnone hq]
    intro b _ _
    cases b with
    | nil => exact not_isArray_of_plain hplain
    | cons k rest =>
      rw [at__cons, hnone k, at__undefined]
      rintro ⟨items, hitems⟩
      cases hitems
  refine ⟨?_, ?_, ?_, ?_⟩
  · intro q
    rw [cons_append, at__after_head]
    exact hset.here q
  · intro q hq hne
    rcases prefix_cons_iff.mp hq with rfl | ⟨t, rfl, ht⟩
    · rfl
    · rw [at__after_head]
      exact hset.way t ht fun heq => hne (heq ▸ rfl)
  · rintro q hapart ⟨b, hb, hbq, harray⟩
    rcases apart_cases hapart with ⟨q', rfl, hapart'⟩ | ⟨key, q', rfl, hne⟩
    · rw [at__after_head]
      rcases hbelow with rfl | ⟨-, hnone⟩
      · rcases prefix_cons_iff.mp hb with rfl | ⟨t, rfl, ht⟩
        · exact absurd harray (not_isArray_of_plain h)
        · exact hset.broken q' hapart' ⟨t, ht, (cons_prefix_cons.mp hbq).2, harray⟩
      · exact hempty q' hapart' hnone
    · exact absurd harray (not_isArray_root h hne hb hbq)
  · intro q hapart harrays
    rcases apart_cases hapart with ⟨q', rfl, hapart'⟩ | ⟨key, q', rfl, hne⟩
    · rw [at__after_head, at__cons]
      rcases hbelow with rfl | ⟨hother, hnone⟩
      · refine hset.rest q' hapart' fun b hb hbq => ?_
        exact harrays (head :: b) (cons_prefix_cons.mpr ⟨rfl, hb⟩)
          (cons_prefix_cons.mpr ⟨rfl, hbq⟩)
      · have hq : q' ≠ [] := fun heq => not_apart_nil (heq ▸ hapart')
        rw [hempty q' hapart' hnone, at__of_not_plain hother ?_ hq]
        intro items heq
        exact harrays [head] (cons_prefix_cons.mpr ⟨rfl, nil_prefix⟩)
          (cons_prefix_cons.mpr ⟨rfl, nil_prefix⟩) ⟨items, heq⟩
    · exact at__after_key h hne q'

/-- Unsetting a key of a plain object. -/
theorem unsetsAt_key (h : isPlainObject s = true) (head : JsString) :
    UnsetsAt s [head] (.record (delete s.entries head)) := by
  have hroot : ∀ b, b <+: [head] → b ≠ [head] → b = [] := by
    intro b hb hne
    rcases prefix_cons_iff.mp hb with rfl | ⟨t, rfl, ht⟩
    · rfl
    · exact absurd (by rw [prefix_nil.mp ht]) hne
  refine ⟨?_, ?_, ?_, ?_, ?_⟩
  · intro _ q
    simp
  · rintro ⟨b, hb, hne, harray⟩
    rw [hroot b hb hne] at harray
    exact absurd harray (not_isArray_of_plain h)
  · intro q hq hne
    rw [hroot q hq hne]
    exact .inl (content_of_plain h).symm
  · intro q hq hne harray
    rw [hroot q hq hne] at harray
    exact absurd harray (not_isArray_of_plain h)
  · intro q hapart
    rcases apart_cases hapart with ⟨q', rfl, hapart'⟩ | ⟨key, q', rfl, hne⟩
    · exact absurd nil_prefix hapart'.1
    · simp [hne, ownValue_entries h]

/-- Unsetting through something that is no plain object changes nothing. -/
theorem unsetsAt_stop (hpath : path ≠ [])
    (hother : isPlainObject (s.ownValue head) = false) : UnsetsAt s (head :: path) s := by
  refine ⟨?_, fun _ _ => rfl, fun _ _ _ => .inl rfl, fun _ _ _ _ => rfl, fun _ _ => rfl⟩
  intro harrays q
  rw [cons_append, at__cons, at__of_not_plain hother ?_ (by simp [hpath])]
  intro items heq
  exact harrays [head] (cons_prefix_cons.mpr ⟨rfl, nil_prefix⟩)
    (fun hcons => hpath (cons.inj hcons).2.symm) ⟨items, heq⟩

/-- Unsetting through a key that holds a plain object. -/
theorem unsetsAt_cons {s changed : Setting} (h : isPlainObject s = true)
    (hunset : UnsetsAt (s.ownValue head) path changed) :
    UnsetsAt s (head :: path) (.record (set s.entries head changed)) := by
  refine ⟨?_, ?_, ?_, ?_, ?_⟩
  · intro harrays q
    rw [cons_append, at__after_head]
    refine hunset.here (fun b hb hne => ?_) q
    exact harrays (head :: b) (cons_prefix_cons.mpr ⟨rfl, hb⟩)
      fun heq => hne (cons.inj heq).2
  · rintro ⟨b, hb, hne, harray⟩ q
    rw [cons_append, at__after_head]
    rcases prefix_cons_iff.mp hb with rfl | ⟨t, rfl, ht⟩
    · exact absurd harray (not_isArray_of_plain h)
    · exact hunset.blocked ⟨t, ht, fun heq => hne (heq ▸ rfl), harray⟩ q
  · intro q hq hne
    rcases prefix_cons_iff.mp hq with rfl | ⟨t, rfl, ht⟩
    · exact .inl (content_of_plain h).symm
    · rw [at__after_head]
      exact hunset.way t ht fun heq => hne (heq ▸ rfl)
  · intro q hq hne harray
    rcases prefix_cons_iff.mp hq with rfl | ⟨t, rfl, ht⟩
    · exact absurd harray (not_isArray_of_plain h)
    · rw [at__after_head]
      exact hunset.array t ht (fun heq => hne (heq ▸ rfl)) harray
  · intro q hapart
    rcases apart_cases hapart with ⟨q', rfl, hapart'⟩ | ⟨key, q', rfl, hne⟩
    · rw [at__after_head]
      exact hunset.rest q' hapart'
    · exact at__after_key h hne q'

/-- Unsetting through `Object.prototype`, where the section has no own value: an empty object
is left there. -/
theorem unsetsAt_inherited {s below changed : Setting} (h : isPlainObject s = true)
    (hown : s.ownValue head = .undefined) (hplain : isPlainObject below = true)
    (hnone : ∀ k, below.ownValue k = .undefined) (hunset : UnsetsAt below path changed) :
    UnsetsAt s (head :: path) (.record (set s.entries head changed)) := by
  have habsent : ∀ q, s.at_ (head :: q) = .undefined := by
    intro q
    rw [at__cons, hown, at__undefined]
  have hbelow : ∀ q, q ≠ [] → below.at_ q = .undefined := fun q hq => at__of_empty hnone hq
  have hnoArray : ∀ b, ¬ IsArray (below.at_ b) := by
    intro b
    by_cases hb : b = []
    · rw [hb]
      exact not_isArray_of_plain hplain
    · rw [hbelow b hb]
      exact fun ⟨_, heq⟩ => nomatch heq
  refine ⟨?_, ?_, ?_, ?_, ?_⟩
  · intro _ q
    rw [cons_append, at__after_head]
    exact hunset.here (fun b _ _ => hnoArray b) q
  · rintro ⟨b, hb, hne, harray⟩ q
    rcases prefix_cons_iff.mp hb with rfl | ⟨t, rfl, ht⟩
    · exact absurd harray (not_isArray_of_plain h)
    · rw [habsent t] at harray
      exact absurd harray fun ⟨_, heq⟩ => nomatch heq
  · intro q hq hne
    rcases prefix_cons_iff.mp hq with rfl | ⟨t, rfl, ht⟩
    · exact .inl (content_of_plain h).symm
    rw [at__after_head, habsent t]
    have htne : t ≠ path := fun heq => hne (heq ▸ rfl)
    rcases hunset.way t ht htne with hsame | ⟨-, hrecord⟩
    · by_cases htnil : t = []
      · rw [htnil] at hsame
        rw [htnil]
        exact .inr ⟨rfl, hsame.trans (content_of_plain hplain)⟩
      · rw [hbelow t htnil] at hsame
        exact .inl hsame
    · exact .inr ⟨rfl, hrecord⟩
  · intro q hq hne harray
    rcases prefix_cons_iff.mp hq with rfl | ⟨t, rfl, ht⟩
    · exact absurd harray (not_isArray_of_plain h)
    · rw [habsent t] at harray
      exact absurd harray fun ⟨_, heq⟩ => nomatch heq
  · intro q hapart
    rcases apart_cases hapart with ⟨q', rfl, hapart'⟩ | ⟨key, q', rfl, hne⟩
    · have hq : q' ≠ [] := fun heq => not_apart_nil (heq ▸ hapart')
      rw [at__after_head, habsent q', hunset.rest q' hapart', hbelow q' hq]
    · exact at__after_key h hne q'

/-- Setting a path that is not empty never fails. -/
theorem applyPathEdit_set (h : isPlainObject s = true) (value : Setting) (hpath : path ≠ []) :
    ∃ after, applyPathEdit (.set value) s path = .ok after ∧ isPlainObject after = true
      ∧ SetsAt s path value after := by
  induction path generalizing s with
  | nil => exact absurd rfl hpath
  | cons head rest ih =>
    cases rest with
    | nil => exact ⟨_, rfl, rfl, setsAt_key h head value⟩
    | cons key rest =>
      have hrest : key :: rest ≠ [] := by simp
      cases hchild : isPlainObject (s.member head) with
      | true =>
        obtain ⟨created, hok, -, hset⟩ := ih hchild hrest
        refine ⟨.record (set s.entries head created), ?_, rfl, ?_⟩
        · simp only [applyPathEdit, hchild, Bool.not_true, Bool.false_eq_true, if_false, hok]
          rfl
        refine setsAt_cons h ⟨hchild, ?_⟩ hset
        rcases member_cases h head with heq | ⟨hown, hnone⟩
        · exact .inl heq
        · exact .inr ⟨by rw [hown]; rfl, hnone⟩
      | false =>
        have hempty : isPlainObject (.record []) = true := rfl
        obtain ⟨created, hok, -, hset⟩ := ih hempty hrest
        refine ⟨.record (set s.entries head created), ?_, rfl, ?_⟩
        · simp only [applyPathEdit, hchild, Bool.not_false, if_true, hok]
          rfl
        refine setsAt_cons h ⟨hempty, .inr ⟨?_, fun _ => rfl⟩⟩ hset
        rcases member_cases h head with heq | ⟨hown, -⟩
        · rw [← heq]
          exact hchild
        · rw [hown]
          rfl

/-- Unsetting a path that is not empty never fails. -/
theorem applyPathEdit_unset (h : isPlainObject s = true) (hpath : path ≠ []) :
    ∃ after, applyPathEdit .unset s path = .ok after ∧ isPlainObject after = true
      ∧ UnsetsAt s path after := by
  induction path generalizing s with
  | nil => exact absurd rfl hpath
  | cons head rest ih =>
    cases rest with
    | nil => exact ⟨_, rfl, rfl, unsetsAt_key h head⟩
    | cons key rest =>
      have hrest : key :: rest ≠ [] := by simp
      cases hchild : isPlainObject (s.member head) with
      | true =>
        obtain ⟨changed, hok, -, hunset⟩ := ih hchild hrest
        refine ⟨.record (set s.entries head changed), ?_, rfl, ?_⟩
        · simp only [applyPathEdit, hchild, Bool.not_true, Bool.false_eq_true, if_false, hok]
          rfl
        rcases member_cases h head with heq | ⟨hown, hnone⟩
        · rw [heq] at hunset
          exact unsetsAt_cons h hunset
        · exact unsetsAt_inherited h hown hchild hnone hunset
      | false =>
        refine ⟨s, ?_, h, unsetsAt_stop hrest ?_⟩
        · simp only [applyPathEdit, hchild, Bool.not_false, if_true]
        rcases member_cases h head with heq | ⟨hown, -⟩
        · rw [← heq]
          exact hchild
        · rw [hown]
          rfl

end Harness
