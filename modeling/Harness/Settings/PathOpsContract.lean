-- SUMMARY: A list of path edits leaves each position to the last edit at or above it, exactly where no edit runs into an array or a scalar.
import Harness.Settings.PathOps

/-!
# Path edits, position by position

`decided` is what a position should hold: what the last op at or above it puts there,
or else what the section holds. The edits are compared with it at every position.
-/

namespace Harness

open List Setting

/-! ## What a position should hold -/

/-- What an op puts at `rest` below its path. Unsetting the root leaves an empty section. -/
def SettingsPathOp.puts (op : SettingsPathOp) (rest : List JsString) : Setting :=
  match op.op with
  | .set value => value.at_ rest
  | .unset => if op.path = [] ∧ rest = [] then .record [] else .undefined

/-- What the last op at or above a position puts there, or what the section holds there. -/
def decided (root : Setting) (ops : List SettingsPathOp) (q : List JsString) : Setting :=
  ops.foldl (fun held op => if op.path <+: q then op.puts (q.drop op.path.length) else held)
    (root.at_ q)

/-- The position came to be on the way to the path of an op, and no later op is at or above it. -/
def Created (root : Setting) (ops : List SettingsPathOp) (q : List JsString) : Prop :=
  ∃ pre op post before, ops = pre ++ op :: post ∧ mutateSection root pre = .ok before
    ∧ before.at_ q = .undefined ∧ q <+: op.path ∧ q ≠ op.path
    ∧ ∀ later ∈ post, ¬ later.path <+: q

/-- Every position holds what was decided for it, unless it was created on the way to a path. -/
def Decides (root : Setting) (ops : List SettingsPathOp) (result : Setting) : Prop :=
  ∀ q, (result.at_ q).content = (decided root ops q).content
    ∨ (decided root ops q = .undefined ∧ (result.at_ q).content = .record ∧ Created root ops q)

/-- What an op may meet on its way: a set runs through objects and absent positions only, an unset
through no array that holds something at its path. -/
def SettingsPathOp.MayPass (op : SettingsPathOp) (held : Setting) (rest : List JsString) : Prop :=
  match op.op with
  | .set _ => held.content = .absent ∨ held.content = .record
  | .unset => IsArray held → held.at_ rest = .undefined

/-- Every op may pass each position on its way, apart from positions that a later op decides. -/
def PathsClear (root : Setting) (ops : List SettingsPathOp) : Prop :=
  ∀ pre op post, ops = pre ++ op :: post → ∀ a, a <+: op.path → a ≠ op.path →
    (∀ later ∈ post, ¬ later.path <+: a) →
    (op.op = .unset → ∀ later ∈ post, ¬ later.path <+: op.path) →
    op.MayPass (decided root pre a) (op.path.drop a.length)

theorem decided_snoc (root : Setting) (ops : List SettingsPathOp) (op : SettingsPathOp)
    (q : List JsString) : decided root (ops ++ [op]) q
      = if op.path <+: q then op.puts (q.drop op.path.length) else decided root ops q := by
  simp [decided]

variable {q : List JsString}

theorem decided_append (root : Setting) (pre : List SettingsPathOp) {post : List SettingsPathOp}
    (h : ∀ later ∈ post, ¬ later.path <+: q) :
    decided root (pre ++ post) q = decided root pre q := by
  induction post using List.reverseRecOn with
  | nil => rw [append_nil]
  | append_singleton post op ih =>
    rw [← append_assoc, decided_snoc, if_neg (h op (by simp))]
    exact ih fun later hlater => h later (mem_append_left _ hlater)

variable {root : Setting}

theorem mutateSection_append {pre post : List SettingsPathOp} {result : Setting}
    (h : mutateSection root (pre ++ post) = .ok result) :
    ∃ before, mutateSection root pre = .ok before ∧ mutateSection before post = .ok result := by
  rw [mutateSection, foldlM_append] at h
  obtain ⟨before, hpre, h⟩ := Except.bind_eq_ok.mp h
  exact ⟨before, hpre, h⟩

variable {op : SettingsPathOp}

theorem mutateSection_cons {post : List SettingsPathOp}
    {result : Setting} (h : mutateSection root (op :: post) = .ok result) :
    ∃ after, applyPathOp root op = .ok after ∧ mutateSection after post = .ok result := by
  rw [mutateSection, foldlM_cons] at h
  cases hop : applyPathOp root op with
  | error e =>
    rw [hop] at h
    cases h
  | ok after =>
    rw [hop] at h
    exact ⟨after, rfl, h⟩

variable {ops : List SettingsPathOp}

theorem mutateSection_snoc {root result : Setting}
    (h : mutateSection root (ops ++ [op]) = .ok result) :
    ∃ before, mutateSection root ops = .ok before ∧ applyPathOp before op = .ok result := by
  obtain ⟨before, hpre, hlast⟩ := mutateSection_append h
  obtain ⟨after, hop, hpost⟩ := mutateSection_cons hlast
  cases hpost
  exact ⟨before, hpre, hop⟩

/-! ## One op -/

/-- What one op does to a plain object, at every position. -/
structure Effect (op : SettingsPathOp) (before after : Setting) : Prop where
  plain : isPlainObject after = true
  covered : ∀ q, op.path <+: q → after.at_ q = op.puts (q.drop op.path.length)
    ∨ (op.op = .unset ∧ after.at_ q = before.at_ q
      ∧ ∃ b, b <+: op.path ∧ b ≠ op.path ∧ IsArray (before.at_ b))
  blocked : op.op = .unset → (∃ b, b <+: op.path ∧ b ≠ op.path ∧ IsArray (before.at_ b)) →
    ∀ q, op.path <+: q → after.at_ q = before.at_ q
  set : (∃ value, op.op = .set value) → ∀ q, q <+: op.path → q ≠ op.path →
    (after.at_ q).content = .record
  unset : op.op = .unset → ∀ q, q <+: op.path → q ≠ op.path →
    (IsArray (before.at_ q) → after.at_ q = before.at_ q)
    ∧ ((after.at_ q).content = (before.at_ q).content
      ∨ (before.at_ q = .undefined ∧ (after.at_ q).content = .record))
  broken : ∀ q, Apart op.path q → after.at_ q = before.at_ q
    ∨ (after.at_ q = .undefined ∧ (∃ value, op.op = .set value)
      ∧ ∃ b, b <+: op.path ∧ b <+: q ∧ b ≠ op.path ∧ IsArray (before.at_ b))

theorem drop_eq_of_begins {p q : List JsString} (h : p <+: q) : q = p ++ q.drop p.length := by
  obtain ⟨t, rfl⟩ := h
  simp

theorem effect {before after : Setting} (hbefore : isPlainObject before = true)
    (hop : ∀ value, op.op = .set value → value.Proper) (h : applyPathOp before op = .ok after) :
    Effect op before after := by
  obtain ⟨edit, path⟩ := op
  unfold applyPathOp at h
  cases edit with
  | set value =>
    have hset : isPlainObject after = true ∧ SetsAt before path value after := by
      by_cases hpath : path = []
      · subst hpath
        simp only [applyPathEdit] at h
        split at h
        · next hplain =>
          cases h
          refine ⟨rfl, ?_⟩
          have hproper := hop value rfl
          have hentries : Setting.record value.entries = value := by
            cases hproper with
            | record => rfl
            | _ => cases hplain
          rw [hentries]
          refine ⟨fun q => rfl, fun q hq hne => absurd (prefix_nil.mp hq) hne, ?_, ?_⟩
          · exact fun q hapart => absurd nil_prefix hapart.1
          · exact fun q hapart => absurd nil_prefix hapart.1
        · cases h
      · obtain ⟨after', hok, hplain, hset⟩ := applyPathEdit_set hbefore value hpath
        rw [hok] at h
        cases h
        exact ⟨hplain, hset⟩
    obtain ⟨hplain, hset⟩ := hset
    refine ⟨hplain, ?_, by simp, fun _ => hset.way, by simp, ?_⟩
    · intro q hq
      refine .inl ?_
      conv_lhs => rw [drop_eq_of_begins hq, hset.here]
      rfl
    · intro q hapart
      by_cases harray : ∃ b, b <+: path ∧ b <+: q ∧ IsArray (before.at_ b)
      · obtain ⟨b, hb, hbq, hitems⟩ := harray
        refine .inr ⟨hset.broken q hapart ⟨b, hb, hbq, hitems⟩, ⟨value, rfl⟩, b, hb, hbq, ?_, hitems⟩
        rintro rfl
        exact hapart.1 hbq
      · exact .inl (hset.rest q hapart fun b hb hbq hitems => harray ⟨b, hb, hbq, hitems⟩)
  | unset =>
    by_cases hpath : path = []
    · subst hpath
      simp only [applyPathEdit] at h
      cases h
      refine ⟨rfl, ?_, ?_, by simp, ?_, ?_⟩
      · intro q _
        refine .inl ?_
        cases q with
        | nil => rfl
        | cons key rest => simp [SettingsPathOp.puts, ownValue, own, OrderedMap.get?]
      · rintro _ ⟨b, hb, hne, -⟩
        exact absurd (prefix_nil.mp hb) hne
      · exact fun _ q hq hne => absurd (prefix_nil.mp hq) hne
      · exact fun q hapart => absurd nil_prefix hapart.1
    · obtain ⟨after', hok, hplain, hunset⟩ := applyPathEdit_unset hbefore hpath
      rw [hok] at h
      cases h
      refine ⟨hplain, ?_, ?_, by simp, ?_, fun q hapart => .inl (hunset.rest q hapart)⟩
      · intro q hq
        by_cases hblocked : ∃ b, b <+: path ∧ b ≠ path ∧ IsArray (before.at_ b)
        · refine .inr ⟨rfl, ?_, hblocked⟩
          rw [drop_eq_of_begins hq]
          exact hunset.blocked hblocked _
        · refine .inl ?_
          conv_lhs => rw [drop_eq_of_begins hq]
          rw [hunset.here fun b hb hne hitems => hblocked ⟨b, hb, hne, hitems⟩]
          simp [SettingsPathOp.puts, hpath]
      · intro _ hblocked q hq
        rw [drop_eq_of_begins hq]
        exact hunset.blocked hblocked _
      · exact fun _ q hq hne => ⟨hunset.array q hq hne, hunset.way q hq hne⟩

/-! ## From clear paths to decided positions -/

/-- The part of `PathsClear` that one position depends on. -/
def ClearAt (root : Setting) (ops : List SettingsPathOp) (q : List JsString) : Prop :=
  ∀ pre op post, ops = pre ++ op :: post → ∀ a, a <+: op.path → a ≠ op.path → a <+: q →
    (∀ later ∈ post, ¬ later.path <+: a) →
    (op.op = .unset → op.path <+: q ∧ ∀ later ∈ post, ¬ later.path <+: op.path) →
    op.MayPass (decided root pre a) (op.path.drop a.length)

/-- The op before the last one at a position keeps what it needed to be clear. -/
theorem ClearAt.init {q b : List JsString} (h : ClearAt root (ops ++ [op]) q) (hb : b <+: q)
    (hop : ¬ op.path <+: b) : ClearAt root ops b := by
  intro pre op' post hsplit a ha hne hab hlater hunset
  refine h pre op' (post ++ [op]) (by simp [hsplit]) a ha hne (hab.trans hb) ?_ ?_
  · intro later hmem
    rcases mem_append.mp hmem with hpost | hlast
    · exact hlater later hpost
    · rw [mem_singleton.mp hlast]
      exact fun hle => hop (hle.trans hab)
  · intro hkind
    obtain ⟨hle, hlater'⟩ := hunset hkind
    refine ⟨hle.trans hb, fun later hmem => ?_⟩
    rcases mem_append.mp hmem with hpost | hlast
    · exact hlater' later hpost
    · rw [mem_singleton.mp hlast]
      exact fun hle' => hop (hle'.trans hle)

/-- A position holds what was decided for it. -/
structure Held (root : Setting) (ops : List SettingsPathOp) (result : Setting) (q : List JsString) :
    Prop where
  content : (result.at_ q).content = (decided root ops q).content
    ∨ (decided root ops q = .undefined ∧ (result.at_ q).content = .record ∧ Created root ops q)
  array : IsArray (result.at_ q) → result.at_ q = decided root ops q

theorem Created.snoc (h : Created root ops q) (hop : ¬ op.path <+: q) :
    Created root (ops ++ [op]) q := by
  obtain ⟨pre, op', post, before, hsplit, hrun, habsent, hle, hne, hlater⟩ := h
  refine ⟨pre, op', post ++ [op], before, by simp [hsplit], hrun, habsent, hle, hne, ?_⟩
  intro later hmem
  rcases mem_append.mp hmem with hpost | hlast
  · exact hlater later hpost
  · rw [mem_singleton.mp hlast]
    exact hop

theorem isArray_content {v : Setting} (h : IsArray v) : v.content ≠ .absent ∧ v.content ≠ .record := by
  obtain ⟨items, rfl⟩ := h
  exact ⟨nofun, nofun⟩

theorem isArray_of_content {v w : Setting} (h : v.content = w.content) (hv : IsArray v) : IsArray w := by
  obtain ⟨items, rfl⟩ := hv
  cases w with
  | array items' => exact ⟨items', rfl⟩
  | inherited name =>
    simp only [content] at h
    split at h <;> cases h
  | _ => cases h

/-- What a position holds when an array is there was decided for it. -/
theorem Held.decided_array {root result : Setting}
    (h : Held root ops result q) (harray : IsArray (result.at_ q)) : IsArray (decided root ops q) :=
  h.array harray ▸ harray

/-- One op that is not at or above a position leaves no new array there. -/
theorem array_before {before after : Setting}
    (heffect : Effect op before after) {a : List JsString} (hop : ¬ op.path <+: a)
    (hitems : IsArray (after.at_ a)) : before.at_ a = after.at_ a := by
  have hcontent := isArray_content hitems
  by_cases hway : a <+: op.path
  · have hne : a ≠ op.path := fun heq => hop (heq ▸ prefix_refl _)
    cases hkind : op.op with
    | set value => exact absurd (heffect.set ⟨value, hkind⟩ a hway hne) hcontent.2
    | unset =>
      obtain ⟨harray, hsame | ⟨-, hrecord⟩⟩ := heffect.unset hkind a hway hne
      · exact (harray (isArray_of_content hsame hitems)).symm
      · exact absurd hrecord hcontent.2
  · rcases heffect.broken a ⟨hop, hway⟩ with hsame | ⟨hempty, -⟩
    · exact hsame.symm
    · rw [hempty] at hcontent
      exact absurd rfl hcontent.1

section Run

variable {root : Setting} (hroot : isPlainObject root = true)
include hroot

variable {ops : List SettingsPathOp} {result : Setting}

theorem plain_of_mutate (hops : ∀ op ∈ ops, ∀ value, op.op = .set value → value.Proper)
    (h : mutateSection root ops = .ok result) : isPlainObject result = true := by
  induction ops using List.reverseRecOn generalizing result with
  | nil =>
    cases h
    exact hroot
  | append_singleton ops op ih =>
    obtain ⟨before, hpre, hop⟩ := mutateSection_snoc h
    have hbefore := ih (fun op' hmem => hops op' (mem_append_left _ hmem)) hpre
    exact (effect hbefore (hops op (by simp)) hop).plain

/-- What one more op does after the others. -/
theorem effect_snoc {op : SettingsPathOp}
    (hops : ∀ op' ∈ ops ++ [op], ∀ value, op'.op = .set value → value.Proper)
    (h : mutateSection root (ops ++ [op]) = .ok result) :
    ∃ before, (∀ op' ∈ ops, ∀ value, op'.op = .set value → value.Proper) ∧
      mutateSection root ops = .ok before ∧ Effect op before result := by
  obtain ⟨before, hpre, hop⟩ := mutateSection_snoc h
  have hinit : ∀ op' ∈ ops, ∀ value, op'.op = .set value → value.Proper :=
    fun op' hmem => hops op' (mem_append_left _ hmem)
  exact ⟨before, hinit, hpre, effect (plain_of_mutate hroot hinit hpre) (hops op (by simp)) hop⟩

/-- One more op keeps every position that is clear. -/
theorem held_snoc {op : SettingsPathOp} {before result : Setting}
    (hpre : mutateSection root ops = .ok before) (heffect : Effect op before result)
    (ih : ∀ q, ClearAt root ops q → Held root ops before q) {q : List JsString}
    (hclear : ClearAt root (ops ++ [op]) q) : Held root (ops ++ [op]) result q := by
  by_cases hcovered : op.path <+: q
  · -- the op decides the position
    have hdecided : decided root (ops ++ [op]) q = op.puts (q.drop op.path.length) := by
      rw [decided_snoc, if_pos hcovered]
    rcases heffect.covered q hcovered with hput | ⟨hunset, hsame, b, hb, hne, hitems⟩
    · rw [← hdecided] at hput
      exact ⟨.inl (by rw [hput]), fun _ => hput⟩
    have hbq : b <+: q := hb.trans hcovered
    have hshort : ¬ op.path <+: b := fun hle => hne (hb.eq_of_length_le hle.length_le)
    have hheld := ih b (hclear.init hbq hshort)
    have hpass := hclear ops op [] rfl b hb hne hbq nofun fun _ => ⟨hcovered, nofun⟩
    simp only [SettingsPathOp.MayPass, hunset] at hpass
    have hempty : before.at_ op.path = .undefined := by
      rw [drop_eq_of_begins hb, at__append, hheld.array hitems]
      exact hpass (hheld.decided_array hitems)
    have hresult : result.at_ q = .undefined := by
      rw [hsame, drop_eq_of_begins hcovered, at__append, hempty, at__undefined]
    have hpath : op.path ≠ [] := by
      intro hnil
      rw [hnil] at hb hne
      exact hne (prefix_nil.mp hb)
    have hput : op.puts (q.drop op.path.length) = .undefined := by
      simp [SettingsPathOp.puts, hunset, hpath]
    rw [hput] at hdecided
    exact ⟨.inl (by rw [hresult, hdecided]), fun _ => by rw [hresult, hdecided]⟩
  · have hdecided : decided root (ops ++ [op]) q = decided root ops q := by
      rw [decided_snoc, if_neg hcovered]
    have hheld := ih q (hclear.init (prefix_refl q) hcovered)
    by_cases hway : q <+: op.path
    · have hne : q ≠ op.path := by
        rintro rfl
        exact hcovered (prefix_refl _)
      have hcreate : before.at_ q = .undefined → Created root (ops ++ [op]) q := fun hempty =>
        ⟨ops, op, [], before, rfl, hpre, hempty, hway, hne, nofun⟩
      have hdecidedAbsent : before.at_ q = .undefined → decided root ops q = .undefined := by
        intro hempty
        rcases hheld.content with hcontent | ⟨-, hrecord, -⟩
        · rw [hempty] at hcontent
          exact content_eq_absent.mp hcontent.symm
        · rw [hempty] at hrecord
          cases hrecord
      cases hkind : op.op with
      | set value =>
        have hrecord := heffect.set ⟨value, hkind⟩ q hway hne
        refine ⟨?_, fun harray => absurd hrecord (isArray_content harray).2⟩
        rw [hdecided]
        have hpass := hclear ops op [] rfl q hway hne (prefix_refl q) nofun
          (by simp [hkind])
        simp only [SettingsPathOp.MayPass, hkind] at hpass
        rcases hpass with habsent | hpass
        · have hundefined := content_eq_absent.mp habsent
          rcases hheld.content with hcontent | ⟨-, -, hcreated⟩
          · rw [habsent] at hcontent
            exact .inr ⟨hundefined, hrecord, hcreate (content_eq_absent.mp hcontent)⟩
          · exact .inr ⟨hundefined, hrecord, hcreated.snoc hcovered⟩
        · exact .inl (hrecord.trans hpass.symm)
      | unset =>
        obtain ⟨harrays, hway'⟩ := heffect.unset hkind q hway hne
        rcases hway' with hsame | ⟨hempty, hrecord⟩
        · refine ⟨?_, fun harray => ?_⟩
          · rw [hdecided]
            rcases hheld.content with hcontent | ⟨hundefined, hrecord, hcreated⟩
            · exact .inl (hsame.trans hcontent)
            · exact .inr ⟨hundefined, hsame.trans hrecord, hcreated.snoc hcovered⟩
          · have hbefore := isArray_of_content hsame harray
            rw [hdecided, harrays hbefore]
            exact hheld.array hbefore
        · refine ⟨?_, fun harray => absurd hrecord (isArray_content harray).2⟩
          rw [hdecided]
          exact .inr ⟨hdecidedAbsent hempty, hrecord, hcreate hempty⟩
    · have hsame : result.at_ q = before.at_ q := by
        rcases heffect.broken q ⟨hcovered, hway⟩ with hsame | ⟨-, ⟨value, hkind⟩, b, hb, hbq, hne, hitems⟩
        · exact hsame
        -- an array above the position was decided there, and a set may not pass it
        have hshort : ¬ op.path <+: b := fun hle => hne (hb.eq_of_length_le hle.length_le)
        have hheld' := ih b (hclear.init hbq hshort)
        have hpass := hclear ops op [] rfl b hb hne hbq nofun (by simp [hkind])
        simp only [SettingsPathOp.MayPass, hkind] at hpass
        have hdecided' := isArray_content (hheld'.decided_array hitems)
        rcases hpass with habsent | hrecord
        · exact absurd habsent hdecided'.1
        · exact absurd hrecord hdecided'.2
      refine ⟨?_, fun harray => ?_⟩
      · rw [hdecided, hsame]
        rcases hheld.content with hcontent | ⟨hundefined, hrecord, hcreated⟩
        · exact .inl hcontent
        · exact .inr ⟨hundefined, hrecord, hcreated.snoc hcovered⟩
      · rw [hsame] at harray
        rw [hdecided, hsame]
        exact hheld.array harray

/-- Every position that is clear holds what was decided for it. -/
theorem held_of_clear (hops : ∀ op ∈ ops, ∀ value, op.op = .set value → value.Proper)
    (h : mutateSection root ops = .ok result) (q : List JsString) (hclear : ClearAt root ops q) :
    Held root ops result q := by
  induction ops using List.reverseRecOn generalizing result q with
  | nil =>
    cases h
    exact ⟨.inl rfl, fun _ => rfl⟩
  | append_singleton ops op ih =>
    obtain ⟨before, hinit, hpre, heffect⟩ := effect_snoc hroot hops h
    exact held_snoc hroot hpre heffect (fun q' hclear' => ih hinit hpre q' hclear') hclear

/-- A position apart from every op keeps its value. -/
theorem apart_unchanged (hops : ∀ op ∈ ops, ∀ value, op.op = .set value → value.Proper)
    (h : mutateSection root ops = .ok result) {q : List JsString} (hclear : ClearAt root ops q)
    (hapart : ∀ op ∈ ops, Apart op.path q) : result.at_ q = root.at_ q := by
  induction ops using List.reverseRecOn generalizing result with
  | nil =>
    cases h
    rfl
  | append_singleton ops op ih =>
    obtain ⟨before, hinit, hpre, heffect⟩ := effect_snoc hroot hops h
    have hop' : Apart op.path q := hapart op (by simp)
    have hsame := ih hinit hpre (hclear.init (prefix_refl q) hop'.1)
      fun op' hmem => hapart op' (mem_append_left _ hmem)
    rcases heffect.broken q hop' with hkept | ⟨-, ⟨value, hkind⟩, b, hb, hbq, hne, hitems⟩
    · exact hkept.trans hsame
    have hshort : ¬ op.path <+: b := fun hle => hop'.1 (hle.trans hbq)
    have hheld := held_of_clear hroot hinit hpre b (hclear.init hbq hshort)
    have hpass := hclear ops op [] rfl b hb hne hbq nofun (by simp [hkind])
    simp only [SettingsPathOp.MayPass, hkind] at hpass
    have hdecided := isArray_content (hheld.decided_array hitems)
    rcases hpass with habsent | hrecord
    · exact absurd habsent hdecided.1
    · exact absurd hrecord hdecided.2

/-! ## From decided positions to clear paths -/

variable {a : List JsString}

section

variable (hops : ∀ op ∈ ops, ∀ value, op.op = .set value → value.Proper)
include hops

/-- Objects above a position stay objects until an op is at or above it. -/
theorem stays_record (h : mutateSection root ops = .ok result)
    (hlater : ∀ op ∈ ops, ¬ op.path <+: a) (hrecord : ∀ b, b <+: a → (root.at_ b).content = .record)
    {b : List JsString} (hb : b <+: a) : (result.at_ b).content = .record := by
  induction ops using List.reverseRecOn generalizing result b with
  | nil =>
    cases h
    exact hrecord b hb
  | append_singleton ops op ih =>
    obtain ⟨before, hinit, hpre, heffect⟩ := effect_snoc hroot hops h
    have hbefore : ∀ b, b <+: a → (before.at_ b).content = .record := fun b hb =>
      ih hinit hpre (fun op' hmem => hlater op' (mem_append_left _ hmem)) hb
    have hcovered : ¬ op.path <+: b := fun hle => hlater op (by simp) (hle.trans hb)
    by_cases hway : b <+: op.path
    · have hne : b ≠ op.path := fun heq => hcovered (heq ▸ prefix_refl _)
      cases hkind : op.op with
      | set value => exact heffect.set ⟨value, hkind⟩ b hway hne
      | unset =>
        rcases (heffect.unset hkind b hway hne).2 with hsame | ⟨-, hrecord'⟩
        · exact hsame.trans (hbefore b hb)
        · exact hrecord'
    · rcases heffect.broken b ⟨hcovered, hway⟩ with hsame | ⟨-, -, b', -, hb', -, hitems⟩
      · rw [hsame]
        exact hbefore b hb
      · exact absurd (hbefore b' (hb'.trans hb)) (isArray_content hitems).2

/-- An array that is there at the end was there before ops that are not at or above it. -/
theorem array_at_start (h : mutateSection root ops = .ok result)
    (hlater : ∀ op ∈ ops, ¬ op.path <+: a) (hitems : IsArray (result.at_ a)) :
    root.at_ a = result.at_ a := by
  induction ops using List.reverseRecOn generalizing result with
  | nil =>
    cases h
    rfl
  | append_singleton ops op ih =>
    obtain ⟨before, hinit, hpre, heffect⟩ := effect_snoc hroot hops h
    have hsame := array_before heffect (hlater op (by simp)) hitems
    rw [← hsame]
    exact ih hinit hpre (fun op' hmem => hlater op' (mem_append_left _ hmem)) (hsame ▸ hitems)

theorem array_decided (h : mutateSection root ops = .ok result)
    (hitems : IsArray (result.at_ a)) (hdecided : IsArray (decided root ops a)) :
    result.at_ a = decided root ops a := by
  induction ops using List.reverseRecOn generalizing result with
  | nil =>
    cases h
    rfl
  | append_singleton ops op ih =>
    obtain ⟨before, hinit, hpre, heffect⟩ := effect_snoc hroot hops h
    rw [decided_snoc] at hdecided ⊢
    split at hdecided
    · next hcovered =>
      rw [if_pos hcovered]
      rcases heffect.covered a hcovered with hput | ⟨hunset, -⟩
      · exact hput
      obtain ⟨items, heq⟩ := hdecided
      simp only [SettingsPathOp.puts, hunset] at heq
      split at heq <;> cases heq
    · next hcovered =>
      rw [if_neg hcovered]
      have hsame := array_before heffect hcovered hitems
      rw [← hsame]
      exact ih hinit hpre (hsame ▸ hitems) hdecided

theorem paths_clear_of_decides
    (h : mutateSection root ops = .ok result) (hdecides : Decides root ops result) :
    PathsClear root ops := by
  intro pre op post hsplit a ha hne hlater hunset
  have hshort : ¬ op.path <+: a := fun hle => hne (ha.eq_of_length_le hle.length_le)
  have hdecided : decided root ops a = decided root pre a := by
    rw [hsplit]
    refine decided_append root pre fun later hmem => ?_
    rcases mem_cons.mp hmem with rfl | hpost
    · exact hshort
    · exact hlater later hpost
  rw [hsplit] at h
  obtain ⟨before, hpre, hrest⟩ := mutateSection_append h
  obtain ⟨after, hop, hpost⟩ := mutateSection_cons hrest
  have hmem : ∀ op' ∈ pre ++ op :: post, ∀ value, op'.op = .set value → value.Proper :=
    hsplit ▸ hops
  have hbefore := plain_of_mutate hroot (fun op' hop' => hmem op' (mem_append_left _ hop')) hpre
  have heffect := effect hbefore (hmem op (by simp)) hop
  have hmemPost : ∀ op' ∈ post, ∀ value, op'.op = .set value → value.Proper :=
    fun op' hop' => hmem op' (mem_append_right _ (mem_cons_of_mem _ hop'))
  cases hkind : op.op with
  | set value =>
    simp only [SettingsPathOp.MayPass, hkind]
    have hobjects : ∀ b, b <+: a → (after.at_ b).content = .record := by
      intro b hb
      refine heffect.set ⟨value, hkind⟩ b (hb.trans ha) ?_
      rintro rfl
      exact hshort hb
    have hrecord := stays_record heffect.plain hmemPost hpost hlater hobjects (prefix_refl a)
    rcases hdecides a with hcontent | ⟨hundefined, -⟩
    · rw [hdecided, hrecord] at hcontent
      exact .inr hcontent.symm
    · rw [hdecided] at hundefined
      exact .inl (content_eq_absent.mpr hundefined)
  | unset =>
    simp only [SettingsPathOp.MayPass, hkind]
    intro hitems
    have hlast := hunset hkind
    rw [← hdecided] at hitems ⊢
    have hitems' : IsArray (result.at_ a) := by
      rcases hdecides a with hcontent | ⟨hundefined, -⟩
      · exact isArray_of_content hcontent.symm hitems
      · rw [hundefined] at hitems
        exact absurd hitems fun ⟨_, heq⟩ => nomatch heq
    have hfull := array_decided hroot hops (hsplit ▸ h) hitems' hitems
    have hat : result.at_ op.path = (decided root ops a).at_ (op.path.drop a.length) := by
      conv_lhs => rw [drop_eq_of_begins ha, at__append, hfull]
    rw [← hat]
    have hempty : decided root ops op.path = .undefined := by
      have hpath : op.path ≠ [] := by
        intro hnil
        rw [hnil] at ha hne
        exact hne (prefix_nil.mp ha)
      rw [hsplit, ← singleton_append, ← append_assoc,
        decided_append root (pre ++ [op]) hlast, decided_snoc, if_pos (prefix_refl _)]
      simp [SettingsPathOp.puts, hkind, hpath]
    rcases hdecides op.path with hcontent | ⟨-, -, hcreated⟩
    · rw [hempty] at hcontent
      exact content_eq_absent.mp hcontent
    -- an op further down came later, and the array was already there
    obtain ⟨pre', op', post', before', hsplit', hpre', habsent, hle, hne', hlater'⟩ := hcreated
    have hrest : ∀ later ∈ op' :: post', ¬ later.path <+: a := by
      intro later hlaterMem hleA
      rcases mem_cons.mp hlaterMem with rfl | hpostMem
      · exact hne' (hle.eq_of_length_le (hleA.trans ha).length_le)
      · exact hlater' later hpostMem (hleA.trans ha)
    have hops' : ∀ op ∈ pre' ++ op' :: post', ∀ value, op.op = .set value → value.Proper :=
      hsplit' ▸ hops
    have hrun' : mutateSection root (pre' ++ op' :: post') = .ok result := by
      rw [← hsplit', hsplit]
      exact h
    obtain ⟨start, hstart, hend⟩ := mutateSection_append hrun'
    cases hpre'.symm.trans hstart
    have hplain := plain_of_mutate hroot
      (fun op hop => hops' op (mem_append_left _ hop)) hpre'
    have hsame := array_at_start hplain (fun op hop => hops' op (mem_append_right _ hop))
      hend hrest hitems'
    rw [drop_eq_of_begins ha, at__append, ← hsame, ← at__append, ← drop_eq_of_begins ha]
    exact habsent

end

end Run

end Harness
