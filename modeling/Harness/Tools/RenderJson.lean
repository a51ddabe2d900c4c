-- SUMMARY: The text of a `run_code` result (`core/tools/src/code-mode.ts`): a stack of tasks that indents JSON up to a cap.
import Harness.Json.Indent
import Harness.Json.Lines
import Harness.Lib.WhileLoop

/-!
# Rendering a result

The stack writes brackets, separators and children as fragments of their own. Below the cap on the
indentation it turns to the compact layout, so what it writes is one of the spellings of the value.
-/

namespace Harness

open List
namespace Tools

open WhileLoop Json

/-- The cap on the spaces that a line starts with. -/
def MAX_JSON_INDENT_CHARS : Nat := 10

/-- A pending fragment. -/
inductive JsonRenderTask where
  | text (text : Text)
  | value (value : Json) (depth : Nat) (compact : Bool)

structure RenderState where
  chunks : Text := []
  tasks : List JsonRenderTask

variable (compact : Bool)

/-- What stands before a child or a closing bracket. -/
def lineBreak (depth : Nat) : Text := if compact then [] else newline depth

def separator (depth index : Nat) : Text :=
  (if index = 0 then [] else [unit ',']) ++ lineBreak compact depth

def fieldLabel (key : JsString) : Text :=
  quote key ++ unit ':' :: if compact then [] else [unit ' ']

/-- The children of a container with their labels, pushed from the last to the first. -/
def pushChildren (depth : Nat) (children : List ((Text × Json) × Nat))
    (tasks : List JsonRenderTask) : List JsonRenderTask :=
  children.foldr (fun ((label, value), index) tasks =>
    .text (separator compact depth index ++ label) :: .value value depth compact :: tasks) tasks

/-- Whether the children of a container are written without white space. -/
def compactBelow (depth : Nat) : Bool :=
  compact || decide ((depth + 1) * 2 > MAX_JSON_INDENT_CHARS)

def renderTurn (s : RenderState) : Except Empty (RenderState ⊕ Text) :=
  match s.tasks with
  | [] => .ok (.inr s.chunks)
  | .text text :: tasks => .ok (.inl { chunks := s.chunks ++ text, tasks })
  | .value current depth compact :: tasks =>
    let below := compactBelow compact depth
    match current with
    | .arr [] => .ok (.inl { chunks := s.chunks ++ [unit '[', unit ']'], tasks })
    | .arr items =>
      let children := items.map fun item => ([], item)
      .ok (.inl {
        chunks := s.chunks ++ [unit '[']
        tasks := pushChildren below (depth + 1) children.zipIdx
          (.text (lineBreak below depth ++ [unit ']']) :: tasks) })
    | .obj [] => .ok (.inl { chunks := s.chunks ++ [unit '\x7b', unit '\x7d'], tasks })
    | .obj fields =>
      let children := fields.map fun (key, value) => (fieldLabel below key, value)
      .ok (.inl {
        chunks := s.chunks ++ [unit '\x7b']
        tasks := pushChildren below (depth + 1) children.zipIdx
          (.text (lineBreak below depth ++ [unit '\x7d']) :: tasks) })
    -- `String(current)` of a scalar is its JSON
    | current => .ok (.inl { chunks := s.chunks ++ stringify current, tasks })

/-- `renderJsonValue` with at most `n` tasks. -/
def renderJsonValue (n : Nat) (value : Json) : Except Empty (Option Text) :=
  loop renderTurn n { tasks := [.value value 0 false] }

/-! ## The layout -/

mutual

/-- The text of a value at a depth. -/
def layout (depth : Nat) (compact : Bool) : Json → Text
  | .arr [] => [unit '[', unit ']']
  | .arr (item :: items) =>
    unit '[' :: (lineBreak (compactBelow compact depth) (depth + 1) ++
      (layout (depth + 1) (compactBelow compact depth) item ++
        layoutItems depth (compactBelow compact depth) items))
  | .obj [] => [unit '\x7b', unit '\x7d']
  | .obj ((key, value) :: fields) =>
    unit '\x7b' :: (lineBreak (compactBelow compact depth) (depth + 1) ++
      (fieldLabel (compactBelow compact depth) key ++
        (layout (depth + 1) (compactBelow compact depth) value ++
          layoutFields depth (compactBelow compact depth) fields)))
  | .null => stringify .null
  | .bool b => stringify (.bool b)
  | .num n => stringify (.num n)
  | .str s => stringify (.str s)

/-- The items after the first, and the closing bracket. -/
def layoutItems (depth : Nat) (below : Bool) : List Json → Text
  | [] => lineBreak below depth ++ [unit ']']
  | item :: items =>
    unit ',' :: (lineBreak below (depth + 1) ++
      (layout (depth + 1) below item ++ layoutItems depth below items))

/-- The fields after the first, and the closing brace. -/
def layoutFields (depth : Nat) (below : Bool) : List (JsString × Json) → Text
  | [] => lineBreak below depth ++ [unit '\x7d']
  | (key, value) :: fields =>
    unit ',' :: (lineBreak below (depth + 1) ++ (fieldLabel below key ++
      (layout (depth + 1) below value ++ layoutFields depth below fields)))

end

theorem leads_text (chunks text : Text) (tasks : List JsonRenderTask) :
    Leads renderTurn ⟨chunks, .text text :: tasks⟩ ⟨chunks ++ text, tasks⟩ :=
  leads_of_step rfl

theorem leads_child {depth : Nat} {compact : Bool} {value : Json}
    (hvalue : ∀ chunks tasks, Leads renderTurn ⟨chunks, .value value depth compact :: tasks⟩
      ⟨chunks ++ layout depth compact value, tasks⟩)
    (chunks label : Text) (index : Nat) (children : List ((Text × Json) × Nat))
    (tasks : List JsonRenderTask) : Leads renderTurn
      ⟨chunks, pushChildren compact depth (((label, value), index) :: children) tasks⟩
      ⟨chunks ++ (separator compact depth index ++ label) ++ layout depth compact value,
        pushChildren compact depth children tasks⟩ :=
  (leads_text _ _ _).trans (hvalue _ _)

mutual

/-- The stack writes a value before it turns to the tasks behind. -/
theorem leads_value (depth : Nat) (compact : Bool) (j : Json) (chunks : Text)
    (tasks : List JsonRenderTask) : Leads renderTurn ⟨chunks, .value j depth compact :: tasks⟩
      ⟨chunks ++ layout depth compact j, tasks⟩ := by
  match j with
  | .null | .bool _ | .num _ | .str _ | .arr [] | .obj [] => exact leads_of_step rfl
  | .arr (item :: items) =>
    refine .head rfl ((leads_child (leads_value _ _ item) _ _ _ _ _).trans ?_)
    exact leads_items depth _ 0 items tasks (by simp [separator, layout])
  | .obj ((key, value) :: fields) =>
    refine .head rfl ((leads_child (leads_value _ _ value) _ _ _ _ _).trans ?_)
    exact leads_fields depth _ 0 fields tasks (by simp [separator, layout])

theorem leads_items (depth : Nat) (below : Bool) (index : Nat) (items : List Json)
    (tasks : List JsonRenderTask) {chunks text : Text}
    (htext : chunks ++ layoutItems depth below items = text) : Leads renderTurn
      ⟨chunks, pushChildren below (depth + 1)
        ((items.map fun item => (([] : Text), item)).zipIdx (index + 1))
        (.text (lineBreak below depth ++ [unit ']']) :: tasks)⟩
      ⟨text, tasks⟩ := by
  subst htext
  match items with
  | [] => exact leads_text _ _ _
  | item :: items =>
    refine (leads_child (leads_value _ _ item) _ _ _ _ _).trans ?_
    exact leads_items depth below (index + 1) items tasks (by simp [separator, layoutItems])

theorem leads_fields (depth : Nat) (below : Bool) (index : Nat) (fields : List (JsString × Json))
    (tasks : List JsonRenderTask) {chunks text : Text}
    (htext : chunks ++ layoutFields depth below fields = text) : Leads renderTurn
      ⟨chunks, pushChildren below (depth + 1)
        ((fields.map fun e => (fieldLabel below e.1, e.2)).zipIdx (index + 1))
        (.text (lineBreak below depth ++ [unit '\x7d']) :: tasks)⟩
      ⟨text, tasks⟩ := by
  subst htext
  match fields with
  | [] => exact leads_text _ _ _
  | (key, value) :: fields =>
    refine (leads_child (leads_value _ _ value) _ _ _ _ _).trans ?_
    exact leads_fields depth below (index + 1) fields tasks (by simp [separator, layoutFields])

end

/-! ## Reading back -/

theorem blank_lineBreak (depth : Nat) : Blank (lineBreak compact depth) := by
  cases compact with
  | false => exact blank_newline depth
  | true => exact blank_nil

theorem fieldLabel_gap (key : JsString) :
    ∃ gap, Blank gap ∧ ∀ text, fieldLabel compact key ++ text =
      quote key ++ unit ':' :: (gap ++ text) := by
  cases compact with
  | false => exact ⟨[unit ' '], blank_singleton (by decide), fun text => by simp [fieldLabel]⟩
  | true => exact ⟨[], blank_nil, fun text => by simp [fieldLabel]⟩

mutual

theorem layout_spells (depth : Nat) (compact : Bool) (j : Json) :
    Spells j (layout depth compact j) := by
  match j with
  | .null | .bool _ | .num _ | .str _ | .arr [] | .obj [] => exact rfl
  | .arr (item :: items) =>
    exact ⟨_, _, _, blank_lineBreak _ _, layout_spells _ _ item, layoutItems_spells _ _ items, rfl⟩
  | .obj ((key, value) :: fields) =>
    obtain ⟨gap, hgap, hlabel⟩ := fieldLabel_gap (compactBelow compact depth) key
    exact ⟨_, gap, _, _, blank_lineBreak _ _, hgap, layout_spells _ _ value,
      layoutFields_spells _ _ fields, by rw [layout, hlabel]⟩

theorem layoutItems_spells (depth : Nat) (below : Bool) (items : List Json) :
    SpellsItems items (layoutItems depth below items) := by
  match items with
  | [] => exact ⟨_, blank_lineBreak _ _, rfl⟩
  | item :: items =>
    exact ⟨_, _, _, blank_lineBreak _ _, layout_spells _ _ item, layoutItems_spells _ _ items, rfl⟩

theorem layoutFields_spells (depth : Nat) (below : Bool) (fields : List (JsString × Json)) :
    SpellsFields fields (layoutFields depth below fields) := by
  match fields with
  | [] => exact ⟨_, blank_lineBreak _ _, rfl⟩
  | (key, value) :: fields =>
    obtain ⟨gap, hgap, hlabel⟩ := fieldLabel_gap below key
    exact ⟨_, gap, _, _, blank_lineBreak _ _, hgap, layout_spells _ _ value,
      layoutFields_spells _ _ fields, by rw [layoutFields, hlabel]⟩

end

/-! ## Above the cap -/

mutual

/-- No container with children lies so deep that they would stand beyond the cap. -/
def Within (depth : Nat) : Json → Prop
  | .arr (item :: items) =>
    (depth + 1) * 2 ≤ MAX_JSON_INDENT_CHARS ∧ Within (depth + 1) item ∧ WithinItems
    (depth + 1) items
  | .obj ((_, value) :: fields) =>
    (depth + 1) * 2 ≤ MAX_JSON_INDENT_CHARS ∧ Within (depth + 1) value ∧ WithinFields
    (depth + 1) fields
  | _ => True

def WithinItems (depth : Nat) : List Json → Prop
  | [] => True
  | item :: items => Within depth item ∧ WithinItems depth items

def WithinFields (depth : Nat) : List (JsString × Json) → Prop
  | [] => True
  | (_, value) :: fields => Within depth value ∧ WithinFields depth fields

end

theorem compactBelow_false {depth : Nat} (h : (depth + 1) * 2 ≤ MAX_JSON_INDENT_CHARS) :
    compactBelow false depth = false := decide_eq_false (Nat.not_lt.mpr h)

mutual

theorem layout_indented {depth : Nat} {j : Json} (h : Within depth j) :
    layout depth false j = stringifyIndented depth j := by
  match j with
  | .null | .bool _ | .num _ | .str _ | .arr [] | .obj [] => rfl
  | .arr (item :: items) =>
    obtain ⟨hdepth, hitem, hitems⟩ := h
    rw [layout, compactBelow_false hdepth, layout_indented hitem, layoutItems_indented hitems]
    rfl
  | .obj ((key, value) :: fields) =>
    obtain ⟨hdepth, hvalue, hfields⟩ := h
    rw [layout, compactBelow_false hdepth, layout_indented hvalue, layoutFields_indented hfields]
    simp [stringifyIndented, fieldLabel, lineBreak]

theorem layoutItems_indented {depth : Nat} {items : List Json} (h : WithinItems (depth + 1) items) :
    layoutItems depth false items = indentedItems depth items := by
  match items with
  | [] => rfl
  | item :: items =>
    rw [layoutItems, layout_indented h.1, layoutItems_indented h.2]
    rfl

theorem layoutFields_indented {depth : Nat} {fields : List (JsString × Json)}
    (h : WithinFields (depth + 1) fields) :
    layoutFields depth false fields = indentedFields depth fields := by
  match fields with
  | [] => rfl
  | (key, value) :: fields =>
    rw [layoutFields, layout_indented h.1, layoutFields_indented h.2]
    simp [indentedFields, fieldLabel, lineBreak]

end

/-! ## Lines -/

/-- A text that starts with no space, and with at most as many as the cap on a new line. -/
def Tidy (text : Text) : Prop :=
  text.head? ≠ some (unit ' ') ∧ ∀ before after, text = before ++ unit '\n' :: after →
    (after.takeWhile (· = unit ' ')).length ≤ MAX_JSON_INDENT_CHARS

namespace Tidy

variable {text more : Text}

theorem append (h : Tidy text) (hmore : Tidy more) : Tidy (text ++ more) := by
  refine ⟨?_, fun before after heq => ?_⟩
  · cases text with
    | nil => exact hmore.1
    | cons => exact h.1
  rcases append_eq_append_iff.mp heq with ⟨rest, -, hrest⟩ | ⟨rest, htext, hrest⟩
  · exact hmore.2 rest after hrest
  cases rest with
  | nil => exact hmore.2 [] after hrest.symm
  | cons u rest =>
    obtain ⟨rfl, rfl⟩ := cons.inj hrest
    have hcount := h.2 before rest htext
    have hstop : more.takeWhile (· = unit ' ') = [] := by
      cases more with
      | nil => rfl
      | cons u more =>
        exact takeWhile_cons_of_neg fun hu => hmore.1 (congrArg some (of_decide_eq_true hu))
    show ((rest ++ more).takeWhile (· = unit ' ')).length ≤ MAX_JSON_INDENT_CHARS
    rw [takeWhile_append]
    split
    case isTrue hall => rwa [hstop, append_nil, ← hall]
    case isFalse => exact hcount

theorem feed_not_mem (h : OneLine text) : unit '\n' ∉ text := by
  obtain ⟨cs, hcs, rfl⟩ := h
  have hunit : ∀ n : Nat, n < 0x10000 → n ≠ 10 → unit '\n' ≠ n.toUInt16 := by
    intro n hn hne heq
    have hnat := congrArg UInt16.toNat heq
    rw [Nat.toUInt16, UInt16.toNat_ofNat_of_lt' hn] at hnat
    exact hne hnat.symm
  intro hmem
  obtain ⟨c, hc, hfeed⟩ := mem_flatMap.mp hmem
  obtain ⟨hscalar, hne⟩ := hcs c hc
  unfold Unicode.IsScalar at hscalar
  unfold Unicode.units at hfeed
  split_ifs at hfeed with hbound
  · exact hunit c hbound hne (mem_singleton.mp hfeed)
  rcases mem_cons.mp hfeed with hhigh | hlow
  · exact hunit _ (by omega) (by omega) hhigh
  · exact hunit _ (by omega) (by omega) (mem_singleton.mp hlow)

theorem of_oneLine (h : OneLine text) (hhead : text.head? ≠ some (unit ' ')) : Tidy text := by
  refine ⟨hhead, fun before after heq => ?_⟩
  have hmem : unit '\n' ∈ text := heq ▸ mem_append_right _ mem_cons_self
  exact absurd hmem (feed_not_mem h)

theorem cons {u : UInt16} (hplain : isPlain u = true) (hu : u ≠ unit ' ') (h : Tidy text) :
    Tidy (u :: text) :=
  append (of_oneLine (.single hplain) fun heq => hu (Option.some.inj heq)) h

theorem lineBreak {compact : Bool} {depth : Nat}
    (h : compact = false → depth * 2 ≤ MAX_JSON_INDENT_CHARS) : Tidy (lineBreak compact depth) := by
  cases compact with
  | true => exact of_oneLine .nil nofun
  | false =>
    refine ⟨fun h => absurd (Option.some.inj h) (by decide), fun before after heq => ?_⟩
    cases before with
    | nil =>
      obtain rfl := (cons.inj heq).2
      rw
    [takeWhile_replicate, if_pos (decide_eq_true rfl), length_replicate, Nat.mul_comm]
      exact h rfl
    | cons u before =>
      have hmem : unit '\n' ∈ List.replicate (2 * depth) (unit ' ') := by
        rw [(cons.inj heq).2]
        exact mem_append_right _ mem_cons_self
      exact absurd (eq_of_mem_replicate hmem) (by decide)

theorem fieldLabel (compact : Bool) (key : JsString) : Tidy (fieldLabel compact key) := by
  refine of_oneLine ((oneLine_quote key).append (.cons rfl ?_)) ?_
  · cases compact with
    | true => exact .nil
    | false => exact .single rfl
  · exact fun h => absurd (Option.some.inj h) (by decide)

theorem scalar (j : Json) : Tidy (stringify j) := by
  obtain ⟨u, rest, htext, hu, -⟩ := stringify_head j
  refine of_oneLine (oneLine_stringify j) ?_
  rw [htext]
  rintro ⟨⟩
  exact absurd hu (by decide)

end Tidy

theorem compactBelow_le {compact : Bool} {depth : Nat} (h : compactBelow compact depth = false) :
    (depth + 1) * 2 ≤ MAX_JSON_INDENT_CHARS :=
  Nat.not_lt.mp (of_decide_eq_false (Bool.or_eq_false_iff.mp h).2)

mutual

theorem layout_tidy (depth : Nat) (compact : Bool) (j : Json) : Tidy (layout depth compact j) := by
  match j with
  | .null => exact .scalar .null
  | .bool b => exact .scalar (.bool b)
  | .num n => exact .scalar (.num n)
  | .str s => exact .scalar (.str s)
  | .arr [] => exact .scalar (.arr [])
  | .obj [] => exact .scalar (.obj [])
  | .arr (item :: items) =>
    exact .cons (by decide) (by decide) ((Tidy.lineBreak compactBelow_le).append
      ((layout_tidy _ _ item).append (layoutItems_tidy compactBelow_le items)))
  | .obj ((key, value) :: fields) =>
    exact .cons (by decide) (by decide) ((Tidy.lineBreak compactBelow_le).append
      ((Tidy.fieldLabel _ key).append
        ((layout_tidy _ _ value).append (layoutFields_tidy compactBelow_le fields))))

theorem layoutItems_tidy {depth : Nat} {below : Bool}
    (h : below = false → (depth + 1) * 2 ≤ MAX_JSON_INDENT_CHARS) (items : List Json) :
    Tidy (layoutItems depth below items) := by
  match items with
  | [] =>
    exact (Tidy.lineBreak fun hbelow => Nat.le_trans (Nat.mul_le_mul_right 2 (Nat.le_succ depth))
      (h hbelow)).append (.cons (by decide) (by decide) (.of_oneLine .nil nofun))
  | item :: items =>
    exact .cons (by decide) (by decide) ((Tidy.lineBreak h).append
      ((layout_tidy _ _ item).append (layoutItems_tidy h items)))

theorem layoutFields_tidy {depth : Nat} {below : Bool}
    (h : below = false → (depth + 1) * 2 ≤ MAX_JSON_INDENT_CHARS)
    (fields : List (JsString × Json)) : Tidy (layoutFields depth below fields) := by
  match fields with
  | [] =>
    exact (Tidy.lineBreak fun hbelow => Nat.le_trans (Nat.mul_le_mul_right 2 (Nat.le_succ depth))
      (h hbelow)).append (.cons (by decide) (by decide) (.of_oneLine .nil nofun))
  | (key, value) :: fields =>
    exact .cons (by decide) (by decide) ((Tidy.lineBreak h).append
      ((Tidy.fieldLabel below key).append
        ((layout_tidy _ _ value).append (layoutFields_tidy h fields))))

end

/-- The renderer writes a text of the value: within the cap the one of `JSON.stringify`, and on
every line within the cap. -/
theorem renderJsonValue_faithful {value : Json} (hvalue : value.Proper) :
    ∃ text, (∃ n, ∀ m ≥ n, renderJsonValue m value = .ok (some text)) ∧
      parse text = some value ∧ (Within 0 value → text = stringifyIndented 0 value) ∧
      Tidy text := by
  have hparse := parse_spells hvalue (layout_spells 0 false value) blank_nil
  rw [append_nil] at hparse
  exact ⟨layout 0 false value, (leads_value 0 false value [] []).finishes (finishes_of_step rfl),
    hparse, fun h => layout_indented h, layout_tidy 0 false value⟩

theorem renderJsonValue_object : ∃ text,
    (∃ n, ∀ m ≥ n, renderJsonValue m (.obj [("a", .arr [.null]), ("b", .bool true)]) =
      .ok (some text)) ∧ text = stringifyIndented 0 (.obj
    [("a", .arr [.null]), ("b", .bool true)]) := by
  obtain ⟨text, hrun, -, hindented, -⟩ :=
    @renderJsonValue_faithful (.obj [("a", .arr [.null]), ("b", .bool true)])
      ⟨by decide, ⟨trivial, trivial⟩, trivial, trivial⟩
  exact ⟨text, hrun, hindented ⟨by decide, ⟨by decide, trivial, trivial⟩, trivial, trivial⟩⟩

end Tools
end Harness
