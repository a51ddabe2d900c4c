-- SUMMARY: `JSON.stringify` with an indent of two spaces, and that what it writes reads back.
import Harness.Json.RoundTrip

/-!
# Indented JSON

The spelling of a value with every item and field on a line of its own. It differs from the
compact one in white space only, which the reader skips.
-/

namespace Harness

namespace Json

/-- A line break and the indentation of the next line. -/
def newline (depth : Nat) : Text := unit '\n' :: List.replicate (2 * depth) (unit ' ')

mutual

/-- `JSON.stringify(value, null, 2)`, of a value that is `depth` levels deep. -/
def stringifyIndented (depth : Nat) : Json → Text
  | .arr [] => [unit '[', unit ']']
  | .arr (item :: items) =>
    unit '[' :: (newline (depth + 1) ++
      (stringifyIndented (depth + 1) item ++ indentedItems depth items))
  | .obj [] => [unit '\x7b', unit '\x7d']
  | .obj ((key, value) :: fields) =>
    unit '\x7b' :: (newline (depth + 1) ++ (quote key ++ unit ':' :: unit ' ' ::
      (stringifyIndented (depth + 1) value ++ indentedFields depth fields)))
  | .null => stringify .null
  | .bool b => stringify (.bool b)
  | .num n => stringify (.num n)
  | .str s => stringify (.str s)

/-- The items after the first, and the closing bracket. -/
def indentedItems (depth : Nat) : List Json → Text
  | [] => newline depth ++ [unit ']']
  | item :: items =>
    unit ',' :: (newline (depth + 1) ++
      (stringifyIndented (depth + 1) item ++ indentedItems depth items))

/-- The fields after the first, and the closing brace. -/
def indentedFields (depth : Nat) : List (JsString × Json) → Text
  | [] => newline depth ++ [unit '\x7d']
  | (key, value) :: fields =>
    unit ',' :: (newline (depth + 1) ++ (quote key ++ unit ':' :: unit ' ' ::
      (stringifyIndented (depth + 1) value ++ indentedFields depth fields)))

end

/-! ## Round trip -/

theorem blank_newline (depth : Nat) : Blank (newline depth) := by
  intro u hu
  rcases List.mem_cons.mp hu with rfl | hu
  · decide
  · rw [List.eq_of_mem_replicate hu]
    decide

mutual

theorem indented_spells (depth : Nat) (j : Json) : Spells j (stringifyIndented depth j) := by
  match j with
  | .null | .bool _ | .num _ | .str _ | .arr [] | .obj [] => exact rfl
  | .arr (item :: items) =>
    exact ⟨_, _, _, blank_newline _, indented_spells (depth + 1) item,
      indentedItems_spells depth items, rfl⟩
  | .obj ((key, value) :: fields) =>
    exact ⟨_, [unit ' '], _, _, blank_newline _, blank_singleton (by decide),
      indented_spells (depth + 1) value, indentedFields_spells depth fields, rfl⟩

theorem indentedItems_spells (depth : Nat) (items : List Json) :
    SpellsItems items (indentedItems depth items) := by
  match items with
  | [] => exact ⟨_, blank_newline depth, rfl⟩
  | item :: items =>
    exact ⟨_, _, _, blank_newline _, indented_spells (depth + 1) item,
      indentedItems_spells depth items, rfl⟩

theorem indentedFields_spells (depth : Nat) (fields : List (JsString × Json)) :
    SpellsFields fields (indentedFields depth fields) := by
  match fields with
  | [] => exact ⟨_, blank_newline depth, rfl⟩
  | (key, value) :: fields =>
    exact ⟨_, [unit ' '], _, _, blank_newline _, blank_singleton (by decide),
      indented_spells (depth + 1) value, indentedFields_spells depth fields, rfl⟩

end

/-- The text of a value with a line break after it reads back as the value. -/
theorem parse_indented {j : Json} (hj : j.Proper) :
    parse (stringifyIndented 0 j ++ [unit '\n']) = some j :=
  parse_spells hj (indented_spells 0 j) (blank_singleton (by decide))

/-! ## What is read -/

theorem properFields_iff (fields : List (JsString × Json)) :
    ProperFields fields ↔ ∀ e ∈ fields, e.2.Proper := by
  induction fields with
  | nil => simp [ProperFields]
  | cons e fields ih => simp [ProperFields, ih]

theorem parseScalar_proper {text rest : Text} {j : Json} (h : parseScalar text = some (j, rest)) :
    j.Proper := by
  rw [parseScalar] at h
  split at h
  · cases h
    exact trivial
  split at h
  · cases h
    exact trivial
  split at h
  · cases h
    exact trivial
  obtain ⟨_, -, heq⟩ := Option.map_eq_some_iff.mp h
  cases heq
  exact trivial

/-- The reader keeps no key twice. -/
theorem read_proper (fuel : Nat) :
    (∀ text j rest, parseValue fuel text = some (j, rest) → j.Proper) ∧
    (∀ text items rest, parseItems fuel text = some (items, rest) → ProperItems items) ∧
    ∀ text before fields rest, parseFields fuel before text = some (fields, rest) →
      (Json.obj before).Proper → (Json.obj fields).Proper := by
  induction fuel with
  | zero =>
    refine ⟨fun _ _ _ h => ?_, fun _ _ _ h => ?_, fun _ _ _ _ h => ?_⟩
    · simp [parseValue] at h
    · simp [parseItems] at h
    · simp [parseFields] at h
  | succ fuel ih =>
    obtain ⟨hvalue, hitems, hfields⟩ := ih
    refine ⟨fun text j rest h => ?_, fun text items rest h => ?_,
      fun text before fields rest h hbefore => ?_⟩
    · simp only [parseValue] at h
      split at h
      · cases h
      split at h
      · obtain ⟨_, -, heq⟩ := Option.map_eq_some_iff.mp h
        cases heq
        exact trivial
      split at h
      · split at h
        · cases h
          exact trivial
        split at h
        · cases h
        rename_i item _ hitem
        obtain ⟨⟨items, _⟩, hrest, heq⟩ := Option.map_eq_some_iff.mp h
        cases heq
        exact ⟨hvalue _ _ _ hitem, hitems _ _ _ hrest⟩
      split at h
      · split at h
        · cases h
          exact ⟨List.nodup_nil, trivial⟩
        split at h
        · cases h
        split at h
        · cases h
        rename_i value _ hread
        obtain ⟨⟨fields, _⟩, hrest, heq⟩ := Option.map_eq_some_iff.mp h
        cases heq
        exact hfields _ _ _ _ hrest ⟨List.nodup_singleton _, hvalue _ _ _ hread, trivial⟩
      · exact parseScalar_proper h
    · simp only [parseItems] at h
      split at h
      · cases h
        exact trivial
      split at h
      · cases h
      split at h
      · cases h
      rename_i item _ hitem
      obtain ⟨⟨items, _⟩, hrest, heq⟩ := Option.map_eq_some_iff.mp h
      cases heq
      exact ⟨hvalue _ _ _ hitem, hitems _ _ _ hrest⟩
    · simp only [parseFields] at h
      split at h
      · cases h
        exact hbefore
      split at h
      · cases h
      split at h
      · cases h
      split at h
      · cases h
      rename_i hread
      refine hfields _ _ _ _ h ⟨OrderedMap.nodup_set hbefore.1 _ _, ?_⟩
      rw [properFields_iff]
      intro e hmem
      rcases OrderedMap.mem_set hmem with hold | rfl
      · exact (properFields_iff before).mp hbefore.2 e hold
      · exact hvalue _ _ _ hread

theorem parse_proper {text : Text} {j : Json} (h : parse text = some j) : j.Proper := by
  rw [parse] at h
  split at h
  · cases h
  rename_i value rest hread
  split at h
  · cases h
    exact (read_proper _).1 _ _ _ hread
  · cases h

end Json

end Harness
