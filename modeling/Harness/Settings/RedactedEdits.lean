-- SUMMARY: A caller that holds the redacted view can neither learn nor destroy a secret: when that is so, and inputs where it is not.
import Harness.Settings.PathOpsContract
import Harness.Settings.RedactContract

/-!
# Editing behind a redacted view

Such a caller reads a redaction and writes path ops that keep clear of the secret
positions. The two halves of the contract meet in the schema: it says what is stripped
from the view, and which positions the edits must leave alone.
-/

namespace Harness

open List Setting Redact

/-- The op's path neither equals, extends nor is a prefix of a secret position. -/
def SettingsPathOp.Avoids (op : SettingsPathOp) (schema : SchemaNode) (section_ : Setting) : Prop :=
  ∀ path value, SecretAt schema section_ path value → Apart op.path path

/-- The edits leave every secret as it was, and every other position to the last op at or above
it. -/
structure Preserves (schema : SchemaNode) (section_ : Setting) (ops : List SettingsPathOp)
    (result : Setting) : Prop where
  secrets : ∀ path value, SecretAt schema section_ path value →
    result.at_ path = section_.at_ path
  decides : Decides section_ ops result

/-- An edit of JSON data by path ops that set JSON data and avoid the secrets. -/
structure RedactedEdit (schema : SchemaNode) (section_ : Setting) (ops : List SettingsPathOp)
    (result : Setting) : Prop where
  plain : isPlainObject section_ = true
  values : ∀ op ∈ ops, ∀ value, op.op = .set value → value.Proper
  avoids : ∀ op ∈ ops, op.Avoids schema section_
  run : mutateSection section_ ops = .ok result

theorem clearAt_of_pathsClear {root : Setting} {ops : List SettingsPathOp} (h : PathsClear root ops)
    (q : List JsString) : ClearAt root ops q :=
  fun pre op post hsplit a ha hne _ hlater hunset =>
    h pre op post hsplit a ha hne hlater fun hkind => (hunset hkind).2

theorem preserves_iff {schema : SchemaNode} {section_ result : Setting} {ops : List SettingsPathOp}
    (hedit : RedactedEdit schema section_ ops result) :
    Preserves schema section_ ops result ↔ PathsClear section_ ops := by
  constructor
  · exact fun h => paths_clear_of_decides hedit.plain hedit.values hedit.run h.decides
  intro h
  refine ⟨?_, ?_⟩
  · intro path value hsecret
    exact apart_unchanged hedit.plain hedit.values hedit.run (clearAt_of_pathsClear h path)
      fun op hop => hedit.avoids op hop path value hsecret
  · intro q
    exact (held_of_clear hedit.plain hedit.values hedit.run q (clearAt_of_pathsClear h q)).content

/-- A caller that holds only the redacted view can neither learn nor destroy a secret, and neither
the view nor its edits lose anything else, exactly where no name of `Object.prototype` misleads the
redactor and no edit runs into an array or a scalar. -/
theorem redacted_view_iff {schema : SchemaNode} {value section_ result : Setting}
    {ops : List SettingsPathOp} (hschema : schema.Proper) (hvalue : value.Proper)
    (hedit : RedactedEdit schema section_ ops result) :
    (Redacts schema value ∧ Preserves schema section_ ops result)
      ↔ Spared schema value ∧ PathsClear section_ ops := by
  rw [redacts_iff_spared hschema hvalue, preserves_iff hedit]

/-! ## An account with one secret -/

namespace Account

def tokenKey : JsString := "token"
def nameKey : JsString := "name"
def listKey : JsString := "list"

def token : SchemaNode := .node (.other "string") (some "secret") [] none
def name : SchemaNode := .node (.other "string") none [] none
def schema : SchemaNode := .node .object none [(tokenKey, token), (nameKey, name)] none

/-- A section that holds its accounts in an array. -/
def listSchema : SchemaNode :=
  .node .object none [(listKey, .node .array none [] (some schema))] none

def fields (owner : JsString) : List (JsString × Setting) :=
  [(tokenKey, .string "s"), (nameKey, .string owner)]

theorem schema_proper : schema.Proper := by
  refine .node _ _ (by decide) ?_ nofun
  intro e he
  simp only [mem_cons, not_mem_nil, or_false] at he
  rcases he with rfl | rfl <;> exact .node _ _ nodup_nil nofun nofun

theorem listSchema_proper : listSchema.Proper := by
  refine .node _ _ (nodup_singleton _) ?_ nofun
  intro e he
  rw [mem_singleton.mp he]
  refine .node _ _ nodup_nil nofun ?_
  rintro child ⟨⟩
  exact schema_proper

theorem fields_proper (owner : JsString) : (Setting.record (fields owner)).Proper := by
  refine .record (show (OrderedMap.keys (fields owner)).Nodup from ?_) ?_
  · have hkeys : OrderedMap.keys (fields owner) = [tokenKey, nameKey] := rfl
    rw [hkeys]
    decide
  · intro e he
    simp only [fields, mem_cons, not_mem_nil, or_false] at he
    rcases he with rfl | rfl <;> exact .string _

theorem secretAt {value secret : Setting} {path : List JsString}
    (h : SecretAt schema value path secret) : path = [tokenKey] := by
  cases path with
  | nil => exact absurd h (not_secretAt_nil rfl)
  | cons key rest =>
    obtain ⟨child, entry, hbranch, node, hgoverns, hsecret⟩ := (secretAt_cons rfl).mp h
    rcases hbranch with ⟨-, hchild, -⟩ | ⟨htype, -⟩ | ⟨htype, -⟩
    · simp only [schema, SchemaNode.dict, mem_cons, Prod.mk.injEq, not_mem_nil,
        or_false] at hchild
      rcases hchild with ⟨rfl, rfl⟩ | ⟨rfl, rfl⟩
      · rw [(governs_secret rfl hgoverns).1]
      cases hgoverns with
      | here => cases hsecret
      | property _ htype => cases htype
      | entry _ htype => cases htype
      | item _ htype => cases htype
    · cases htype
    · cases htype

theorem secretAt_list {items : List Setting} {secret : Setting} {path : List JsString}
    (h : SecretAt listSchema (.record [(listKey, .array items)]) path secret) :
    ∃ i, path = [listKey, indexKey i, tokenKey] := by
  cases path with
  | nil => exact absurd h (not_secretAt_nil rfl)
  | cons key rest =>
    obtain ⟨child, entry, hbranch, hrest⟩ := (secretAt_cons rfl).mp h
    rcases hbranch with ⟨-, hchild, rfl⟩ | ⟨htype, -⟩ | ⟨htype, -⟩
    · cases mem_singleton.mp hchild
      cases rest with
      | nil => exact absurd hrest (not_secretAt_nil rfl)
      | cons key rest =>
        obtain ⟨child, entry, hbranch, hrest⟩ := (secretAt_cons rfl).mp hrest
        rcases hbranch with ⟨htype, -⟩ | ⟨htype, -⟩ | ⟨-, hchild, items, i, -, rfl, -⟩
        · cases htype
        · cases htype
        · cases hchild
          exact ⟨i, by rw [secretAt hrest]⟩
    · cases htype
    · cases htype

end Account

open Account in
/-- Editing the name of one account. -/
theorem redacted_view_account :
    (Redacts schema (.record (fields "n"))
      ∧ Preserves schema (.record (fields "n")) [⟨.set (.string "m"), [nameKey]⟩]
        (.record (fields "m")))
      ↔ Spared schema (.record (fields "n"))
        ∧ PathsClear (.record (fields "n")) [⟨.set (.string "m"), [nameKey]⟩] := by
  refine redacted_view_iff schema_proper (fields_proper "n") ⟨rfl, ?_, ?_, rfl⟩
  · intro op hop value hset
    rw [mem_singleton.mp hop] at hset
    cases hset
    exact .string _
  · intro op hop path value hsecret
    rw [mem_singleton.mp hop, secretAt hsecret]
    exact ⟨by decide, by decide⟩

open Account in
/-- An edit of the name of an account in an array destroys its token, though its path avoids the
token's; and a redaction drops an undeclared key that has the name of an inherited property. -/
theorem redacted_view_fails :
    ¬ (∀ (schema : SchemaNode) (value section_ result : Setting) (ops : List SettingsPathOp),
        schema.Proper → value.Proper → RedactedEdit schema section_ ops result →
        Redacts schema value ∧ Preserves schema section_ ops result)
      ∧ ¬ Redacts schema (.record [(("toString" : JsString), .string "kept")]) := by
  constructor
  · intro hclaim
    have hedit : RedactedEdit listSchema
        (.record [(listKey, .array [.record (fields "n")])])
        [⟨.set (.string "m"), [listKey, indexKey 0, nameKey]⟩]
        (.record [(listKey, .record [(indexKey 0, .record [(nameKey, .string "m")])])]) := by
      refine ⟨rfl, ?_, ?_, rfl⟩
      · intro op hop value hset
        rw [mem_singleton.mp hop] at hset
        cases hset
        exact .string _
      · intro op hop path value hsecret
        obtain ⟨i, rfl⟩ := secretAt_list hsecret
        have hne : nameKey ≠ tokenKey := by decide
        rw [mem_singleton.mp hop]
        constructor <;> simp [cons_prefix_cons, hne, hne.symm]
    have hkept := (hclaim listSchema .undefined _ _ _ listSchema_proper .undefined hedit).2.secrets
      [listKey, indexKey 0, tokenKey] (.string "s") ⟨token, ?_, rfl⟩
    · cases hkept
    · refine .property rfl rfl (mem_singleton_self _) (.item rfl rfl rfl rfl ?_)
      exact .property rfl rfl mem_cons_self (.here _ _)
  · intro h
    have hkept := h.keeps [("toString" : JsString)] ?_
    · cases hkept
    rintro ⟨outer, secret, hsecret, -, hle⟩
    rw [secretAt hsecret, cons_prefix_cons] at hle
    exact absurd hle.1 (by decide)

end Harness
