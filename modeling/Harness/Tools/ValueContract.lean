-- SUMMARY: What a supported schema means, the violations of a value against it, and that the frames of the validator compute them.
import Harness.Tools.ValueCheck

/-!
# Values of a schema

The meaning of a schema is by recursion over its tree. Between the meaning and the frames stand the
violations, by recursion too: of a branch of a union they say only whether it has any.
-/

namespace Harness

open List
namespace Tools

open WhileLoop
open Except (bind_eq_ok)

/-! ## Schemas -/

@[elab_as_elim, induction_eliminator]
theorem Schema.induction {motive : Schema → Prop} (any : motive .any)
    (oneOf : ∀ branches, (∀ t ∈ branches, motive t) → motive (.oneOf branches))
    (object : ∀ properties required closed, (∀ e ∈ properties, motive e.2) →
      motive (.object properties required closed))
    (array : motive .array) (arrayOf : ∀ items, motive items → motive (.arrayOf items))
    (scalar : ∀ type allowed declared, motive (.scalar type allowed declared)) (t : Schema) :
    motive t :=
  @Schema.rec motive (fun branches => ∀ t ∈ branches, motive t)
    (fun properties => ∀ e ∈ properties, motive e.2) (fun e => motive e.2)
    any oneOf object array arrayOf scalar
    (fun _ hmem => absurd hmem not_mem_nil)
    (fun _ _ hhead htail => forall_mem_cons.mpr ⟨hhead, htail⟩)
    (fun _ hmem => absurd hmem not_mem_nil)
    (fun _ _ hhead htail => forall_mem_cons.mpr ⟨hhead, htail⟩)
    (fun _ _ hsecond => hsecond) t

variable (heap : Heap)

/-! ## The meaning -/

/-- A record with nothing but its fields. -/
def IsRecord (value : Val) (fields : List (JsString × Val)) : Prop :=
  ∃ ref, value = .object ref ∧
    objectAt heap ref = .record true false (fields.map fun e => { key := e.1, slot := .data e.2 })

/-- A dense array with nothing but its elements. -/
def IsArray (value : Val) (values : List Val) : Prop :=
  ∃ ref mappable, value = .object ref ∧
    objectAt heap ref = .array true mappable 0 (values.map fun value => some (.data value))

mutual
/-- The values that a schema stands for. -/
def Means : Schema → Val → Prop
  | .any, value => Lossless heap value
  | .oneOf branches, value =>
    ∃! i : Nat, ∃ meaning, (meanings branches)[i]? = some meaning ∧ meaning value
  | .object properties required closed, value =>
    ∃ fields, IsRecord heap value fields ∧ (∀ e ∈ fields, Lossless heap e.2) ∧
      (∀ name ∈ required, name ∈ fields.map Prod.fst) ∧ MeansFields properties fields ∧
      (closed = true → ∀ e ∈ fields, e.1 ∈ properties.map Prod.fst)
  | .array, value => ∃ values, IsArray heap value values ∧ ∀ v ∈ values, Lossless heap v
  | .arrayOf items, value =>
    ∃ values, IsArray heap value values ∧ ∀ v ∈ values, Lossless heap v ∧ Means items v
  | .scalar type allowed declared, value =>
    scalarMatches type value = true ∧ (∀ values ∈ allowed, value ∈ values) ∧
      ∀ literal ∈ declared, value = literal

def meanings : List Schema → List (Val → Prop)
  | [] => []
  | branch :: branches => (fun value => Means branch value) :: meanings branches

def MeansFields : List (JsString × Schema) → List (JsString × Val) → Prop
  | [], _ => True
  | (key, schema) :: properties, fields =>
    (∀ value, fields.lookup key = some value → Means schema value) ∧ MeansFields properties fields
end

/-! ## The violations -/

/-- The containment of what is thrown. -/
def contained (path : JsString) : Throws (List JsString) → List JsString
  | .ok violations => violations
  | .error _ => losslessValueViolation path

/-- The violations of a container behind those of its parts. -/
def containerViolations (value : Val) (path message : JsString) (violations : List JsString) :
    List JsString :=
  if violations.length > 0 then violations else losslessViolations heap value path message

def unionViolations (path : JsString) (matched : Nat) : List JsString :=
  if matched = 1 then []
  else diagnostic path <|
    JsString.ofString s!" must match exactly one oneOf branch (matched {matched})"

def constViolations (declared : Option Val) (value : Val) (path : JsString) : List JsString :=
  match declared with
  | none => []
  | some literal =>
    if value = literal then []
    else diagnostic path (JsString.ofString " must be " ++ ⟨literal.toJson.stringify⟩)

def literalViolations (allowed : Option (List Val)) (declared : Option Val) (value : Val)
    (path : JsString) : List JsString :=
  match allowed with
  | none => constViolations declared value path
  | some values =>
    if value ∈ values then constViolations declared value path
    else
      diagnostic path (JsString.ofString " must be one of " ++
        ⟨(Json.arr (values.map Val.toJson)).stringify⟩)

mutual
/-- What is wrong with a value by a schema. -/
def violationsOf : Schema → Val → JsString → List JsString
  | .any, value, path => losslessViolations heap value path " must be a lossless JSON value"
  | .oneOf branches, value, path =>
    unionViolations path ((branchViolations branches value path).countP List.isEmpty)
  | .object properties required closed, value, path => contained path do
    let isRecord ← isPlainJsonRecord heap value
    if !isRecord then .ok (diagnostic path " must be an object")
    else do
      let missing ← missingViolations heap value path required
      let declared ← propertyViolations properties value path
      let undeclared := if closed then
          undeclaredViolations heap value path fun key => key ∈ properties.map Prod.fst
        else []
      .ok (containerViolations heap value path " must be a lossless JSON object"
        (missing ++ declared.flatten ++ undeclared))
  | .array, value, path => contained path do
    let isArray ← isArray heap value
    if !isArray then .ok (diagnostic path " must be an array")
    else .ok (losslessViolations heap value path " must be a dense lossless JSON array")
  | .arrayOf items, value, path => contained path do
    let isArray ← isArray heap value
    if !isArray then .ok (diagnostic path " must be an array")
    else do
      let entries ← flatMapEntries heap value path
      .ok (containerViolations heap value path " must be a dense lossless JSON array"
        (entries.map fun e => violationsOf items e.1 e.2).flatten)
  | .scalar type allowed declared, value, path =>
    match typeProblem type value with
    | some problem => diagnostic path problem
    | none => literalViolations allowed declared value path

def branchViolations : List Schema → Val → JsString → List (List JsString)
  | [], _, _ => []
  | branch :: branches, value, path =>
    violationsOf branch value path :: branchViolations branches value path

def propertyViolations :
    List (JsString × Schema) → Val → JsString → Throws (List (List JsString))
  | [], _, _ => .ok []
  | (key, schema) :: properties, value, path => do
    let held ← readOwn heap value key
    let violations ← propertyViolations properties value path
    .ok <| if held = .undefined then violations
      else violationsOf schema held (propertyPath path key) :: violations
end

/-! ## Frames and their children -/

variable {heap} {root : JsString}

/-- The run of a child ends with a result for its parent, whatever the frames below it are. -/
def Runs (heap : Heap) (root : JsString) (child : ValueChild) (result : List JsString) : Prop :=
  ∀ frames, Leads (valueTurn heap root) { frames := valueFrame child :: frames }
    (receive frames result)

section Children

variable {frame : ValueFrame} {frames : List ValueFrame} (hphase : frame.phase = .children)

include hphase

theorem turn_child {child : ValueChild} (hchild : frame.children[frame.childIndex]? = some child) :
    valueTurn heap root { frames := frame :: frames } = .ok (.inl
      { frames := valueFrame child :: { frame with childIndex := frame.childIndex + 1 } ::
          frames }) := by
  simp only [valueTurn, childrenTurn, hphase, hchild]

theorem turn_done (hdone : frame.children[frame.childIndex]? = none) :
    valueTurn heap root { frames := frame :: frames } =
      .ok (.inl (receive frames (childrenResult heap frame))) := by
  simp only [valueTurn, childrenTurn, hphase, hdone]

end Children

theorem children_of_drop {α : Type} {xs rest : List α} {x : α} {i : Nat}
    (h : xs.drop i = x :: rest) : xs[i]? = some x ∧ xs.drop (i + 1) = rest := by
  constructor
  · rw [← head?_drop, h]
    rfl
  · rw [← tail_drop, h]
    rfl

/-- A container takes the violations of its children in order. -/
theorem container_leads {results : List (List JsString)} : ∀ (frame : ValueFrame)
    (frames : List ValueFrame), frame.phase = .children → frame.kind ≠ some .oneOf →
    List.Forall₂ (Runs heap root) (frame.children.drop frame.childIndex) results →
    Leads (valueTurn heap root) { frames := frame :: frames } (receive frames
      (childrenResult heap { frame with violations := frame.violations ++ results.flatten })) := by
  induction results with
  | nil =>
    intro frame frames hphase _ h
    have hdone := drop_eq_nil_iff.mp (forall₂_nil_right_iff.mp h)
    rw [flatten_nil, append_nil]
    exact leads_of_step (turn_done hphase (getElem?_eq_none hdone))
  | cons result results ih =>
    intro frame frames hphase hkind h
    obtain ⟨child, rest, hrun, hrest, hdrop⟩ := forall₂_cons_right_iff.mp h
    obtain ⟨hchild, hdrop⟩ := children_of_drop hdrop
    refine Leads.head (turn_child hphase hchild) ((hrun _).trans ?_)
    rw [receive, ValueFrame.receive, if_neg hkind, flatten_cons, ← append_assoc]
    exact ih { frame with
      childIndex := frame.childIndex + 1, violations := frame.violations ++ result } frames
      hphase hkind (hdrop ▸ hrest)

/-- A union counts the branches without violations, and nothing else of them. -/
theorem union_leads {results : List (List JsString)} : ∀ (frame : ValueFrame)
    (frames : List ValueFrame), frame.phase = .children → frame.kind = some .oneOf →
    List.Forall₂ (Runs heap root) (frame.children.drop frame.childIndex) results →
    Leads (valueTurn heap root) { frames := frame :: frames } (receive frames
      (unionViolations frame.path (frame.matched + results.countP List.isEmpty))) := by
  induction results with
  | nil =>
    intro frame frames hphase hkind h
    have hdone := drop_eq_nil_iff.mp (forall₂_nil_right_iff.mp h)
    apply leads_of_step
    rw [turn_done hphase (getElem?_eq_none hdone), childrenResult, hkind]
    rfl
  | cons result results ih =>
    intro frame frames hphase hkind h
    obtain ⟨child, rest, hrun, hrest, hdrop⟩ := forall₂_cons_right_iff.mp h
    obtain ⟨hchild, hdrop⟩ := children_of_drop hdrop
    refine Leads.head (turn_child hphase hchild) ((hrun _).trans ?_)
    rw [receive, ValueFrame.receive, if_pos hkind]
    have hnext := ih { frame with
      childIndex := frame.childIndex + 1
      matched := if result.length = 0 then frame.matched + 1 else frame.matched } frames
      hphase hkind (hdrop ▸ hrest)
    cases result with
    | nil =>
      rw [countP_cons_of_pos rfl, Nat.add_comm (List.countP _ _) 1, ← Nat.add_assoc]
      exact hnext
    | cons violation violations =>
      rw [countP_cons_of_neg (by simp)]
      exact hnext

/-- What is said of a container that is not lossless. -/
def losslessMessage (kind : Option FrameKind) : JsString :=
  if kind = some .object then " must be a lossless JSON object"
  else " must be a dense lossless JSON array"

theorem childrenResult_container (frame : ValueFrame) (hkind : frame.kind ≠ some .oneOf) :
    childrenResult heap frame = containerViolations heap frame.value frame.path
      (losslessMessage frame.kind) (frame.violations ++ frame.tailViolations) := by
  rw [childrenResult]
  split
  case h_1 h => exact absurd h hkind
  case h_2 => rfl

/-! ## Opening frames -/

/-- A child's frame as its start phase goes on with it. -/
def caughtFrame (child : ValueChild) : ValueFrame := (valueFrame child).setCatches true

section Start

variable (child : ValueChild) {type : Val}
  (htype : readOwn heap child.node "type" = .ok type)
  (hcatches : type = .undefined ∨ (schemaType type).isSome = true)

include htype hcatches

theorem startTurn_eq (frames : List ValueFrame) :
    startTurn heap (valueFrame child) frames =
      match openFrame heap (caughtFrame child) type with
      | .error _ => .ok (receive frames (losslessValueViolation child.path))
      | .ok (.inl frame) => .ok { frames := frame :: frames }
      | .ok (.inr result) => .ok (receive frames result) := by
  have hcaught : (decide (type = .undefined) || (schemaType type).isSome) = true := by
    rcases hcatches with h | h <;> simp [h]
  rw [startTurn, show (valueFrame child).node = child.node from rfl, htype]
  dsimp only
  rw [hcaught, caughtFrame]
  cases openFrame heap ((valueFrame child).setCatches true) type with
  | error e => rfl
  | ok next => cases next <;> rfl

/-- What a frame comes to whose start phase ends it. -/
theorem runs_of_result {result : List JsString}
    (hopen : openFrame heap (caughtFrame child) type = .ok (.inr result)) :
    Runs heap root child result := by
  intro frames
  apply leads_of_step
  have hstart := startTurn_eq child htype hcatches frames
  rw [hopen] at hstart
  exact bind_eq_ok.mpr ⟨_, hstart, rfl⟩

theorem runs_of_error (hopen : openFrame heap (caughtFrame child) type = .error ()) :
    Runs heap root child (losslessValueViolation child.path) := by
  intro frames
  apply leads_of_step
  have hstart := startTurn_eq child htype hcatches frames
  rw [hopen] at hstart
  exact bind_eq_ok.mpr ⟨_, hstart, rfl⟩

theorem leads_of_open {frame : ValueFrame} (frames : List ValueFrame)
    (hopen : openFrame heap (caughtFrame child) type = .ok (.inl frame)) :
    Leads (valueTurn heap root) { frames := valueFrame child :: frames }
      { frames := frame :: frames } := by
  apply leads_of_step
  have hstart := startTurn_eq child htype hcatches frames
  rw [hopen] at hstart
  exact bind_eq_ok.mpr ⟨_, hstart, rfl⟩

/-- What a frame comes to whose start phase opens a container. -/
theorem runs_of_container {frame : ValueFrame} {results : List (List JsString)}
    (hopen : openFrame heap (caughtFrame child) type = .ok (.inl frame))
    (hphase : frame.phase = .children) (hkind : frame.kind ≠ some .oneOf)
    (hindex : frame.childIndex = 0)
    (hruns : List.Forall₂ (Runs heap root) frame.children results) :
    Runs heap root child (containerViolations heap frame.value frame.path
      (losslessMessage frame.kind) (frame.violations ++ results.flatten ++ frame.tailViolations)) := by
  intro frames
  rw [← drop_zero (l := frame.children), ← hindex] at hruns
  have hleads := container_leads frame frames hphase hkind hruns
  rw [childrenResult_container { frame with
    violations := frame.violations ++ results.flatten } hkind] at hleads
  exact (leads_of_open child htype hcatches frames hopen).trans hleads

end Start

@[simp] theorem caughtFrame_node (child : ValueChild) : (caughtFrame child).node = child.node := rfl

@[simp] theorem caughtFrame_value (child : ValueChild) :
    (caughtFrame child).value = child.value := rfl

@[simp] theorem caughtFrame_path (child : ValueChild) : (caughtFrame child).path = child.path := rfl

/-! ## What the frames read of a schema -/

section Reading

variable {node value : Val} {path : JsString}

theorem ne_undefined_of_elements {list : Val} {values : List Val}
    (h : Elements heap list values) : list ≠ .undefined := by
  rintro rfl
  cases h.1

theorem Describes.isRecord {t : Schema} (h : Describes heap t node) :
    isJsonSchemaRecord heap node = .ok true := by
  cases t <;> rw [Describes] at h
  case any | oneOf => exact h.1
  all_goals exact h.1.1

theorem Describes.ne_undefined {t : Schema} (h : Describes heap t node) : node ≠ .undefined := by
  rintro rfl
  cases h.isRecord

theorem openFrame_typed (child : ValueChild) {type : SchemaType}
    (h : Typed heap child.node type) :
    readOwn heap child.node "type" = .ok (.string type.name) ∧
      openFrame heap (caughtFrame child) (.string type.name) =
        match type with
        | .object => openObject heap (caughtFrame child)
        | .array => openArray heap (caughtFrame child)
        | .scalar type => (checkScalar heap type child.node child.value child.path).map .inr := by
  refine ⟨h.2.1.2, ?_⟩
  have hone := h.2.2.read
  rw [Option.getD_none] at hone
  rw [openFrame, caughtFrame_node, hone]
  simp only [bind, Except.bind]
  rw [if_neg (by simp), if_neg nofun, schemaType_name]
  cases type <;> rfl

theorem Properties.read {entries : List (JsString × Val)} (h : Properties heap node entries) :
    ∃ properties, readOwn heap node "properties" = .ok properties ∧
      entriesOf heap properties = .ok entries ∧
      ∀ key, hasOwn heap properties key = decide (key ∈ entries.map Prod.fst) := by
  rcases h with ⟨hnone, rfl⟩ | ⟨properties, hsome, hrecord, hentries⟩
  · exact ⟨.undefined, hnone.read, rfl, fun key => rfl⟩
  refine ⟨properties, hsome.2, hentries, fun key => ?_⟩
  rw [keys_of_entriesOf hentries, Bool.eq_iff_iff, decide_eq_true_iff]
  exact ⟨mem_keysOf_of_hasOwn hrecord, hasOwn_of_mem_keysOf⟩

theorem Requires.read {names : List JsString} (h : Requires heap node names) :
    ∃ required, readOwn heap node "required" = .ok required ∧
      readAll (itemsOf heap required) = .ok (names.map Val.string) := by
  rcases h with ⟨hnone, rfl⟩ | ⟨required, hsome, helements⟩
  · exact ⟨.undefined, hnone.read, rfl⟩
  · exact ⟨required, hsome.2, helements.2⟩

theorem typeProblem_eq_none {type : ScalarType} :
    typeProblem type value = none ↔ scalarMatches type value = true := by
  cases type <;> cases value <;> try simp [typeProblem, scalarMatches]
  all_goals first | rfl | split <;> simp_all

theorem strictlyEqual_iff {type : ScalarType} {a b : Val} (ha : scalarMatches type a = true)
    (hb : scalarMatches type b = true) : strictlyEqual a b = true ↔ a = b := by
  have hne : a ≠ .number .nan := by
    rintro rfl
    cases type <;> cases ha
  rw [strictlyEqual, Bool.and_eq_true, sameValueZero_iff ha hb, decide_eq_true_iff]
  exact and_iff_right hne

theorem any_sameValueZero {type : ScalarType} {values : List Val}
    (hvalue : scalarMatches type value = true)
    (hall : ∀ v ∈ values, scalarMatches type v = true) :
    values.any (sameValueZero value) = decide (value ∈ values) := by
  rw [Bool.eq_iff_iff, any_eq_true, decide_eq_true_iff]
  constructor
  · rintro ⟨v, hmem, hsame⟩
    exact (sameValueZero_iff hvalue (hall v hmem)).mp hsame ▸ hmem
  · intro hmem
    exact ⟨value, hmem, (sameValueZero_iff hvalue hvalue).mpr rfl⟩

/-- The literals of a node, behind the check of the type. -/
theorem checkScalarValue_eq {type : ScalarType} {allowed : Option (List Val)}
    {declared : Option Val} (hallows : Allows heap node allowed)
    (hconst : Field heap node "const" declared)
    (hallowed : ∀ values ∈ allowed, ∀ v ∈ values, scalarMatches type v = true)
    (hdeclared : ∀ literal ∈ declared, scalarMatches type literal = true)
    (hvalue : scalarMatches type value = true) :
    checkScalarValue heap node value path = .ok (literalViolations allowed declared value path) := by
  -- the constant is looked at where no allowed value is missed
  have hliteral : (do
      let declared ← readOwn heap node "const"
      if hasOwn heap node "const" && !strictlyEqual value declared then
        .ok (diagnostic path (JsString.ofString " must be " ++ ⟨declared.toJson.stringify⟩))
      else .ok []) = (.ok (constViolations declared value path) : Throws _) := by
    rw [hconst.read]
    simp only [bind, Except.bind]
    cases declared with
    | none =>
      rw [show hasOwn heap node "const" = false from hconst]
      rfl
    | some literal =>
      have heq := strictlyEqual_iff hvalue (hdeclared literal rfl)
      rw [hconst.1, Bool.true_and, Option.getD_some, constViolations]
      by_cases h : value = literal
      · rw [heq.mpr h, if_pos h]
        rfl
      · rw [Bool.eq_false_iff.mpr (mt heq.mp h), if_neg h]
        rfl
  rw [checkScalarValue]
  cases allowed with
  | none =>
    have hnone : Field heap node "enum" none := hallows
    rw [hnone.read]
    exact hliteral
  | some values =>
    obtain ⟨list, ⟨-, hread⟩, helements⟩ := hallows
    have hne := ne_undefined_of_elements helements
    have hany := any_sameValueZero hvalue (hallowed values rfl)
    simp only [hread, bind, Except.bind, someItem_of_readAll helements.2, hany]
    rw [literalViolations]
    by_cases hmem : value ∈ values
    · rw [if_neg (by simp [hmem]), if_pos hmem]
      exact hliteral
    · rw [if_pos (by simp [hmem, hne]), if_neg hmem, helements.2]

end Reading

/-! ## The frames compute the violations -/

section Children

variable (value : Val) (path : JsString)

/-- The branches of a union all look at the value of the union. -/
theorem branches_run {branches : List Schema} {nodes : List Val}
    (ih : ∀ t ∈ branches, ∀ {node value path}, Describes heap t node →
      Runs heap root { node, value, path } (violationsOf heap t value path))
    (h : DescribesAll heap branches nodes) :
    List.Forall₂ (Runs heap root)
      (nodes.map fun branch => { node := branch, value := value, path := path })
      (branchViolations heap branches value path) := by
  induction branches generalizing nodes with
  | nil =>
    rw [DescribesAll] at h
    subst h
    exact .nil
  | cons t branches ihb =>
    rw [DescribesAll] at h
    obtain ⟨node, rest, rfl, hnode, hrest⟩ := h
    obtain ⟨iht, ihrest⟩ := forall_mem_cons.mp ih
    exact .cons (iht hnode) (ihb ihrest hrest)

/-- The declared properties that a record has, unless reading one throws. -/
theorem properties_run {properties : List (JsString × Schema)} {entries : List (JsString × Val)}
    (ih : ∀ e ∈ properties, ∀ {node value path}, Describes heap e.2 node →
      Runs heap root { node, value, path } (violationsOf heap e.2 value path))
    (h : DescribesEntries heap properties entries) :
    (declaredChildren heap value path entries = .error () ∧
      propertyViolations heap properties value path = .error ()) ∨
    ∃ children results, declaredChildren heap value path entries = .ok children ∧
      propertyViolations heap properties value path = .ok results ∧
      List.Forall₂ (Runs heap root) children results := by
  induction properties generalizing entries with
  | nil =>
    rw [DescribesEntries] at h
    subst h
    exact .inr ⟨[], [], rfl, rfl, .nil⟩
  | cons property properties ihp =>
    obtain ⟨key, t⟩ := property
    rw [DescribesEntries] at h
    obtain ⟨node, rest, rfl, hnode, hrest⟩ := h
    obtain ⟨iht, ihrest⟩ := forall_mem_cons.mp ih
    rw [declaredChildren, propertyViolations]
    cases readOwn heap value key with
    | error e => exact .inl ⟨rfl, rfl⟩
    | ok held =>
      simp only [bind, Except.bind]
      rcases ihp ihrest hrest with ⟨hchildren, hresults⟩ | ⟨children, results, hchildren, hresults, hruns⟩
      · rw [hchildren, hresults]
        exact .inl ⟨rfl, rfl⟩
      rw [hchildren, hresults]
      by_cases hheld : held = .undefined
      · exact .inr ⟨children, results, by simp [hheld], by simp [hheld], hruns⟩
      refine .inr ⟨_, _, rfl, rfl, ?_⟩
      rw [if_neg hheld, if_neg hheld]
      exact .cons (iht hnode) hruns

theorem openObject_runs (child : ValueChild) {properties : List (JsString × Schema)}
    {required : List JsString} {closed : Bool}
    (ih : ∀ e ∈ properties, ∀ {node value path}, Describes heap e.2 node →
      Runs heap root { node, value, path } (violationsOf heap e.2 value path))
    (h : Describes heap (.object properties required closed) child.node) :
    Runs heap root child
      (violationsOf heap (.object properties required closed) child.value child.path) := by
  rw [Describes] at h
  obtain ⟨htyped, hrequires, -, ⟨additional, hadditional, rfl⟩, entries, hproperties, hentries⟩ := h
  obtain ⟨htype, hopen⟩ := openFrame_typed child htyped
  have hcatches : (Val.string SchemaType.object.name) = .undefined ∨
      (schemaType (.string SchemaType.object.name)).isSome = true := .inr rfl
  obtain ⟨record, hrecord, hdeclared, hown⟩ := hproperties.read
  obtain ⟨list, hlist, hnames⟩ := hrequires.read
  rw [openObject, caughtFrame_value, caughtFrame_node, caughtFrame_path] at hopen
  rw [violationsOf]
  cases hisRecord : isPlainJsonRecord heap child.value with
  | error e =>
    rw [hisRecord] at hopen
    exact runs_of_error child htype hcatches hopen
  | ok isRecord =>
    rw [hisRecord] at hopen
    cases isRecord with
    | false => exact runs_of_result child htype hcatches hopen
    | true =>
      have hkeys : (required.map Val.string).map keyText = required := by
        rw [map_map]
        exact map_id _
      simp only [bind, Except.bind, Bool.not_true, Bool.false_eq_true, if_false, hrecord, hlist,
        hnames, hkeys, hdeclared, hadditional] at hopen ⊢
      cases hmissing : missingViolations heap child.value child.path required with
      | error e =>
        rw [hmissing] at hopen
        exact runs_of_error child htype hcatches hopen
      | ok missing =>
        rw [hmissing] at hopen
        rcases properties_run child.value child.path ih hentries with
          ⟨hchildren, hresults⟩ | ⟨children, results, hchildren, hresults, hruns⟩
        · rw [hchildren] at hopen
          rw [hresults]
          exact runs_of_error child htype hcatches hopen
        rw [hchildren] at hopen
        rw [hresults]
        have hundeclared : (hasOwn heap record) =
            fun key => decide (key ∈ properties.map Prod.fst) := by
          funext key
          rw [hown, hentries.keys]
        rw [hundeclared] at hopen
        have hrun := runs_of_container child htype hcatches hopen rfl (by simp) rfl hruns
        simp only [decide_eq_true_eq]
        exact hrun

theorem openArray_runs (child : ValueChild) (h : Describes heap .array child.node) :
    Runs heap root child (violationsOf heap .array child.value child.path) := by
  rw [Describes] at h
  obtain ⟨htyped, hitems⟩ := h
  obtain ⟨htype, hopen⟩ := openFrame_typed child htyped
  have hcatches : (Val.string SchemaType.array.name) = .undefined ∨
      (schemaType (.string SchemaType.array.name)).isSome = true := .inr rfl
  rw [openArray, caughtFrame_value, caughtFrame_node, caughtFrame_path] at hopen
  rw [violationsOf]
  cases hisArray : isArray heap child.value with
  | error e =>
    rw [hisArray] at hopen
    exact runs_of_error child htype hcatches hopen
  | ok isArray =>
    rw [hisArray] at hopen
    cases isArray with
    | false => exact runs_of_result child htype hcatches hopen
    | true =>
      simp only [bind, Except.bind, hitems.read] at hopen
      exact runs_of_container child htype hcatches hopen rfl (by simp) rfl .nil

theorem openItems_runs (child : ValueChild) {items : Schema}
    (ih : ∀ {node value path}, Describes heap items node →
      Runs heap root { node, value, path } (violationsOf heap items value path))
    (h : Describes heap (.arrayOf items) child.node) :
    Runs heap root child (violationsOf heap (.arrayOf items) child.value child.path) := by
  rw [Describes] at h
  obtain ⟨htyped, item, hitem, hdescribes⟩ := h
  obtain ⟨htype, hopen⟩ := openFrame_typed child htyped
  have hcatches : (Val.string SchemaType.array.name) = .undefined ∨
      (schemaType (.string SchemaType.array.name)).isSome = true := .inr rfl
  rw [openArray, caughtFrame_value, caughtFrame_node, caughtFrame_path] at hopen
  rw [violationsOf]
  cases hisArray : isArray heap child.value with
  | error e =>
    rw [hisArray] at hopen
    exact runs_of_error child htype hcatches hopen
  | ok isArray =>
    rw [hisArray] at hopen
    cases isArray with
    | false => exact runs_of_result child htype hcatches hopen
    | true =>
      simp only [bind, Except.bind, hitem.2, itemChildren, if_neg hdescribes.ne_undefined] at hopen ⊢
      cases hentries : flatMapEntries heap child.value child.path with
      | error e =>
        rw [hentries] at hopen
        exact runs_of_error child htype hcatches hopen
      | ok entries =>
        rw [hentries] at hopen
        have hruns : List.Forall₂ (Runs heap root)
            (entries.map fun e => { node := item, value := e.1, path := e.2 })
            (entries.map fun e => violationsOf heap items e.1 e.2) := by
          rw [forall₂_map_left_iff, forall₂_map_right_iff, forall₂_same]
          exact fun e _ => ih hdescribes
        have hrun := runs_of_container child htype hcatches hopen rfl (by simp) rfl hruns
        rw [show (caughtFrame child).tailViolations = [] from rfl, append_nil,
          nil_append] at hrun
        exact hrun

/-- The frames come to the violations of the schema. -/
theorem runs_of_describes (t : Schema) : ∀ {node value path}, Describes heap t node →
    Runs heap root { node, value, path } (violationsOf heap t value path) := by
  induction t with
  | any =>
    intro node value path h
    rw [Describes] at h
    have htype := (h.2 "type" (by decide)).read
    have hone := (h.2 "oneOf" (by decide)).read
    apply runs_of_result ⟨node, value, path⟩ htype (.inl rfl)
    rw [openFrame, caughtFrame_node, hone]
    rfl
  | oneOf branches ih =>
    intro node value path h
    rw [Describes] at h
    obtain ⟨-, htype, list, values, hlist, helements, -, hbranches⟩ := h
    have hruns := @branches_run _ root value path _ _ ih hbranches
    have hopen : openFrame heap (caughtFrame { node, value, path }) .undefined = .ok (.inl
        { caughtFrame { node, value, path } with
          kind := some .oneOf
          children := values.map fun branch => { node := branch, value := value, path := path }
          childIndex := 0, matched := 0, phase := .children }) := by
      rw [openFrame, caughtFrame_node, hlist.2]
      simp only [bind, Except.bind]
      rw [if_pos (ne_undefined_of_elements helements), helements.2]
      rfl
    intro frames
    have hleads := union_leads { caughtFrame { node, value, path } with
        kind := some .oneOf
        children := values.map fun branch => { node := branch, value := value, path := path }
        childIndex := 0, matched := 0, phase := .children } frames rfl rfl hruns
    rw [Nat.zero_add] at hleads
    rw [violationsOf]
    exact (leads_of_open ⟨node, value, path⟩ htype.read (.inl rfl) frames hopen).trans
      hleads
  | object properties required closed ih =>
    intro node value path h
    exact openObject_runs ⟨node, value, path⟩ ih h
  | array =>
    intro node value path h
    exact openArray_runs ⟨node, value, path⟩ h
  | arrayOf items ih =>
    intro node value path h
    exact openItems_runs ⟨node, value, path⟩ ih h
  | scalar type allowed declared =>
    intro node value path h
    rw [Describes] at h
    obtain ⟨htyped, hallows, hconst, hallowed, hdeclared⟩ := h
    obtain ⟨htype, hopen⟩ := openFrame_typed ⟨node, value, path⟩ htyped
    apply runs_of_result ⟨node, value, path⟩ htype (.inr (by rw [schemaType_name]; rfl))
    simp only [hopen, checkScalar, violationsOf]
    cases hproblem : typeProblem type value with
    | some problem => rfl
    | none =>
      dsimp only
      rw [checkScalarValue_eq hallows hconst (fun values hmem => (hallowed values hmem).2)
        (fun literal hmem => (hdeclared literal hmem).1) (typeProblem_eq_none.mp hproblem)]
      rfl

end Children

/-! ## No violations -/

theorem diagnostic_ne_nil (path message : JsString) : diagnostic path message ≠ [] := nofun

theorem contained_eq_nil {path : JsString} {x : Throws (List JsString)} :
    contained path x = [] ↔ x = .ok [] := by
  cases x with
  | error e => exact ⟨fun h => absurd h (diagnostic_ne_nil _ _), nofun⟩
  | ok violations => exact ⟨congrArg Except.ok, Except.ok.inj⟩

theorem losslessViolations_eq_nil {value : Val} {path message : JsString} :
    losslessViolations heap value path message = [] ↔ Lossless heap value := by
  rw [losslessViolations, ← safelyIsJsonValue_iff]
  split
  case isTrue h => exact iff_of_true rfl h
  case isFalse h => exact iff_of_false (diagnostic_ne_nil _ _) h

theorem containerViolations_eq_nil {value : Val} {path message : JsString}
    {violations : List JsString} :
    containerViolations heap value path message violations = [] ↔
      violations = [] ∧ Lossless heap value := by
  rw [containerViolations]
  split
  case isTrue h =>
    have hne : violations ≠ [] := ne_nil_of_length_pos h
    exact iff_of_false hne fun hnil => hne hnil.1
  case isFalse h =>
    have hnil : violations = [] := length_eq_zero_iff.mp (Nat.eq_zero_of_not_pos h)
    rw [losslessViolations_eq_nil, and_iff_right hnil]

theorem literalViolations_eq_nil {allowed : Option (List Val)} {declared : Option Val}
    {value : Val} {path : JsString} :
    literalViolations allowed declared value path = [] ↔
      (∀ values ∈ allowed, value ∈ values) ∧ ∀ literal ∈ declared, value = literal := by
  have hconst : constViolations declared value path = [] ↔
      ∀ literal ∈ declared, value = literal := by
    cases declared with
    | none => exact iff_of_true rfl nofun
    | some literal => simp [constViolations, diagnostic]
  cases allowed with
  | none => simpa [literalViolations] using hconst
  | some values =>
    rw [literalViolations]
    by_cases hmem : value ∈ values
    · simpa [hmem] using hconst
    · simp [hmem, diagnostic]

/-! ## Lossless containers -/

section Containers

variable {value : Val} {path : JsString} {fields : List (JsString × Val)} {values : List Val}

theorem record_of_lossless (hrecord : isPlainJsonRecord heap value = .ok true)
    (h : Lossless heap value) :
    ∃ fields, IsRecord heap value fields ∧ ∀ e ∈ fields, Lossless heap e.2 := by
  cases h with
  | record hobject hall => exact ⟨_, ⟨_, rfl, hobject⟩, hall⟩
  | array hobject _ =>
    rw [isPlainJsonRecord, hobject] at hrecord
    cases hrecord
  | _ => cases hrecord

theorem IsRecord.isPlain (h : IsRecord heap value fields) :
    isPlainJsonRecord heap value = .ok true := by
  obtain ⟨ref, rfl, hobject⟩ := h
  rw [isPlainJsonRecord, hobject]

theorem IsRecord.lossless (h : IsRecord heap value fields)
    (hall : ∀ e ∈ fields, Lossless heap e.2) : Lossless heap value := by
  obtain ⟨ref, rfl, hobject⟩ := h
  exact .record hobject hall

theorem IsRecord.propertiesOf (h : IsRecord heap value fields) :
    propertiesOf heap value = fields.map fun e => { key := e.1, slot := .data e.2 } := by
  obtain ⟨ref, rfl, hobject⟩ := h
  rw [Tools.propertiesOf, hobject]

theorem IsRecord.keysOf (h : IsRecord heap value fields) :
    keysOf heap value = fields.map Prod.fst := by
  simp [Tools.keysOf, h.propertiesOf, filter_map, Function.comp_def]

theorem IsRecord.readOwn (h : IsRecord heap value fields) (key : JsString) :
    readOwn heap value key = .ok ((fields.lookup key).getD .undefined) := by
  rw [Tools.readOwn, ownProperty, h.propertiesOf]
  clear h
  induction fields with
  | nil => rfl
  | cons e fields ih =>
    rw [map_cons, find?_cons, lookup_cons]
    by_cases hkey : e.1 = key
    · simp [hkey, Slot.read]
    · have hne : (key == e.1) = false := beq_false_of_ne (Ne.symm hkey)
      simpa [hkey, hne] using ih

/-- A field of a lossless record is there exactly where reading it gives a value. -/
theorem held_eq_undefined (hall : ∀ e ∈ fields, Lossless heap e.2) {key : JsString} :
    (fields.lookup key).getD .undefined = .undefined ↔ fields.lookup key = none := by
  cases hlookup : fields.lookup key with
  | none => exact iff_of_true rfl rfl
  | some held =>
    refine iff_of_false ?_ nofun
    rintro rfl
    obtain ⟨pre, post, rfl, -⟩ := lookup_eq_some_iff.mp hlookup
    cases hall (key, _) (mem_append_right _ mem_cons_self)

theorem lookup_eq_none {key : JsString} :
    fields.lookup key = none ↔ key ∉ fields.map Prod.fst := by
  rw [lookup_eq_none_iff, mem_map]
  constructor
  · rintro h ⟨e, hmem, rfl⟩
    simpa using h e hmem
  · intro h e hmem
    simpa using fun heq : key = e.1 => h ⟨e, hmem, heq.symm⟩

theorem missing_spec (h : IsRecord heap value fields) (hall : ∀ e ∈ fields, Lossless heap e.2)
    (path : JsString) (names : List JsString) :
    ∃ violations, missingViolations heap value path names = .ok violations ∧
      (violations = [] ↔ ∀ name ∈ names, name ∈ fields.map Prod.fst) := by
  induction names with
  | nil => exact ⟨[], rfl, iff_of_true rfl fun name hmem => absurd hmem not_mem_nil⟩
  | cons name names ih =>
    obtain ⟨violations, hviolations, hiff⟩ := ih
    refine ⟨_, bind_eq_ok.mpr ⟨_, h.readOwn name, bind_eq_ok.mpr ⟨_, hviolations, rfl⟩⟩, ?_⟩
    rw [forall_mem_cons, ← hiff]
    split
    case isTrue hheld =>
      have hnone := lookup_eq_none.mp ((held_eq_undefined hall).mp hheld)
      exact iff_of_false nofun fun hmem => hnone hmem.1
    case isFalse hheld =>
      have hsome := mt (held_eq_undefined hall).mpr hheld
      rw [lookup_eq_none, not_not] at hsome
      exact (and_iff_right hsome).symm

theorem undeclared_eq_nil (h : IsRecord heap value fields) {declared : JsString → Bool} :
    undeclaredViolations heap value path declared = [] ↔
      ∀ e ∈ fields, declared e.1 = true := by
  rw [undeclaredViolations, map_eq_nil_iff, filter_eq_nil_iff, h.keysOf]
  simp

theorem array_of_lossless (harray : isArray heap value = .ok true) (h : Lossless heap value) :
    ∃ values, IsArray heap value values ∧ ∀ v ∈ values, Lossless heap v := by
  cases h with
  | array hobject hall => exact ⟨_, ⟨_, _, rfl, hobject⟩, hall⟩
  | record hobject _ =>
    rw [isArray, hobject] at harray
    cases harray
  | _ => cases harray

theorem IsArray.isArray (h : IsArray heap value values) : isArray heap value = .ok true := by
  obtain ⟨ref, mappable, rfl, hobject⟩ := h
  rw [Tools.isArray, hobject]

theorem IsArray.lossless (h : IsArray heap value values) (hall : ∀ v ∈ values, Lossless heap v) :
    Lossless heap value := by
  obtain ⟨ref, mappable, rfl, hobject⟩ := h
  exact .array hobject hall

theorem itemEntries_values (index : Nat) : ∃ entries,
    itemEntries path index (values.map fun v => some (.data v)) = .ok entries ∧
      entries.map Prod.fst = values := by
  induction values generalizing index with
  | nil => exact ⟨[], rfl, rfl⟩
  | cons v values ih =>
    obtain ⟨entries, hentries, hvalues⟩ := ih (index + 1)
    refine ⟨_, bind_eq_ok.mpr ⟨v, rfl, bind_eq_ok.mpr ⟨entries, hentries, rfl⟩⟩, ?_⟩
    rw [map_cons, hvalues]

theorem IsArray.entries (h : IsArray heap value values) (path : JsString) :
    ∃ entries, flatMapEntries heap value path = .ok entries ∧ entries.map Prod.fst = values := by
  obtain ⟨ref, mappable, rfl, hobject⟩ := h
  rw [flatMapEntries, hobject]
  exact itemEntries_values 0

end Containers

/-! ## The violations and the meaning -/

/-- One of the truth values is true. -/
theorem count_true_eq_one {bs : List Bool} :
    bs.count true = 1 ↔ ∃! i : Nat, bs[i]? = some true := by
  induction bs with
  | nil => exact iff_of_false nofun fun ⟨_, h, _⟩ => nomatch h
  | cons b bs ih =>
    cases b with
    | false =>
      rw [count_cons_of_ne Bool.false_ne_true, ih]
      constructor
      · rintro ⟨i, hi, hunique⟩
        refine ⟨i + 1, hi, fun j hj => ?_⟩
        cases j with
        | zero => cases hj
        | succ j => rw [hunique j hj]
      · rintro ⟨i, hi, hunique⟩
        cases i with
        | zero => cases hi
        | succ i => exact ⟨i, hi, fun j hj => Nat.succ.inj (hunique (j + 1) hj)⟩
    | true =>
      rw [count_cons_self, Nat.add_eq_right, List.count_eq_zero]
      constructor
      · intro hnone
        refine ⟨0, rfl, fun j hj => ?_⟩
        cases j with
        | zero => rfl
        | succ j => exact absurd (mem_of_getElem? (l := bs) hj) hnone
      · rintro ⟨i, -, hunique⟩ hmem
        obtain ⟨j, hj⟩ := mem_iff_getElem?.mp hmem
        have hzero := hunique 0 rfl
        have hsucc := hunique (j + 1) hj
        exact absurd (hsucc.trans hzero.symm) (Nat.succ_ne_zero j)

/-- A branch without violations is one that means the value. -/
theorem branch_iff {branches : List Schema} {value : Val} {path : JsString}
    (ih : ∀ t ∈ branches, violationsOf heap t value path = [] ↔ Means heap t value) (i : Nat) :
    ((branchViolations heap branches value path).map List.isEmpty)[i]? = some true ↔
      ∃ meaning, (meanings heap branches)[i]? = some meaning ∧ meaning value := by
  induction branches generalizing i with
  | nil => exact iff_of_false nofun fun ⟨_, h, _⟩ => nomatch h
  | cons t branches ihb =>
    obtain ⟨iht, ihrest⟩ := forall_mem_cons.mp ih
    rw [branchViolations, meanings, map_cons]
    cases i with
    | zero => simp [iht]
    | succ i => exact ihb ihrest i

theorem properties_spec (path : JsString) {properties : List (JsString × Schema)} {value : Val}
    {fields : List (JsString × Val)}
    (ih : ∀ e ∈ properties, ∀ value path, violationsOf heap e.2 value path = [] ↔
      Means heap e.2 value)
    (h : IsRecord heap value fields) (hall : ∀ e ∈ fields, Lossless heap e.2) :
    ∃ results, propertyViolations heap properties value path = .ok results ∧
      (results.flatten = [] ↔ MeansFields heap properties fields) := by
  induction properties with
  | nil =>
    refine ⟨[], rfl, iff_of_true rfl ?_⟩
    rw [MeansFields]
    trivial
  | cons property properties ihp =>
    obtain ⟨key, t⟩ := property
    obtain ⟨iht, ihrest⟩ := forall_mem_cons.mp ih
    obtain ⟨results, hresults, hiff⟩ := ihp ihrest
    rw [propertyViolations, MeansFields, ← hiff]
    refine ⟨_, bind_eq_ok.mpr ⟨_, h.readOwn key, bind_eq_ok.mpr ⟨_, hresults, rfl⟩⟩, ?_⟩
    split
    case isTrue hheld =>
      rw [(held_eq_undefined hall).mp hheld]
      exact (and_iff_right nofun).symm
    case isFalse hheld =>
      cases hlookup : fields.lookup key with
      | none => exact absurd ((held_eq_undefined hall).mpr hlookup) hheld
      | some held => simp [iht held]

/-- A value has no violations exactly if the schema stands for it. -/
theorem violationsOf_eq_nil (t : Schema) : ∀ value path,
    violationsOf heap t value path = [] ↔ Means heap t value := by
  induction t with
  | any =>
    intro value path
    rw [violationsOf, Means, losslessViolations_eq_nil]
  | oneOf branches ih =>
    intro value path
    rw [violationsOf, Means, unionViolations]
    have hcount : (branchViolations heap branches value path).countP List.isEmpty =
        ((branchViolations heap branches value path).map List.isEmpty).count true := by
      rw [List.count, countP_map]
      congr 1
      funext violations
      simp
    have hone : (branchViolations heap branches value path).countP List.isEmpty = 1 ↔
        ∃! i : Nat, ∃ meaning, (meanings heap branches)[i]? = some meaning ∧ meaning value := by
      rw [hcount, count_true_eq_one]
      simp only [branch_iff fun t hmem => ih t hmem value path]
    rw [← hone]
    split
    case isTrue h => exact iff_of_true rfl h
    case isFalse h => exact iff_of_false (diagnostic_ne_nil _ _) h
  | object properties required closed ih =>
    intro value path
    rw [violationsOf, Means, contained_eq_nil]
    -- of a lossless record every part is a matter of its fields
    have hparts : ∀ fields, IsRecord heap value fields → (∀ e ∈ fields, Lossless heap e.2) →
        ∃ missing results, missingViolations heap value path required = .ok missing ∧
          propertyViolations heap properties value path = .ok results ∧
          ((missing ++ results.flatten ++ if closed then undeclaredViolations heap value path
              fun key => key ∈ properties.map Prod.fst else []) = [] ↔
            (∀ name ∈ required, name ∈ fields.map Prod.fst) ∧ MeansFields heap properties fields ∧
              (closed = true → ∀ e ∈ fields, e.1 ∈ properties.map Prod.fst)) := by
      intro fields hrecord hall
      obtain ⟨missing, hmissing, hrequired⟩ := missing_spec hrecord hall path required
      obtain ⟨results, hresults, hmeans⟩ := properties_spec path ih hrecord hall
      refine ⟨missing, results, hmissing, hresults, ?_⟩
      rw [append_eq_nil_iff, append_eq_nil_iff, hrequired, hmeans, and_assoc]
      refine and_congr_right fun _ => and_congr_right fun _ => ?_
      cases closed with
      | false => exact iff_of_true rfl nofun
      | true =>
        rw [if_pos rfl, undeclared_eq_nil hrecord]
        simp
    constructor
    · intro h
      obtain ⟨isRecord, hisRecord, h⟩ := bind_eq_ok.mp h
      cases isRecord with
      | false => cases h
      | true =>
        obtain ⟨missing, hmissing, h⟩ := bind_eq_ok.mp h
        obtain ⟨results, hresults, h⟩ := bind_eq_ok.mp h
        obtain ⟨hnil, hlossless⟩ := containerViolations_eq_nil.mp (Except.ok.inj h)
        obtain ⟨fields, hrecord, hall⟩ := record_of_lossless hisRecord hlossless
        obtain ⟨missing', results', hmissing', hresults', hiff⟩ := hparts fields hrecord hall
        cases hmissing.symm.trans hmissing'
        cases hresults.symm.trans hresults'
        exact ⟨fields, hrecord, hall, hiff.mp hnil⟩
    · rintro ⟨fields, hrecord, hall, hmeans⟩
      obtain ⟨missing, results, hmissing, hresults, hiff⟩ := hparts fields hrecord hall
      refine bind_eq_ok.mpr ⟨true, hrecord.isPlain, bind_eq_ok.mpr ⟨missing, hmissing,
        bind_eq_ok.mpr ⟨results, hresults, congrArg Except.ok ?_⟩⟩⟩
      exact containerViolations_eq_nil.mpr ⟨hiff.mpr hmeans, hrecord.lossless hall⟩
  | array =>
    intro value path
    rw [violationsOf, Means, contained_eq_nil]
    constructor
    · intro h
      obtain ⟨isArray, hisArray, h⟩ := bind_eq_ok.mp h
      cases isArray with
      | false => cases h
      | true =>
        exact array_of_lossless hisArray (losslessViolations_eq_nil.mp (Except.ok.inj h))
    · rintro ⟨values, harray, hall⟩
      refine bind_eq_ok.mpr ⟨true, harray.isArray, congrArg Except.ok ?_⟩
      exact losslessViolations_eq_nil.mpr (harray.lossless hall)
  | arrayOf items ih =>
    intro value path
    rw [violationsOf, Means, contained_eq_nil]
    have hitems : ∀ {entries : List (Val × JsString)} {values : List Val},
        entries.map Prod.fst = values →
        ((entries.map fun e => violationsOf heap items e.1 e.2).flatten = [] ↔
          ∀ v ∈ values, Means heap items v) := by
      rintro entries _ rfl
      rw [flatten_eq_nil_iff, forall_mem_map, forall_mem_map]
      exact forall₂_congr fun e _ => ih e.1 e.2
    constructor
    · intro h
      obtain ⟨isArray, hisArray, h⟩ := bind_eq_ok.mp h
      cases isArray with
      | false => cases h
      | true =>
        obtain ⟨entries, hentries, h⟩ := bind_eq_ok.mp h
        obtain ⟨hnil, hlossless⟩ := containerViolations_eq_nil.mp (Except.ok.inj h)
        obtain ⟨values, harray, hall⟩ := array_of_lossless hisArray hlossless
        obtain ⟨entries', hentries', hvalues⟩ := harray.entries path
        cases hentries.symm.trans hentries'
        exact ⟨values, harray, fun v hmem => ⟨hall v hmem, (hitems hvalues).mp hnil v hmem⟩⟩
    · rintro ⟨values, harray, hall⟩
      obtain ⟨entries, hentries, hvalues⟩ := harray.entries path
      refine bind_eq_ok.mpr ⟨true, harray.isArray, bind_eq_ok.mpr ⟨entries, hentries,
        congrArg Except.ok (containerViolations_eq_nil.mpr ⟨?_, ?_⟩)⟩⟩
      · exact (hitems hvalues).mpr fun v hmem => (hall v hmem).2
      · exact harray.lossless fun v hmem => (hall v hmem).1
  | scalar type allowed declared =>
    intro value path
    rw [Means, ← @literalViolations_eq_nil allowed declared value path, ← typeProblem_eq_none]
    simp only [violationsOf]
    cases hproblem : typeProblem type value with
    | some problem => exact iff_of_false (diagnostic_ne_nil _ _) fun h => nomatch h.1
    | none => exact (and_iff_right rfl).symm

/-! ## Supported schemas -/

/-- The validator comes to an end on every value, without throwing, with no violation exactly for
the values that the schema stands for. A union that does not match has one violation, whatever its
branches have. -/
theorem validate_supported {schema : Val} (hsupported : Supported heap schema) :
    (∃ t, Describes heap t schema) ∧
      ∀ t, Describes heap t schema → ∀ value path, ∃ violations,
        (∃ n, ∀ m, n ≤ m →
          validateJsonSchemaValue heap m schema value path = .ok (some violations)) ∧
        violations = violationsOf heap t value path ∧
        (violations = [] ↔ Means heap t value) ∧
        ∀ branches, t = .oneOf branches → violations.length ≤ 1 := by
  refine ⟨hsupported.exists_describes, fun t ht value path => ?_⟩
  refine ⟨violationsOf heap t value path, ?_, rfl, violationsOf_eq_nil t value path, ?_⟩
  · have hleads := @runs_of_describes heap path t schema value path ht []
    exact hleads.finishes (finishes_of_step rfl)
  rintro branches rfl
  rw [violationsOf, unionViolations]
  split
  case isTrue => exact Nat.zero_le 1
  case isFalse => exact Nat.le_refl 1

/-- `{ oneOf: [string, string] }`, where both branches are one object. -/
def sharedBranches : Heap :=
  [ .record true false [{ key := "oneOf", slot := .data (.object 1) }],
    .array true true 0 [some (.data (.object 2)), some (.data (.object 2))],
    .record true false [{ key := "type", slot := .data (.string "string") }] ]

theorem validate_supported_shared : ∃ t, Describes sharedBranches t (.object 0) ∧
    ∀ value path, ∃ violations n,
      validateJsonSchemaValue sharedBranches n (.object 0) value path = .ok (some violations) ∧
        (violations = [] ↔ Means sharedBranches t value) := by
  have hsupported : Supported sharedBranches (.object 0) := ⟨8, rfl⟩
  obtain ⟨⟨t, ht⟩, hall⟩ := validate_supported hsupported
  refine ⟨t, ht, fun value path => ?_⟩
  obtain ⟨violations, ⟨n, hn⟩, -, hiff, -⟩ := hall t ht value path
  exact ⟨violations, n, hn n (Nat.le_refl n), hiff⟩

end Tools

end Harness
