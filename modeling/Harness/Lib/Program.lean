-- SUMMARY: Sequential programs over a shared world that its surroundings also move, with their runs and a Hoare logic.
import Mathlib.Order.WellFounded

/-!
# Programs amid interference

A program is the tree of the operations it asks for. A machine says what an operation
answers and does to the world, and how the surroundings move the world in between. The
surroundings may move before every operation and after the last one, so an operation
stands for a stretch of code that nothing interrupts.

Triples speak about assertions that the surroundings cannot break. Besides the result,
a triple promises that every operation is asked for in a world where its guard holds.
-/

/-- A program that asks for operations, uses their answers and ends in a value. -/
inductive Program (Op : Type) (Answer : Op → Type) (α : Type) where
  | done (a : α)
  | call (op : Op) (next : Answer op → Program Op Answer α)

/-- How operations and surroundings act on a world. -/
structure Machine (Op : Type) (Answer : Op → Type) (World Reply Act : Type) where
  /-- The answer of an operation when the outside gives `reply`, if it then has one. -/
  perform : (op : Op) → Reply → World → Option (Answer op × World)
  /-- A move of the surroundings. -/
  act : Act → World → World

namespace Program

variable {Op : Type} {Answer : Op → Type} {α β ε : Type}

def bind : Program Op Answer α → (α → Program Op Answer β) → Program Op Answer β
  | done a, f => f a
  | call op next, f => call op fun x => (next x).bind f

instance : Monad (Program Op Answer) where
  pure := done
  bind := bind

/-- A program that may end by throwing. -/
abbrev Throwing (Op : Type) (Answer : Op → Type) (ε α : Type) := ExceptT ε (Program Op Answer) α

def ask (op : Op) : Throwing Op Answer ε (Answer op) := ExceptT.mk (call op fun x => done (.ok x))

/-- Go on with how `p` ended, thrown or not. -/
def settle (p : Throwing Op Answer ε α) (k : Except ε α → Throwing Op Answer ε β) :
    Throwing Op Answer ε β :=
  ExceptT.mk (bind p.run fun result => (k result).run)

/-! ## Operations of a program -/

/-- Every operation that `p` can ask for satisfies `P`. -/
def Within (P : Op → Prop) : Program Op Answer α → Prop
  | done _ => True
  | call op next => P op ∧ ∀ x, (next x).Within P

variable {P P' : Op → Prop}

theorem Within.bind {p : Program Op Answer α} {f : α → Program Op Answer β}
    (hp : p.Within P) (hf : ∀ a, (f a).Within P) : (p.bind f).Within P := by
  induction p with
  | done a => exact hf a
  | call op next ih => exact ⟨hp.1, fun x => ih x (hp.2 x)⟩

/-- The operations of a throwing program. -/
abbrev Throwing.Within (P : Op → Prop) (p : Throwing Op Answer ε α) : Prop :=
  Program.Within P p.run

theorem within_pure (a : α) : Throwing.Within P (pure a : Throwing Op Answer ε α) := trivial

theorem within_throw (e : ε) : Throwing.Within P (throw e : Throwing Op Answer ε α) := trivial

theorem within_ask {op : Op} (h : P op) :
    Throwing.Within P (ask op : Throwing Op Answer ε (Answer op)) := ⟨h, fun _ => trivial⟩

theorem within_bind {p : Throwing Op Answer ε α} {f : α → Throwing Op Answer ε β}
    (hp : p.Within P) (hf : ∀ a, (f a).Within P) : Throwing.Within P (p >>= f) := by
  refine Within.bind hp fun result => ?_
  cases result with
  | ok a => exact hf a
  | error e => trivial

theorem within_settle {p : Throwing Op Answer ε α} {k : Except ε α → Throwing Op Answer ε β}
    (hp : p.Within P) (hk : ∀ result, (k result).Within P) : (settle p k).Within P :=
  Within.bind hp hk

end Program

namespace Machine

variable {Op : Type} {Answer : Op → Type} {World Reply Act α β ε : Type}
  (S : Machine Op Answer World Reply Act)

/-! ## Runs -/

/-- What moves a run on. -/
inductive Input (Reply Act : Type) where
  | reply (reply : Reply)
  | act (act : Act)

/-- One move of a program and its world. -/
def next : Program Op Answer α × World → Input Reply Act →
    Option (Program Op Answer α × World)
  | (p, w), .act act => some (p, S.act act w)
  | (.done _, _), .reply _ => none
  | (.call op next, w), .reply reply =>
    (S.perform op reply w).map fun (x, w) => (next x, w)

theorem next_act (c : Program Op Answer α × World) (act : Act) :
    S.next c (.act act) = some (c.1, S.act act c.2) := rfl

def run (c : Program Op Answer α × World) : List (Input Reply Act) →
    Option (Program Op Answer α × World)
  | [] => some c
  | input :: inputs => (S.next c input).bind fun c => run c inputs

theorem run_append (c : Program Op Answer α × World) (xs ys : List (Input Reply Act)) :
    S.run c (xs ++ ys) = (S.run c xs).bind fun c => S.run c ys := by
  induction xs generalizing c with
  | nil => rfl
  | cons x xs ih =>
    simp only [List.cons_append, run]
    cases S.next c x with
    | none => rfl
    | some c' => exact ih c'

/-! ## Termination -/

/-- `q` is what is left of `p` after one answer. -/
def Remains (q p : Program Op Answer α) : Prop := ∃ op next x, p = .call op next ∧ q = next x

theorem remains_wellFounded : WellFounded (@Remains Op Answer α) := by
  refine ⟨fun p => ?_⟩
  induction p with
  | done a => exact ⟨_, fun q ⟨_, _, _, h, _⟩ => nomatch h⟩
  | call op next ih =>
    refine ⟨_, fun q ⟨op', next', x, h, hq⟩ => ?_⟩
    cases h
    exact hq ▸ ih x

/-- No run of a program gets answers for ever. -/
theorem finitely_many_replies (c : ℕ → Program Op Answer α × World)
    (input : ℕ → Input Reply Act) (hstep : ∀ n, S.next (c n) (input n) = some (c (n + 1))) :
    ∃ n, ∀ m, n ≤ m → ∀ reply, input m ≠ .reply reply := by
  obtain ⟨p, ⟨n, rfl⟩, hmin⟩ :=
    remains_wellFounded.has_min (Set.range fun n => (c n).1) ⟨_, 0, rfl⟩
  refine ⟨n, fun m hm => ?_⟩
  -- from `n` on every program equals the smallest one, so none of the moves is an answer
  have hmove : ∀ m, (c m).1 = (c n).1 → ∀ reply, input m ≠ .reply reply := by
    intro m hm reply hinput
    have hnext := hstep m
    rw [hinput] at hnext
    revert hnext hm
    generalize hc : c m = config
    obtain ⟨p, w⟩ := config
    intro hp hnext
    cases p with
    | done a => cases hnext
    | call op k =>
      simp only [next, Option.map_eq_some_iff, Prod.exists] at hnext
      obtain ⟨x, w', -, heq⟩ := hnext
      exact hmin (c (m + 1)).1 ⟨m + 1, rfl⟩ ⟨op, k, x, hp.symm, by rw [← heq]⟩
  have hsame : ∀ k, (c (n + k)).1 = (c n).1 := by
    intro k
    induction k with
    | zero => rfl
    | succ k ih =>
      have hnext := hstep (n + k)
      cases hinput : input (n + k) with
      | reply reply => exact absurd hinput (hmove _ ih reply)
      | act act =>
        rw [hinput, next_act] at hnext
        have heq := congrArg Prod.fst (Option.some.inj hnext)
        exact heq.symm.trans ih
  obtain ⟨k, rfl⟩ := Nat.exists_eq_add_of_le hm
  exact hmove _ (hsame k)

end Machine

/-! ## Assertions -/

/-- The moves the surroundings are allowed, and what each operation requires. -/
structure Rules {Op : Type} {Answer : Op → Type} {World Reply Act : Type}
    (S : Machine Op Answer World Reply Act) where
  allowed : Act → Prop
  guard : Op → World → Prop

namespace Rules

variable {Op : Type} {Answer : Op → Type} {World Reply Act α β ε : Type}
  {S : Machine Op Answer World Reply Act} (R : Rules S)

/-- `w'` comes from `w` by allowed moves of the surroundings. -/
def Drifts : World → World → Prop :=
  Relation.ReflTransGen fun w w' => ∃ act, R.allowed act ∧ w' = S.act act w

/-- No allowed move breaks `A`. -/
def Stable (A : World → Prop) : Prop := ∀ act, R.allowed act → ∀ w, A w → A (S.act act w)

/-- The inputs of a run whose surroundings keep to the rules. -/
def Permits : Machine.Input Reply Act → Prop
  | .reply _ => True
  | .act act => R.allowed act

theorem Stable.drifts {R : Rules S} {A : World → Prop} (hA : R.Stable A) {w w' : World}
    (hdrifts : R.Drifts w w') (hw : A w) : A w' := by
  induction hdrifts with
  | refl => exact hw
  | tail _ hact ih =>
    obtain ⟨act, hallowed, rfl⟩ := hact
    exact hA act hallowed _ ih

theorem Stable.and {R : Rules S} {A B : World → Prop} (hA : R.Stable A) (hB : R.Stable B) :
    R.Stable fun w => A w ∧ B w :=
  fun act hallowed w h => ⟨hA act hallowed w h.1, hB act hallowed w h.2⟩

theorem Stable.congr {R : Rules S} {A B : World → Prop} (hA : R.Stable A) (h : ∀ w, B w ↔ A w) :
    R.Stable B :=
  fun act hallowed w hw => (h _).mpr (hA act hallowed w ((h w).mp hw))

theorem Stable.const {R : Rules S} (p : Prop) : R.Stable fun _ => p := fun _ _ _ h => h

/-! ## Weakest preconditions -/

/-- Every operation `p` asks for is guarded, and its result satisfies `Q`. -/
def wp : Program Op Answer α → (α → World → Prop) → World → Prop
  | .done a, Q, w => ∀ w', R.Drifts w w' → Q a w'
  | .call op next, Q, w => ∀ w', R.Drifts w w' → R.guard op w' ∧
      ∀ reply x w'', S.perform op reply w' = some (x, w'') → wp (next x) Q w''

variable {Q : α → World → Prop} {p : Program Op Answer α}

theorem wp_drifts {R : Rules S} {w w' : World}
    (h : R.wp p Q w) (hdrifts : R.Drifts w w') : R.wp p Q w' := by
  cases p with
  | done a => exact fun w'' hdrifts' => h w'' (hdrifts.trans hdrifts')
  | call op next => exact fun w'' hdrifts' => h w'' (hdrifts.trans hdrifts')

variable {w : World}

theorem wp_mono {R : Rules S} {Q Q' : α → World → Prop}
    (hQ : ∀ a w, Q a w → Q' a w) (h : R.wp p Q w) : R.wp p Q' w := by
  induction p generalizing w with
  | done a => exact fun w' hdrifts => hQ a w' (h w' hdrifts)
  | call op next ih =>
    intro w' hdrifts
    obtain ⟨hguard, hnext⟩ := h w' hdrifts
    exact ⟨hguard, fun reply x w'' hperform => ih x (hnext reply x w'' hperform)⟩

theorem wp_bind {R : Rules S} {f : α → Program Op Answer β}
    {Q : β → World → Prop} (h : R.wp p (fun a => R.wp (f a) Q) w) :
    R.wp (p.bind f) Q w := by
  induction p generalizing w with
  | done a => exact h w .refl
  | call op next ih =>
    intro w' hdrifts
    obtain ⟨hguard, hnext⟩ := h w' hdrifts
    exact ⟨hguard, fun reply x w'' hperform => ih x (hnext reply x w'' hperform)⟩

theorem wp_next {R : Rules S} {c c' : Program Op Answer α × World}
    {input : Machine.Input Reply Act} (h : R.wp c.1 Q c.2) (hpermits : R.Permits input)
    (hnext : S.next c input = some c') : R.wp c'.1 Q c'.2 := by
  obtain ⟨p, w⟩ := c
  cases input with
  | act act =>
    cases hnext
    exact wp_drifts h (.single ⟨act, hpermits, rfl⟩)
  | reply reply =>
    cases p with
    | done a => cases hnext
    | call op next =>
      simp only [Machine.next, Option.map_eq_some_iff, Prod.exists] at hnext
      obtain ⟨x, w', hperform, rfl⟩ := hnext
      exact (h w .refl).2 reply x w' hperform

theorem wp_run {R : Rules S} {c c' : Program Op Answer α × World}
    {inputs : List (Machine.Input Reply Act)} (h : R.wp c.1 Q c.2)
    (hpermits : ∀ input ∈ inputs, R.Permits input) (hrun : S.run c inputs = some c') :
    R.wp c'.1 Q c'.2 := by
  induction inputs generalizing c with
  | nil =>
    cases hrun
    exact h
  | cons input inputs ih =>
    simp only [Machine.run, Option.bind_eq_some_iff] at hrun
    obtain ⟨c₁, hnext, hrun⟩ := hrun
    have hhead := hpermits input List.mem_cons_self
    exact ih (wp_next h hhead hnext)
      (fun input hinput => hpermits input (List.mem_cons_of_mem _ hinput)) hrun

/-- An operation that is asked for under its guard gets an answer after some moves of the
surroundings. -/
def Live : Prop :=
  ∀ op w, R.guard op w → ∃ acts : List Act, (∀ act ∈ acts, R.allowed act) ∧
    ∃ reply x w', S.perform op reply (acts.foldl (fun w act => S.act act w) w) = some (x, w')

theorem run_acts (S : Machine Op Answer World Reply Act) (p : Program Op Answer α) (w : World)
    (acts : List Act) :
    S.run (p, w) (acts.map .act) = some (p, acts.foldl (fun w act => S.act act w) w) := by
  induction acts generalizing w with
  | nil => rfl
  | cons act acts ih => exact ih (S.act act w)

theorem drifts_acts {R : Rules S} {acts : List Act} (hacts : ∀ act ∈ acts, R.allowed act)
    (w : World) : R.Drifts w (acts.foldl (fun w act => S.act act w) w) := by
  induction acts generalizing w with
  | nil => exact .refl
  | cons act acts ih =>
    exact .head ⟨act, hacts act List.mem_cons_self, rfl⟩
      (ih (fun act hact => hacts act (List.mem_cons_of_mem _ hact)) _)

/-- Where guarded operations get their answers, a program can always be run to its end. -/
theorem can_finish {R : Rules S} (hlive : R.Live) (h : R.wp p Q w) :
    ∃ inputs a w', (∀ input ∈ inputs, R.Permits input) ∧
      S.run (p, w) inputs = some (.done a, w') ∧ Q a w' := by
  induction p generalizing w with
  | done a => exact ⟨[], a, w, by simp, rfl, h w .refl⟩
  | call op next ih =>
    obtain ⟨acts, hacts, reply, x, w', hperform⟩ := hlive op w (h w .refl).1
    have hnext := (h _ (drifts_acts hacts w)).2 reply x w' hperform
    obtain ⟨inputs, a, w'', hpermits, hrun, hQ⟩ := ih x hnext
    refine ⟨acts.map .act ++ .reply reply :: inputs, a, w'', ?_, ?_, hQ⟩
    · intro input hinput
      simp only [List.mem_append, List.mem_map, List.mem_cons] at hinput
      rcases hinput with ⟨act, hact, rfl⟩ | rfl | hinput
      · exact hacts act hact
      · trivial
      · exact hpermits input hinput
    · rw [S.run_append, run_acts]
      simp only [Option.bind_some, Machine.run, Machine.next, hperform, Option.map_some]
      exact hrun

/-! ## Triples -/

/-- From `A` every operation of `p` is guarded and its result satisfies `Q`. -/
def Triple (A : World → Prop) (p : Program Op Answer α) (Q : α → World → Prop) : Prop :=
  ∀ w, A w → R.wp p Q w

variable {R} {A B : World → Prop} {Q : α → World → Prop}

theorem Triple.done {a : α} (hA : R.Stable A) (h : ∀ w, A w → Q a w) : R.Triple A (.done a) Q :=
  fun _ hw w' hdrifts => h w' (hA.drifts hdrifts hw)

theorem Triple.call {op : Op} {next : Answer op → Program Op Answer α}
    {C : Answer op → World → Prop} (hA : R.Stable A)
    (hop : ∀ w, A w → R.guard op w ∧
      ∀ reply x w', S.perform op reply w = some (x, w') → C x w')
    (hnext : ∀ x, R.Triple (C x) (next x) Q) : R.Triple A (.call op next) Q := by
  intro w hw w' hdrifts
  obtain ⟨hguard, hperform⟩ := hop w' (hA.drifts hdrifts hw)
  exact ⟨hguard, fun reply x w'' h => hnext x w'' (hperform reply x w'' h)⟩

variable {C : β → World → Prop}

theorem Triple.bind {p : Program Op Answer β} {f : β → Program Op Answer α} (hp : R.Triple A p C)
    (hf : ∀ b, R.Triple (C b) (f b) Q) :
    R.Triple A (p.bind f) Q :=
  fun w hw => wp_bind (wp_mono (fun b w hb => hf b w hb) (hp w hw))

theorem Triple.strengthen (h : ∀ w, A w → B w) (hp : R.Triple B p Q) : R.Triple A p Q :=
  fun w hw => hp w (h w hw)

theorem Triple.weaken {Q' : α → World → Prop} (hp : R.Triple A p Q)
    (h : ∀ a w, Q a w → Q' a w) : R.Triple A p Q' :=
  fun w hw => wp_mono h (hp w hw)

theorem Triple.exists {ι : Sort*} {A : ι → World → Prop}
    (h : ∀ i, R.Triple (A i) p Q) : R.Triple (fun w => ∃ i, A i w) p Q :=
  fun w ⟨i, hw⟩ => h i w hw

/-- A precondition may be used as long as it is needed. -/
theorem Triple.assuming {fact : Prop} (h : fact → R.Triple A p Q) :
    R.Triple (fun w => fact ∧ A w) p Q :=
  fun w hw => h hw.1 w hw.2

/-- A program whose operations all keep a stable assertion keeps it. -/
theorem Triple.of_within {P : Op → Prop} (hA : R.Stable A)
    (hop : ∀ op, P op → ∀ w, A w → R.guard op w ∧
      ∀ reply x w', S.perform op reply w = some (x, w') → A w')
    (hp : p.Within P) : R.Triple A p (fun _ => A) := by
  induction p with
  | done a => exact .done hA fun _ hw => hw
  | call op next ih => exact .call hA (hop op hp.1) fun x => ih x (hp.2 x)

/-! ## Triples of throwing programs -/

/-- A postcondition of the two ways a throwing program ends. -/
def ends (Q : α → World → Prop) (E : ε → World → Prop) : Except ε α → World → Prop
  | .ok a => Q a
  | .error e => E e

variable (R) in
/-- `Q` holds of the value and `E` of what is thrown. -/
def Holds (A : World → Prop) (p : Program.Throwing Op Answer ε α) (Q : α → World → Prop)
    (E : ε → World → Prop) : Prop :=
  R.Triple A p.run (ends Q E)

variable {E : ε → World → Prop}

theorem Holds.pure {a : α} (hA : R.Stable A) (h : ∀ w, A w → Q a w) :
    R.Holds A (pure a : Program.Throwing Op Answer ε α) Q E :=
  Triple.done hA h

theorem Holds.throw {e : ε} (hA : R.Stable A) (h : ∀ w, A w → E e w) :
    R.Holds A (throw e : Program.Throwing Op Answer ε α) Q E :=
  Triple.done hA h

theorem Holds.bind {p : Program.Throwing Op Answer ε β} {f : β → Program.Throwing Op Answer ε α}
    (hE : ∀ e, R.Stable (E e)) (hp : R.Holds A p C E)
    (hf : ∀ b, R.Holds (C b) (f b) Q E) : R.Holds A (p >>= f) Q E := by
  refine Triple.bind hp fun result => ?_
  cases result with
  | ok b => exact hf b
  | error e => exact .done (hE e) fun _ hw => hw

theorem Holds.settle {p : Program.Throwing Op Answer ε β}
    {k : Except ε β → Program.Throwing Op Answer ε α}
    {D : ε → World → Prop} (hp : R.Holds A p C D) (hok : ∀ b, R.Holds (C b) (k (.ok b)) Q E)
    (herror : ∀ e, R.Holds (D e) (k (.error e)) Q E) :
    R.Holds A (Program.settle p k) Q E := by
  refine Triple.bind hp fun result => ?_
  cases result with
  | ok b => exact hok b
  | error e => exact herror e

theorem Holds.ask {op : Op} {C : Answer op → World → Prop} (hA : R.Stable A)
    (hC : ∀ x, R.Stable (C x))
    (hop : ∀ w, A w → R.guard op w ∧
      ∀ reply x w', S.perform op reply w = some (x, w') → C x w') :
    R.Holds A (Program.ask op : Program.Throwing Op Answer ε (Answer op)) C E :=
  Triple.call hA hop fun x => Triple.done (hC x) fun _ hw => hw

theorem Holds.strengthen {p : Program.Throwing Op Answer ε α} (h : ∀ w, A w → B w)
    (hp : R.Holds B p Q E) : R.Holds A p Q E :=
  Triple.strengthen h hp

theorem Holds.weaken {p : Program.Throwing Op Answer ε α} {Q' : α → World → Prop}
    {E' : ε → World → Prop} (hp : R.Holds A p Q E) (hQ : ∀ a w, Q a w → Q' a w)
    (hE : ∀ e w, E e w → E' e w) : R.Holds A p Q' E' := by
  refine Triple.weaken hp fun result w h => ?_
  cases result with
  | ok a => exact hQ a w h
  | error e => exact hE e w h

theorem Holds.exists {ι : Sort*} {A : ι → World → Prop} {p : Program.Throwing Op Answer ε α}
    (h : ∀ i, R.Holds (A i) p Q E) : R.Holds (fun w => ∃ i, A i w) p Q E :=
  Triple.exists h

theorem Holds.assuming {fact : Prop} {p : Program.Throwing Op Answer ε α}
    (h : fact → R.Holds A p Q E) : R.Holds (fun w => fact ∧ A w) p Q E :=
  Triple.assuming h

theorem Holds.of_within {P : Op → Prop} {p : Program.Throwing Op Answer ε α} (hA : R.Stable A)
    (hop : ∀ op, P op → ∀ w, A w → R.guard op w ∧
      ∀ reply x w', S.perform op reply w = some (x, w') → A w')
    (hp : p.Within P) : R.Holds A p (fun _ => A) (fun _ => A) := by
  refine Triple.weaken (Triple.of_within hA hop hp) fun result w hw => ?_
  cases result <;> exact hw

end Rules
