-- SUMMARY: UTF-16 and UTF-8: encoders, lossy decoders, their round trips, and what a cut between two bytes leaves of a valid stream.
import Mathlib.Data.List.Forall2

/-!
# Unicode encodings

Code points are natural numbers. A decoder puts the replacement character in the place of
what is malformed, as decoders for the web do.
-/

namespace Unicode

open List

def replacement : Nat := 0xFFFD

/-- A code point that is no surrogate. -/
def IsScalar (c : Nat) : Prop := c < 0xD800 ∨ (0xE000 ≤ c ∧ c < 0x110000)

instance (c : Nat) : Decidable (IsScalar c) := inferInstanceAs (Decidable (_ ∨ _))

/-! ## UTF-16 -/

def IsHigh (u : UInt16) : Prop := 0xD800 ≤ u.toNat ∧ u.toNat < 0xDC00

def IsLow (u : UInt16) : Prop := 0xDC00 ≤ u.toNat ∧ u.toNat < 0xE000

instance (u : UInt16) : Decidable (IsHigh u) := inferInstanceAs (Decidable (_ ∧ _))

instance (u : UInt16) : Decidable (IsLow u) := inferInstanceAs (Decidable (_ ∧ _))

/-- The code units of a scalar value. -/
def units (c : Nat) : List UInt16 :=
  if c < 0x10000 then [c.toUInt16]
  else [(0xD800 + (c - 0x10000) / 0x400).toUInt16, (0xDC00 + (c - 0x10000) % 0x400).toUInt16]

/-- A code unit that is no part of a pair. -/
def single (u : UInt16) : Nat := if IsHigh u ∨ IsLow u then replacement else u.toNat

/-- The code points of a sequence of code units. -/
def points : List UInt16 → List Nat
  | [] => []
  | [u] => [single u]
  | u :: v :: rest =>
    if IsHigh u ∧ IsLow v then
      (0x10000 + (u.toNat - 0xD800) * 0x400 + (v.toNat - 0xDC00)) :: points rest
    else single u :: points (v :: rest)

theorem points_single_append {u : UInt16} (hhigh : ¬ IsHigh u) (rest : List UInt16) :
    points (u :: rest) = single u :: points rest := by
  cases rest with
  | nil => rfl
  | cons v rest => rw [points, if_neg fun h => hhigh h.1]

theorem points_units_append {c : Nat} (hc : IsScalar c) (rest : List UInt16) :
    points (units c ++ rest) = c :: points rest := by
  unfold units
  by_cases hbmp : c < 0x10000
  · have hnat : c.toUInt16.toNat = c := by
      rw [Nat.toUInt16, UInt16.toNat_ofNat']
      omega
    rw [if_pos hbmp, singleton_append, points_single_append]
    · rw [single, if_neg, hnat]
      unfold IsHigh IsLow
      unfold IsScalar at hc
      omega
    · unfold IsHigh
      unfold IsScalar at hc
      omega
  · have hhigh : (0xD800 + (c - 0x10000) / 0x400).toUInt16.toNat = 0xD800 + (c - 0x10000) / 0x400 := by
      rw [Nat.toUInt16, UInt16.toNat_ofNat']
      unfold IsScalar at hc
      omega
    have hlow : (0xDC00 + (c - 0x10000) % 0x400).toUInt16.toNat = 0xDC00 + (c - 0x10000) % 0x400 := by
      rw [Nat.toUInt16, UInt16.toNat_ofNat']
      omega
    rw [if_neg hbmp, cons_append, singleton_append, points, if_pos]
    · rw [hhigh, hlow]
      exact cons_eq_cons.mpr ⟨by omega, rfl⟩
    unfold IsHigh IsLow
    unfold IsScalar at hc
    omega

variable {cs : List Nat}

theorem points_flatMap_units (hcs : ∀ c ∈ cs, IsScalar c) : points (cs.flatMap units) = cs := by
  induction cs with
  | nil => rfl
  | cons c cs ih =>
    rw [flatMap_cons, points_units_append (hcs c mem_cons_self),
      ih fun c hmem => hcs c (mem_cons_of_mem _ hmem)]

/-- A text in front of a unit that is no second half of a pair keeps its code points. -/
theorem points_append {v : UInt16} (hlow : ¬ IsLow v) (us rest : List UInt16) :
    points (us ++ v :: rest) = points us ++ points (v :: rest) := by
  induction us using points.induct with
  | case1 => rfl
  | case2 u =>
    simp only [singleton_append, points, if_neg fun h : IsHigh u ∧ IsLow v => hlow h.2]
  | case3 u w us hpair ih =>
    simp only [cons_append, points, if_pos hpair, ih]
  | case4 u w us hpair ih =>
    simp only [cons_append, points, if_neg hpair]
    rw [← cons_append, ih]

/-! ## UTF-8 -/

/-- The bytes of a scalar value. -/
def bytes (c : Nat) : List UInt8 :=
  if c < 0x80 then [c.toUInt8]
  else if c < 0x800 then [(0xC0 + c / 0x40).toUInt8, (0x80 + c % 0x40).toUInt8]
  else if c < 0x10000 then
    [(0xE0 + c / 0x1000).toUInt8, (0x80 + c / 0x40 % 0x40).toUInt8, (0x80 + c % 0x40).toUInt8]
  else
    [(0xF0 + c / 0x40000).toUInt8, (0x80 + c / 0x1000 % 0x40).toUInt8,
      (0x80 + c / 0x40 % 0x40).toUInt8, (0x80 + c % 0x40).toUInt8]

/-- Inside a sequence: its code point so far, how many bytes are owed, and the bounds of
the next one. -/
structure Partway where
  point : Nat
  owed : Nat
  lower : Nat
  upper : Nat

/-- A byte between sequences. -/
def lead (b : Nat) : Option Partway × List Nat :=
  if b < 0x80 then (none, [b])
  else if 0xC2 ≤ b ∧ b < 0xE0 then (some ⟨b - 0xC0, 1, 0x80, 0xBF⟩, [])
  else if 0xE0 ≤ b ∧ b < 0xF0 then
    (some ⟨b - 0xE0, 2, if b = 0xE0 then 0xA0 else 0x80, if b = 0xED then 0x9F else 0xBF⟩, [])
  else if 0xF0 ≤ b ∧ b < 0xF5 then
    (some ⟨b - 0xF0, 3, if b = 0xF0 then 0x90 else 0x80, if b = 0xF4 then 0x8F else 0xBF⟩, [])
  else (none, [replacement])

/-- One byte; a byte that does not continue a sequence ends it, and is read anew. -/
def feed : Option Partway → Nat → Option Partway × List Nat
  | none, b => lead b
  | some p, b =>
    if p.lower ≤ b ∧ b ≤ p.upper then
      let point := p.point * 0x40 + (b - 0x80)
      if p.owed = 1 then (none, [point]) else (some ⟨point, p.owed - 1, 0x80, 0xBF⟩, [])
    else ((lead b).1, replacement :: (lead b).2)

def decodeFrom : Option Partway → List UInt8 → List Nat
  | none, [] => []
  | some _, [] => [replacement]
  | p, b :: rest => (feed p b.toNat).2 ++ decodeFrom (feed p b.toNat).1 rest

/-- The code points of a sequence of bytes. -/
def decode (bs : List UInt8) : List Nat := decodeFrom none bs

theorem decodeFrom_cons {p q : Option Partway} {b : Nat} {out : List Nat} (hb : b < 0x100)
    (hfeed : feed p b = (q, out)) (rest : List UInt8) :
    decodeFrom p (b.toUInt8 :: rest) = out ++ decodeFrom q rest := by
  have hnat : b.toUInt8.toNat = b := by
    rw [Nat.toUInt8, UInt8.toNat_ofNat']
    omega
  cases p <;> rw [decodeFrom, hnat, hfeed]

theorem decodeFrom_owed_one {p : Partway} {b : Nat} (howed : p.owed = 1) (hb : b < 0x100)
    (hbounds : p.lower ≤ b ∧ b ≤ p.upper) (rest : List UInt8) :
    decodeFrom (some p) (b.toUInt8 :: rest) =
      (p.point * 0x40 + (b - 0x80)) :: decodeFrom none rest := by
  have hfeed : feed (some p) b = (none, [p.point * 0x40 + (b - 0x80)]) := by
    simp [feed, hbounds, howed]
  exact decodeFrom_cons hb hfeed rest

theorem decodeFrom_owed_more {p : Partway} {b : Nat} (howed : p.owed ≠ 1) (hb : b < 0x100)
    (hbounds : p.lower ≤ b ∧ b ≤ p.upper) (rest : List UInt8) :
    decodeFrom (some p) (b.toUInt8 :: rest) =
      decodeFrom (some ⟨p.point * 0x40 + (b - 0x80), p.owed - 1, 0x80, 0xBF⟩) rest := by
  have hfeed : feed (some p) b =
      (some ⟨p.point * 0x40 + (b - 0x80), p.owed - 1, 0x80, 0xBF⟩, []) := by
    simp [feed, hbounds, howed]
  exact decodeFrom_cons hb hfeed rest

theorem decodeFrom_bytes_append {c : Nat} (hc : IsScalar c) (rest : List UInt8) :
    decodeFrom none (bytes c ++ rest) = c :: decodeFrom none rest := by
  unfold IsScalar at hc
  unfold bytes
  by_cases h1 : c < 0x80
  · have hlead : feed none c = (none, [c]) := by simp [feed, lead, h1]
    rw [if_pos h1]
    exact decodeFrom_cons (by omega) hlead rest
  rw [if_neg h1]
  by_cases h2 : c < 0x800
  · have hlead : feed none (0xC0 + c / 0x40) = (some ⟨c / 0x40, 1, 0x80, 0xBF⟩, []) := by
      rw [feed, lead, if_neg (by omega), if_pos (by omega), Nat.add_sub_cancel_left]
    rw [if_pos h2, cons_append, decodeFrom_cons (by omega) hlead, nil_append,
      singleton_append, decodeFrom_owed_one rfl (by omega) (by dsimp only; omega)]
    exact cons_eq_cons.mpr ⟨by dsimp only; omega, rfl⟩
  rw [if_neg h2]
  by_cases h3 : c < 0x10000
  · have hlead : feed none (0xE0 + c / 0x1000) = (some ⟨c / 0x1000, 2,
        if 0xE0 + c / 0x1000 = 0xE0 then 0xA0 else 0x80,
        if 0xE0 + c / 0x1000 = 0xED then 0x9F else 0xBF⟩, []) := by
      rw [feed, lead, if_neg (by omega), if_neg (by omega), if_pos (by omega),
        Nat.add_sub_cancel_left]
    rw [if_pos h3, cons_append, decodeFrom_cons (by omega) hlead, nil_append,
      cons_append, decodeFrom_owed_more (by simp) (by omega) (by dsimp only; split <;> split <;> omega),
      singleton_append, decodeFrom_owed_one rfl (by omega) (by dsimp only; omega)]
    exact cons_eq_cons.mpr ⟨by dsimp only; omega, rfl⟩
  · have hlead : feed none (0xF0 + c / 0x40000) = (some ⟨c / 0x40000, 3,
        if 0xF0 + c / 0x40000 = 0xF0 then 0x90 else 0x80,
        if 0xF0 + c / 0x40000 = 0xF4 then 0x8F else 0xBF⟩, []) := by
      rw [feed, lead, if_neg (by omega), if_neg (by omega), if_neg (by omega), if_pos (by omega),
        Nat.add_sub_cancel_left]
    rw [if_neg h3, cons_append, decodeFrom_cons (by omega) hlead, nil_append,
      cons_append, decodeFrom_owed_more (by simp) (by omega) (by dsimp only; split <;> split <;> omega),
      cons_append, decodeFrom_owed_more (by simp) (by omega) (by dsimp only; omega),
      singleton_append, decodeFrom_owed_one rfl (by omega) (by dsimp only; omega)]
    exact cons_eq_cons.mpr ⟨by dsimp only; omega, rfl⟩

/-- Decoding undoes encoding. -/
theorem decode_flatMap_bytes (hcs : ∀ c ∈ cs, IsScalar c) : decode (cs.flatMap bytes) = cs := by
  induction cs with
  | nil => rfl
  | cons c cs ih =>
    unfold decode at ih ⊢
    rw [flatMap_cons, decodeFrom_bytes_append (hcs c mem_cons_self),
      ih fun c hmem => hcs c (mem_cons_of_mem _ hmem)]

theorem isScalar_single (u : UInt16) : IsScalar (single u) := by
  have hlt := u.toNat_lt
  unfold single IsScalar
  split
  · unfold replacement
    omega
  rename_i hnot
  unfold IsHigh IsLow at hnot
  omega

theorem isScalar_of_mem_points : ∀ {us : List UInt16} {c : Nat}, c ∈ points us → IsScalar c
  | [], _, h => by cases h
  | [u], _, h => mem_singleton.mp h ▸ isScalar_single u
  | u :: v :: rest, c, h => by
    rw [points] at h
    split at h
    · rename_i hpair
      rcases mem_cons.mp h with heq | h
      · unfold IsHigh IsLow at hpair
        unfold IsScalar
        omega
      · exact isScalar_of_mem_points h
    · rcases mem_cons.mp h with rfl | h
      · exact isScalar_single u
      · exact isScalar_of_mem_points h

/-! ## Well-formed UTF-16 -/

/-- No surrogate is alone. -/
def WellFormed : List UInt16 → Prop
  | [] => True
  | [u] => ¬ (IsHigh u ∨ IsLow u)
  | u :: v :: rest =>
    if IsHigh u ∧ IsLow v then WellFormed rest
    else ¬ (IsHigh u ∨ IsLow u) ∧ WellFormed (v :: rest)

/-- `toWellFormed`: what an encoding and a decoding leave of a text. -/
def repaired (us : List UInt16) : List UInt16 := (points us).flatMap units

theorem units_single (u : UInt16) :
    units (single u) = [if IsHigh u ∨ IsLow u then 0xFFFD else u] := by
  have hlt := u.toNat_lt
  unfold single
  split
  · rfl
  · rw [units, if_pos (by omega)]
    exact congrArg (fun v => [v]) UInt16.ofNat_toNat

theorem units_pair {u v : UInt16} (hu : IsHigh u) (hv : IsLow v) :
    units (0x10000 + (u.toNat - 0xD800) * 0x400 + (v.toNat - 0xDC00)) = [u, v] := by
  obtain ⟨hu, hu'⟩ := hu
  obtain ⟨hv, hv'⟩ := hv
  have hhigh : 0xD800 + (0x10000 + (u.toNat - 0xD800) * 0x400 + (v.toNat - 0xDC00) - 0x10000) /
      0x400 = u.toNat := by omega
  have hlow : 0xDC00 + (0x10000 + (u.toNat - 0xD800) * 0x400 + (v.toNat - 0xDC00) - 0x10000) %
      0x400 = v.toNat := by omega
  rw [units, if_neg (by omega), hhigh, hlow]
  exact congrArg₂ (fun a b => [a, b]) UInt16.ofNat_toNat UInt16.ofNat_toNat

/-- Each unit stays, or a lone surrogate becomes the replacement character. -/
theorem repaired_forall₂ : ∀ us : List UInt16,
    List.Forall₂ (fun u v => v = u ∨ (IsHigh u ∨ IsLow u) ∧ v = 0xFFFD) us (repaired us)
  | [] => .nil
  | [u] => by
    rw [repaired, points, flatMap_singleton, units_single]
    refine .cons ?_ .nil
    split
    · rename_i h
      exact .inr ⟨h, rfl⟩
    · exact .inl rfl
  | u :: v :: rest => by
    rw [repaired, points]
    split
    · rename_i hpair
      rw [flatMap_cons, units_pair hpair.1 hpair.2]
      exact .cons (.inl rfl) (.cons (.inl rfl) (repaired_forall₂ rest))
    rw [flatMap_cons, units_single]
    refine .cons ?_ (repaired_forall₂ (v :: rest))
    split
    · rename_i h
      exact .inr ⟨h, rfl⟩
    · exact .inl rfl

theorem repaired_eq_iff : ∀ {us : List UInt16}, repaired us = us ↔ WellFormed us
  | [] => by simp [repaired, points, WellFormed]
  | [u] => by
    rw [repaired, points, flatMap_singleton, units_single, WellFormed]
    split
    · rename_i h
      refine ⟨fun heq => ?_, fun hnot => absurd h hnot⟩
      rw [← (cons_eq_cons.mp heq).1] at h
      exact absurd h (by decide)
    · rename_i h
      exact ⟨fun _ => h, fun _ => rfl⟩
  | u :: v :: rest => by
    rw [repaired, points, WellFormed]
    split
    · rename_i hpair
      rw [flatMap_cons, units_pair hpair.1 hpair.2, ← @repaired_eq_iff rest]
      simp [repaired]
    rw [flatMap_cons, units_single, ← @repaired_eq_iff (v :: rest)]
    split
    · rename_i h
      refine ⟨fun heq => ?_, fun hnot => absurd h hnot.1⟩
      rw [← (cons_eq_cons.mp heq).1] at h
      exact absurd h (by decide)
    · rename_i h
      exact ⟨fun heq => ⟨h, (cons_eq_cons.mp heq).2⟩,
        fun hboth => cons_eq_cons.mpr ⟨rfl, hboth.2⟩⟩

/-- A text that is encoded and decoded again is repaired. -/
theorem decode_encode (us : List UInt16) :
    (decode ((points us).flatMap bytes)).flatMap units = repaired us := by
  rw [decode_flatMap_bytes fun c hc => isScalar_of_mem_points hc]
  rfl

/-- A text that is well formed keeps its code points whatever follows. -/
theorem WellFormed.points_append : ∀ {us : List UInt16}, WellFormed us → ∀ vs : List UInt16,
    points (us ++ vs) = points us ++ points vs
  | [], _, _ => rfl
  | [u], h, vs => points_single_append (fun hhigh => h (.inl hhigh)) vs
  | u :: v :: rest, h, vs => by
    rw [WellFormed] at h
    rw [cons_append, cons_append, points, points]
    split
    · rename_i hpair
      rw [if_pos hpair] at h
      rw [h.points_append, cons_append]
    · rename_i hpair
      rw [if_neg hpair] at h
      rw [← cons_append, h.2.points_append, cons_append]

theorem WellFormed.repaired_append {us : List UInt16} (h : WellFormed us) (vs : List UInt16) :
    repaired (us ++ vs) = us ++ repaired vs := by
  rw [repaired, h.points_append, flatMap_append, ← repaired, ← repaired, repaired_eq_iff.mpr h]

theorem WellFormed.append_iff {us vs : List UInt16} (h : WellFormed us) :
    WellFormed (us ++ vs) ↔ WellFormed vs := by
  rw [← repaired_eq_iff, h.repaired_append, append_cancel_left_eq, repaired_eq_iff]

theorem WellFormed.head_not_low : ∀ {us : List UInt16}, WellFormed us → ∀ u ∈ us.head?, ¬ IsLow u
  | [u], h, w, hw => by
    cases Option.some.inj hw
    exact fun hlow => h (.inr hlow)
  | u :: v :: rest, h, w, hw => by
    cases Option.some.inj hw
    rw [WellFormed] at h
    intro hlow
    split at h
    · rename_i hpair
      unfold IsHigh IsLow at *
      omega
    · exact h.1 (.inr hlow)

theorem length_repaired (us : List UInt16) : (repaired us).length = us.length :=
  (repaired_forall₂ us).length_eq.symm

/-- Between two units that are no pair, each side is well formed by itself. -/
theorem WellFormed.of_append {us vs : List UInt16} (hhead : ∀ v ∈ vs.head?, ¬ IsLow v)
    (h : WellFormed (us ++ vs)) : WellFormed us ∧ WellFormed vs := by
  cases vs with
  | nil => exact ⟨by rwa [append_nil] at h, trivial⟩
  | cons v vs =>
    have heq := repaired_eq_iff.mpr h
    rw [repaired, Unicode.points_append (hhead v rfl), flatMap_append, ← repaired, ← repaired] at heq
    obtain ⟨hleft, hright⟩ := append_inj heq (length_repaired us)
    exact ⟨repaired_eq_iff.mp hleft, repaired_eq_iff.mp hright⟩

/-- What a decoder makes of bytes that are the encoding of scalar values; it rejects all others. -/
def decodeStrict (bs : List UInt8) : Option (List Nat) :=
  if (decode bs).flatMap bytes = bs ∧ ∀ c ∈ decode bs, IsScalar c then some (decode bs) else none

theorem decodeStrict_eq_some {bs : List UInt8} :
    decodeStrict bs = some cs ↔ bs = cs.flatMap bytes ∧ ∀ c ∈ cs, IsScalar c := by
  unfold decodeStrict
  constructor
  · intro h
    split at h
    · rename_i hvalid
      cases Option.some.inj h
      exact ⟨hvalid.1.symm, hvalid.2⟩
    · cases h
  · rintro ⟨rfl, hcs⟩
    rw [decode_flatMap_bytes hcs, if_pos ⟨rfl, hcs⟩]

theorem wellFormed_flatMap_units (hcs : ∀ c ∈ cs, IsScalar c) : WellFormed (cs.flatMap units) := by
  rw [← repaired_eq_iff, repaired, points_flatMap_units hcs]

/-! ## ASCII -/

section Ascii

variable {us : List UInt16} (hus : ∀ u ∈ us, u.toNat < 0x80)
include hus

theorem points_ascii_append (vs : List UInt16) :
    points (us ++ vs) = us.map UInt16.toNat ++ points vs := by
  induction us with
  | nil => rfl
  | cons u us ih =>
    have hu := hus u mem_cons_self
    have hhigh : ¬ IsHigh u := fun h => by
      unfold IsHigh at h
      omega
    have hlow : ¬ IsLow u := fun h => by
      unfold IsLow at h
      omega
    rw [cons_append, points_single_append hhigh, single,
      if_neg fun h => h.elim hhigh hlow, ih fun v hv => hus v (mem_cons_of_mem _ hv)]
    rfl

theorem repaired_ascii_append (vs : List UInt16) : repaired (us ++ vs) = us ++ repaired vs := by
  have hunits : (us.map UInt16.toNat).flatMap units = us := by
    rw [flatMap_map]
    conv => rhs; rw [← flatMap_singleton' us]
    refine flatMap_congr fun u hu => ?_
    have hlt := hus u hu
    rw [units, if_pos (by omega)]
    exact congrArg (fun v => [v]) UInt16.ofNat_toNat
  rw [repaired, points_ascii_append hus, flatMap_append, hunits, repaired]

theorem length_bytes_ascii_append (vs : List UInt16) :
    ((points (us ++ vs)).flatMap bytes).length =
      us.length + ((points vs).flatMap bytes).length := by
  have hbytes : ((us.map UInt16.toNat).flatMap bytes).length = us.length := by
    rw [flatMap_map, length_flatMap]
    have hone : ∀ u ∈ us, (bytes u.toNat).length = 1 := fun u hu => by
      rw [bytes, if_pos (hus u hu)]
      rfl
    rw [map_congr_left hone, map_const', sum_replicate_nat, Nat.mul_one]
  rw [points_ascii_append hus, flatMap_append, length_append, hbytes]

end Ascii

theorem decode_ascii {bs : List UInt8} (hbs : ∀ b ∈ bs, b.toNat < 0x80) :
    decode bs = bs.map UInt8.toNat := by
  induction bs with
  | nil => rfl
  | cons b bs ih =>
    have hlead : feed none b.toNat = (none, [b.toNat]) := by
      simp [feed, lead, hbs b mem_cons_self]
    have htail := ih fun c hc => hbs c (mem_cons_of_mem _ hc)
    unfold decode at htail ⊢
    rw [decodeFrom, hlead, htail]
    rfl

theorem decode_flatMap_bytes_append (hcs : ∀ c ∈ cs, IsScalar c)
    (rest : List UInt8) : decode (cs.flatMap bytes ++ rest) = cs ++ decode rest := by
  induction cs with
  | nil => rfl
  | cons c cs ih =>
    have htail := ih fun c hmem => hcs c (mem_cons_of_mem _ hmem)
    unfold decode at htail ⊢
    rw [flatMap_cons, append_assoc, decodeFrom_bytes_append (hcs c mem_cons_self),
      htail, cons_append]

end Unicode

/-!
# UTF-8 at a cut

A window over a stream of valid UTF-8 may begin or end within a sequence. The bytes it is
left with are then a part of one sequence beside whole ones.
-/

namespace Unicode

open List

/-- `10xxxxxx` -/
def IsContinuation (b : UInt8) : Prop := 0x80 ≤ b.toNat ∧ b.toNat < 0xC0

instance (b : UInt8) : Decidable (IsContinuation b) := inferInstanceAs (Decidable (_ ∧ _))

/-- The length of the sequence a lead byte declares. -/
def declared (lead : UInt8) : Nat :=
  if lead.toNat < 0x80 then 1
  else if lead.toNat < 0xE0 then 2
  else if lead.toNat < 0xF0 then 3
  else if lead.toNat < 0xF8 then 4
  else 0

/-- A lead byte and fewer continuation bytes than it declares. -/
def IsPartial (bs : List UInt8) : Prop :=
  ∃ lead conts, bs = lead :: conts ∧ ¬ IsContinuation lead ∧ (∀ b ∈ conts, IsContinuation b) ∧
    bs.length < declared lead

theorem declared_le (lead : UInt8) : declared lead ≤ 4 := by
  unfold declared
  split_ifs <;> omega

theorem toNat_toUInt8 {n : Nat} (h : n < 0x100) : n.toUInt8.toNat = n := by
  rw [Nat.toUInt8, UInt8.toNat_ofNat']
  omega

theorem isContinuation_tail (n : Nat) : IsContinuation (0x80 + n % 0x40).toUInt8 := by
  unfold IsContinuation
  rw [toNat_toUInt8 (by omega)]
  omega

theorem bytes_eq_cons {c : Nat} (hc : IsScalar c) :
    ∃ lead conts, bytes c = lead :: conts ∧ ¬ IsContinuation lead ∧
      (∀ b ∈ conts, IsContinuation b) ∧ declared lead = (bytes c).length := by
  unfold IsScalar at hc
  unfold bytes
  by_cases h1 : c < 0x80
  · refine ⟨_, _, if_pos h1, ?_, by simp, ?_⟩
    · unfold IsContinuation
      rw [toNat_toUInt8 (by omega)]
      omega
    · rw [if_pos h1, declared, toNat_toUInt8 (by omega), if_pos h1]
      rfl
  rw [if_neg h1]
  by_cases h2 : c < 0x800
  · refine ⟨_, _, if_pos h2, ?_, by simp only [forall_mem_cons, isContinuation_tail,
      not_mem_nil, false_implies, implies_true, and_self], ?_⟩
    · unfold IsContinuation
      rw [toNat_toUInt8 (by omega)]
      omega
    · rw [if_pos h2, declared, toNat_toUInt8 (by omega), if_neg (by omega), if_pos (by omega)]
      rfl
  rw [if_neg h2]
  by_cases h3 : c < 0x10000
  · refine ⟨_, _, if_pos h3, ?_, by simp only [forall_mem_cons, isContinuation_tail,
      not_mem_nil, false_implies, implies_true, and_self], ?_⟩
    · unfold IsContinuation
      rw [toNat_toUInt8 (by omega)]
      omega
    · rw [if_pos h3, declared, toNat_toUInt8 (by omega), if_neg (by omega), if_neg (by omega),
        if_pos (by omega)]
      rfl
  · refine ⟨_, _, if_neg h3, ?_, by simp only [forall_mem_cons, isContinuation_tail,
      not_mem_nil, false_implies, implies_true, and_self], ?_⟩
    · unfold IsContinuation
      rw [toNat_toUInt8 (by omega)]
      omega
    · rw [if_neg h3, declared, toNat_toUInt8 (by omega), if_neg (by omega), if_neg (by omega),
        if_neg (by omega), if_pos (by omega)]
      rfl

theorem bytes_ne_nil {c : Nat} (hc : IsScalar c) : bytes c ≠ [] := by
  obtain ⟨lead, conts, hbytes, -⟩ := bytes_eq_cons hc
  rw [hbytes]
  exact cons_ne_nil _ _

/-- A part of a sequence, less its end. -/
theorem isPartial_take {c : Nat} (hc : IsScalar c) {k : Nat} (hpos : 0 < k)
    (hlt : k < (bytes c).length) : IsPartial ((bytes c).take k) := by
  obtain ⟨lead, conts, hbytes, hlead, hconts, hdeclared⟩ := bytes_eq_cons hc
  obtain ⟨k, rfl⟩ : ∃ j, k = j + 1 := ⟨k - 1, by omega⟩
  rw [hbytes, take_succ_cons]
  refine ⟨lead, conts.take k, rfl, hlead, fun b hb => hconts b (mem_of_mem_take hb), ?_⟩
  rw [hdeclared, hbytes, length_cons, length_take, length_cons]
  rw [hbytes, length_cons] at hlt
  omega

variable {cs : List Nat}

section

variable (hcs : ∀ c ∈ cs, IsScalar c)
include hcs

/-- The bytes before a cut are whole sequences and at most a part of the next. -/
theorem take_encoded (n : Nat) :
    ∃ front back part, cs = front ++ back ∧ (cs.flatMap bytes).take n = front.flatMap bytes ++ part
      ∧ (part = [] ∨ IsPartial part) ∧ (back = [] ∨ n < ((front ++ back.take 1).flatMap bytes).length)
      := by
  induction cs generalizing n with
  | nil => exact ⟨[], [], [], rfl, by simp, .inl rfl, .inl rfl⟩
  | cons c cs ih =>
    have hc := hcs c mem_cons_self
    rcases Nat.lt_or_ge n (bytes c).length with hlt | hge
    · refine ⟨[], c :: cs, (bytes c).take n, rfl, ?_, ?_, .inr ?_⟩
      · rw [flatMap_cons, take_append_of_le_length (Nat.le_of_lt hlt)]
        rfl
      · rcases Nat.eq_zero_or_pos n with rfl | hpos
        · exact .inl rfl
        · exact .inr (isPartial_take hc hpos hlt)
      · simpa using hlt
    · obtain ⟨front, back, part, hsplit, htake, hpart, hback⟩ :=
        ih (fun c hmem => hcs c (mem_cons_of_mem _ hmem)) (n - (bytes c).length)
      refine ⟨c :: front, back, part, by rw [hsplit, cons_append], ?_, hpart, ?_⟩
      · rw [flatMap_cons, take_append, take_of_length_le hge, htake,
          flatMap_cons, append_assoc]
      apply hback.imp_right
      intro hlt
      rw [cons_append, flatMap_cons, length_append]
      omega

/-- The bytes after a cut are the end of one sequence, and whole sequences. -/
theorem drop_encoded (n : Nat) :
    ∃ front back part, cs = front ++ back ∧ (cs.flatMap bytes).drop n = part ++ back.flatMap bytes
      ∧ (∀ b ∈ part, IsContinuation b) := by
  induction cs generalizing n with
  | nil => exact ⟨[], [], [], rfl, by simp, by simp⟩
  | cons c cs ih =>
    have hc := hcs c mem_cons_self
    rcases Nat.eq_zero_or_pos n with rfl | hpos
    · exact ⟨[], c :: cs, [], rfl, rfl, by simp⟩
    rcases Nat.lt_or_ge n (bytes c).length with hlt | hge
    · refine ⟨[c], cs, (bytes c).drop n, rfl, ?_, ?_⟩
      · rw [flatMap_cons, drop_append_of_le_length (Nat.le_of_lt hlt)]
      obtain ⟨lead, conts, hbytes, -, hconts, -⟩ := bytes_eq_cons hc
      obtain ⟨k, rfl⟩ : ∃ j, n = j + 1 := ⟨n - 1, by omega⟩
      rw [hbytes, drop_succ_cons]
      exact fun b hb => hconts b (mem_of_mem_drop hb)
    · obtain ⟨front, back, part, hsplit, hdrop, hpart⟩ :=
        ih (fun c hmem => hcs c (mem_cons_of_mem _ hmem)) (n - (bytes c).length)
      refine ⟨c :: front, back, part, by rw [hsplit, cons_append], ?_, hpart⟩
      rw [flatMap_cons, drop_append, drop_of_length_le hge, hdrop, nil_append]

/-- Whole sequences do not begin with a continuation byte. -/
theorem head_encoded : ∀ b ∈ (cs.flatMap bytes).head?, ¬ IsContinuation b := by
  cases cs with
  | nil => simp
  | cons c cs =>
    obtain ⟨lead, conts, hbytes, hlead, -⟩ := bytes_eq_cons (hcs c mem_cons_self)
    rw [flatMap_cons, hbytes]
    intro b hb
    rwa [← Option.some.inj hb]

/-- Whole sequences do not end in a part of one. -/
theorem not_isPartial_of_encoded
    {front part : List UInt8} (hsplit : cs.flatMap bytes = front ++ part) : ¬ IsPartial part := by
  rintro ⟨lead, conts, rfl, hlead, hconts, hshort⟩
  induction cs generalizing front with
  | nil => simp at hsplit
  | cons c cs ih =>
    have hc := hcs c mem_cons_self
    rw [flatMap_cons] at hsplit
    rcases append_eq_append_iff.mp hsplit with ⟨more, hfront, hrest⟩ | ⟨more, hbytes, hrest⟩
    · exact ih (fun c hmem => hcs c (mem_cons_of_mem _ hmem)) hrest
    -- the part begins within the first sequence, hence with its lead byte
    obtain ⟨first, others, hfirst, -, hothers, hdeclared⟩ := bytes_eq_cons hc
    cases more with
    | nil =>
      exact @ih (fun c hmem => hcs c (mem_cons_of_mem _ hmem)) [] hrest.symm
    | cons b more =>
      obtain ⟨rfl, hconts'⟩ := cons_eq_cons.mp hrest
      rw [hfirst] at hbytes
      cases front with
      | nil =>
        obtain ⟨rfl, rfl⟩ := cons_eq_cons.mp hbytes
        have hlength : conts.length = others.length + (cs.flatMap bytes).length := by
          rw [hconts']
          exact length_append
        rw [hdeclared, hfirst, length_cons, length_cons, hlength] at hshort
        omega
      | cons b' front =>
        have hmem : lead ∈ others := by
          rw [(cons_eq_cons.mp hbytes).2]
          simp
        exact hlead (hothers lead hmem)

end

end Unicode
