-- SUMMARY: Parsing what `JSON.stringify` writes gives the value back, so the spelling determines the value.
import Mathlib.Data.Nat.Digits.Lemmas
import Harness.Json.Parse

namespace Harness

open List Option

/-! ## Strings -/

theorem hexValue_hexDigit {d : Nat} (h : d < 16) : hexValue (hexDigit d) = some d := by
  have hall : ∀ d < 16, hexValue (hexDigit d) = some d := by decide
  exact hall d h

theorem hexUnit_unicodeEscape (u : UInt16) :
    hexUnit (hexDigit (u.toNat / 4096)) (hexDigit (u.toNat / 256 % 16))
      (hexDigit (u.toNat / 16 % 16)) (hexDigit (u.toNat % 16)) = some u := by
  have hu : u.toNat < 65536 := u.toNat_lt
  have hcode : u.toNat / 4096 * 4096 + u.toNat / 256 % 16 * 256 + u.toNat / 16 % 16 * 16 +
      u.toNat % 16 = u.toNat := by omega
  have h₁ := hexValue_hexDigit (d := u.toNat / 4096) (by omega)
  have h₂ := hexValue_hexDigit (d := u.toNat / 256 % 16) (by omega)
  have h₃ := hexValue_hexDigit (d := u.toNat / 16 % 16) (by omega)
  have h₄ := hexValue_hexDigit (d := u.toNat % 16) (by omega)
  simp only [hexUnit, h₁, h₂, h₃, h₄, hcode, UInt16.ofNat_toNat]

theorem readUnits_close (rest : Text) : readUnits (unit '"' :: rest) = some ([], rest) := by
  rw [readUnits.eq_def]
  simp only [if_true]

theorem readUnits_unicodeEscape (u : UInt16) (rest : Text) :
    readUnits (unicodeEscape u ++ rest) = consUnit u (readUnits rest) := by
  have hquote : unit '\\' ≠ unit '"' := by decide
  rw [unicodeEscape, readUnits.eq_def]
  simp only [cons_append, nil_append, hquote, if_false, if_true, hexUnit_unicodeEscape]

/-- A unit that stands for itself inside quotes. -/
theorem readUnits_plain {u : UInt16} (hquote : u ≠ unit '"') (hslash : u ≠ unit '\\')
    (hcontrol : ¬u.toNat < 0x20) (rest : Text) :
    readUnits (u :: rest) = consUnit u (readUnits rest) := by
  rw [readUnits.eq_def]
  simp only [hquote, hslash, hcontrol, if_false]

theorem readUnits_escape {u v : UInt16} (hunicode : v ≠ unit 'u') (h : escapedUnit v = some u)
    (rest : Text) : readUnits (unit '\\' :: v :: rest) = consUnit u (readUnits rest) := by
  have hquote : unit '\\' ≠ unit '"' := by decide
  rw [readUnits.eq_def]
  simp only [hquote, hunicode, if_false, if_true, h]

theorem readUnits_quoteUnit (u : UInt16) (rest : Text) :
    readUnits (quoteUnit u ++ rest) = consUnit u (readUnits rest) := by
  unfold quoteUnit
  split
  · next h =>
    subst h
    exact readUnits_escape (by decide) (by decide) rest
  split
  · next h =>
    subst h
    exact readUnits_escape (by decide) (by decide) rest
  split
  · next h =>
    subst h
    exact readUnits_escape (by decide) (by decide) rest
  split
  · next h =>
    subst h
    exact readUnits_escape (by decide) (by decide) rest
  split
  · next h =>
    subst h
    exact readUnits_escape (by decide) (by decide) rest
  split
  · next h =>
    subst h
    exact readUnits_escape (by decide) (by decide) rest
  split
  · next h =>
    subst h
    exact readUnits_escape (by decide) (by decide) rest
  split
  · exact readUnits_unicodeEscape u rest
  · next hquote hslash hcontrol => exact readUnits_plain hquote hslash hcontrol rest

theorem surrogate_plain {u : UInt16} (h : isLeadSurrogate u = true ∨ isTrailSurrogate u = true) :
    u ≠ unit '"' ∧ u ≠ unit '\\' ∧ ¬u.toNat < 0x20 := by
  have hlow : 0xD800 ≤ u.toNat := by
    simp only [isLeadSurrogate, isTrailSurrogate, decide_eq_true_eq] at h
    omega
  refine ⟨?_, ?_, by omega⟩
  · rintro rfl
    exact absurd hlow (by decide)
  · rintro rfl
    exact absurd hlow (by decide)

/-- The body of a quoted string reads back, up to its closing quote. -/
theorem readUnits_quoteUnits (us : List UInt16) (rest : Text) :
    readUnits (quoteUnits us ++ unit '"' :: rest) = some (us, rest) := by
  induction us using quoteUnits.induct with
  | case1 => exact readUnits_close rest
  | case2 u hlead =>
    rw [quoteUnits, if_pos hlead, readUnits_unicodeEscape, readUnits_close]
    rfl
  | case3 u hlead v rest' htrail ih =>
    obtain ⟨hu₁, hu₂, hu₃⟩ := surrogate_plain (.inl hlead)
    obtain ⟨hv₁, hv₂, hv₃⟩ := surrogate_plain (.inr htrail)
    rw [quoteUnits, if_pos hlead]
    simp only [htrail, if_true, cons_append]
    rw [readUnits_plain hu₁ hu₂ hu₃, readUnits_plain hv₁ hv₂ hv₃, ih]
    rfl
  | case4 u hlead v rest' htrail ih =>
    rw [quoteUnits, if_pos hlead]
    simp only [htrail, Bool.false_eq_true, if_false, append_assoc]
    rw [readUnits_unicodeEscape, ih]
    rfl
  | case5 u rest' hlead htrail ih =>
    rw [quoteUnits.eq_def]
    simp only [hlead, htrail, Bool.false_eq_true, if_false, if_true, append_assoc]
    rw [readUnits_unicodeEscape, ih]
    rfl
  | case6 u rest' hlead htrail ih =>
    rw [quoteUnits.eq_def]
    simp only [hlead, htrail, Bool.false_eq_true, if_false, append_assoc]
    rw [readUnits_quoteUnit, ih]
    rfl

/-! ## Digits -/

/-- What follows a numeral does not continue it. -/
def Delimited (rest : Text) : Prop :=
  ∀ u rest', rest = u :: rest' →
    digitValue u = none ∧ u ≠ unit '.' ∧ u ≠ unit 'e' ∧ u ≠ unit 'E'

theorem digitValue_digit {d : Nat} (h : d < 10) : digitValue (UInt16.ofNat (0x30 + d)) = some d := by
  have hall : ∀ d < 10, digitValue (UInt16.ofNat (0x30 + d)) = some d := by decide
  exact hall d h

variable {ds : List Nat} {rest : Text}

theorem takeDigits_append (hds : ∀ d ∈ ds, d < 10)
    (hrest : ∀ u rest', rest = u :: rest' → digitValue u = none) :
    takeDigits (digitUnits ds ++ rest) = (ds, rest) := by
  induction ds with
  | nil =>
    cases rest with
    | nil => rfl
    | cons u rest => simp only [digitUnits, map_nil, nil_append, takeDigits, hrest u rest rfl]
  | cons d ds ih =>
    have htail := ih fun x hx => hds x (mem_cons_of_mem _ hx)
    have hd := digitValue_digit (hds d mem_cons_self)
    simp only [digitUnits, map_cons, cons_append, takeDigits, hd] at htail ⊢
    rw [htail]

theorem decimals_lt {n d : Nat} (h : d ∈ decimals n) : d < 10 :=
  Nat.digits_lt_base (by decide) (mem_reverse.mp h)

theorem digitsNat_decimals (n : Nat) : digitsNat (decimals n) = n := by
  rw [digitsNat, decimals, reverse_reverse, Nat.ofDigits_digits]

theorem decimals_ne_nil {n : Nat} (h : n ≠ 0) : decimals n ≠ [] := by
  rw [decimals, Ne, reverse_eq_nil_iff]
  exact Nat.digits_ne_nil_iff_ne_zero.mpr h

theorem digitsNat_append (ds ds' : List Nat) :
    digitsNat (ds ++ ds') = digitsNat ds' + 10 ^ ds'.length * digitsNat ds := by
  rw [digitsNat, reverse_append, Nat.ofDigits_append, length_reverse]
  rfl

theorem digitsNat_zeros (k : Nat) : digitsNat (List.replicate k 0) = 0 := by
  rw [digitsNat, reverse_replicate, Nat.ofDigits_replicate_zero]

theorem digitsNat_append_zeros (ds : List Nat) (k : Nat) :
    digitsNat (ds ++ List.replicate k 0) = digitsNat ds * 10 ^ k := by
  rw [digitsNat_append, digitsNat_zeros, length_replicate, Nat.zero_add, Nat.mul_comm]

theorem digitsNat_zeros_append (k : Nat) (ds : List Nat) :
    digitsNat (List.replicate k 0 ++ ds) = digitsNat ds := by
  rw [digitsNat_append, digitsNat_zeros, Nat.mul_zero, Nat.add_zero]

/-! ## Significant digits -/

theorem replicate_dropWhile_zero (l : List Nat) :
    List.replicate (l.length - (l.dropWhile (· == 0)).length) 0 ++ l.dropWhile (· == 0) = l := by
  induction l with
  | nil => rfl
  | cons d l ih =>
    by_cases hd : d = 0
    · subst hd
      have hle : (l.dropWhile (· == 0)).length ≤ l.length := (dropWhile_suffix _).length_le
      have hdrop : (0 :: l).dropWhile (· == 0) = l.dropWhile (· == 0) := rfl
      rw [hdrop, length_cons, Nat.succ_sub hle, replicate_succ, cons_append, ih]
    · have hdrop : (d :: l).dropWhile (· == 0) = d :: l := by simp [dropWhile_cons, hd]
      rw [hdrop, Nat.sub_self]
      rfl

theorem significant_length_le (n : Nat) : (significant n).length ≤ (decimals n).length := by
  rw [significant, decimals, length_reverse, length_reverse]
  exact (dropWhile_suffix _).length_le

theorem significant_append_zeros (n : Nat) :
    significant n ++ List.replicate ((decimals n).length - (significant n).length) 0 = decimals n := by
  have h := congrArg List.reverse (replicate_dropWhile_zero (Nat.digits 10 n))
  rw [reverse_append, reverse_replicate] at h
  rw [significant, decimals, length_reverse, length_reverse]
  exact h

theorem digitsNat_significant (n : Nat) :
    digitsNat (significant n) * 10 ^ ((decimals n).length - (significant n).length) = n := by
  rw [← digitsNat_append_zeros, significant_append_zeros, digitsNat_decimals]

/-- Digits of a positive number: decimal, and not beginning with zero. -/
structure Leading (ds : List Nat) : Prop where
  lt : ∀ d ∈ ds, d < 10
  head : ∃ d ds', ds = d :: ds' ∧ d ≠ 0

theorem leading_decimals {n : Nat} (h : n ≠ 0) : Leading (decimals n) := by
  refine ⟨fun d hd => decimals_lt hd, ?_⟩
  cases hds : decimals n with
  | nil => exact absurd hds (decimals_ne_nil h)
  | cons d ds =>
    refine ⟨d, ds, rfl, ?_⟩
    have hdigits : Nat.digits 10 n = ds.reverse ++ [d] := by
      have hrev := congrArg List.reverse hds
      rwa [decimals, reverse_reverse, reverse_cons] at hrev
    have hne : Nat.digits 10 n ≠ [] := Nat.digits_ne_nil_iff_ne_zero.mpr h
    have hlast := Nat.getLast_digit_ne_zero 10 h
    simpa [hdigits] using hlast

theorem leading_significant {n : Nat} (h : n ≠ 0) : Leading (significant n) := by
  obtain ⟨hlt, d, ds', hds, hd⟩ := leading_decimals h
  have hsplit := significant_append_zeros n
  refine ⟨fun x hx => hlt x (hsplit ▸ mem_append_left _ hx), ?_⟩
  cases hsig : significant n with
  | nil =>
    have hzero := digitsNat_significant n
    rw [hsig] at hzero
    exact absurd (by simpa [digitsNat] using hzero.symm) h
  | cons s ss =>
    refine ⟨s, ss, rfl, ?_⟩
    rw [hsig, hds] at hsplit
    have hs : s = d := (cons.inj hsplit).1
    exact hs ▸ hd

/-! ## Numerals -/

theorem readWhole_append (h : Leading ds)
    (hrest : ∀ u rest', rest = u :: rest' → digitValue u = none) :
    readWhole (digitUnits ds ++ rest) = some (ds, rest) := by
  obtain ⟨d, ds', rfl, hd⟩ := h.head
  rw [readWhole, takeDigits_append h.lt hrest]
  simp [hd]

theorem readFraction_delimited (h : Delimited rest) : readFraction rest = some ([], rest) := by
  cases rest with
  | nil => rfl
  | cons u rest =>
    obtain ⟨-, hpoint, -, -⟩ := h u rest rfl
    simp only [readFraction, hpoint, if_false]

theorem readExponent_delimited (h : Delimited rest) : readExponent rest = some (0, rest) := by
  cases rest with
  | nil => rfl
  | cons u rest =>
    obtain ⟨-, -, he, hE⟩ := h u rest rfl
    simp [readExponent, he, hE]

theorem readFraction_point (hlt : ∀ d ∈ ds, d < 10) (hne : ds ≠ [])
    (hrest : ∀ u rest', rest = u :: rest' → digitValue u = none) :
    readFraction (unit '.' :: (digitUnits ds ++ rest)) = some (ds, rest) := by
  cases ds with
  | nil => exact absurd rfl hne
  | cons d ds => simp only [readFraction, if_true, takeDigits_append hlt hrest]

theorem takeDigits_natText (n : Nat) (h : Delimited rest) :
    ∃ d ds, takeDigits (natText n ++ rest) = (d :: ds, rest) ∧ digitsNat (d :: ds) = n := by
  have hrest : ∀ u rest', rest = u :: rest' → digitValue u = none := fun u rest' heq => (h u rest' heq).1
  unfold natText
  split
  · next hzero =>
    subst hzero
    have hzeroDigit : ∀ d ∈ [0], d < 10 := by simp
    have htake := takeDigits_append hzeroDigit hrest
    exact ⟨0, [], htake, rfl⟩
  · next hne =>
    obtain ⟨d, ds, hds, -⟩ := (leading_decimals hne).head
    rw [takeDigits_append (fun d hd => decimals_lt hd) hrest, hds]
    exact ⟨d, ds, rfl, by rw [← hds, digitsNat_decimals]⟩

theorem readExponent_exponentText (e : Int) (h : Delimited rest) :
    readExponent (unit 'e' :: (exponentText e ++ rest)) = some (e, rest) := by
  obtain ⟨d, ds, htake, hnat⟩ := takeDigits_natText e.natAbs h
  have hminus : unit '+' ≠ unit '-' := by decide
  by_cases hneg : e < 0
  · have hsign : readSign (exponentText e ++ rest) = (true, natText e.natAbs ++ rest) := by
      simp only [exponentText, hneg, if_true, cons_append, readSign]
    have he : -(digitsNat (d :: ds) : Int) = e := by omega
    simp only [readExponent, decide_true, Bool.true_or, if_true, hsign, htake, he]
  · have hsign : readSign (exponentText e ++ rest) = (false, natText e.natAbs ++ rest) := by
      simp only [exponentText, hneg, if_false, cons_append, readSign, hminus, if_true]
    have he : (digitsNat (d :: ds) : Int) = e := by omega
    simp only [readExponent, decide_true, Bool.true_or, if_true, hsign, htake, he,
      Bool.false_eq_true, if_false]

/-- The scaled digits that a placed decimal point reads back as. -/
inductive Placed (ds : List Nat) (n : Int) (m : Nat) (e : Int) : Prop where
  /-- No point and no exponent: zeros fill up to the units. -/
  | filled : (ds.length : Int) ≤ n → m = digitsNat ds * 10 ^ (n.toNat - ds.length) → e = 0 →
      Placed ds n m e
  | scaled : ¬((ds.length : Int) ≤ n ∧ n ≤ 21) → m = digitsNat ds → e = n - ds.length →
      Placed ds n m e

theorem delimited_point (rest : Text) : ∀ u rest', unit '.' :: rest = u :: rest' → digitValue u = none := by
  rintro u rest' heq
  cases heq
  decide

theorem delimited_exponent (rest : Text) :
    ∀ u rest', unit 'e' :: rest = u :: rest' → digitValue u = none := by
  rintro u rest' heq
  cases heq
  decide

theorem readMagnitude_of_parts (negative : Bool) {text text' text'' rest : Text}
    {whole fraction : List Nat} {e : Int} (hwhole : readWhole text = some (whole, text'))
    (hfraction : readFraction text' = some (fraction, text''))
    (hexponent : readExponent text'' = some (e, rest)) :
    readMagnitude negative text =
      if negative && digitsNat (whole ++ fraction) == 0 then none
      else some (.ofDecimal negative (digitsNat (whole ++ fraction)) (e - fraction.length), rest) := by
  simp only [readMagnitude, hwhole, hfraction, hexponent]

theorem readMagnitude_placePoint (negative : Bool) (h : Leading ds) (n : Int)
    (hrest : Delimited rest) :
    ∃ m e, Placed ds n m e ∧ readMagnitude negative (placePoint ds n ++ rest) =
      if negative && m == 0 then none else some (.ofDecimal negative m e, rest) := by
  have hdigit : ∀ u rest', rest = u :: rest' → digitValue u = none := fun u r heq => (hrest u r heq).1
  obtain ⟨d, ds', hds, hd⟩ := h.head
  unfold placePoint
  split
  · next hfill =>
    have hleading : Leading (ds ++ List.replicate (n.toNat - ds.length) 0) := by
      refine ⟨fun x hx => ?_, d, ds' ++ List.replicate (n.toNat - ds.length) 0, by simp [hds], hd⟩
      rcases mem_append.mp hx with hx | hx
      · exact h.lt x hx
      · rw [eq_of_mem_replicate hx]
        decide
    refine ⟨_, _, .filled hfill.1 (digitsNat_append_zeros ds _) rfl, ?_⟩
    rw [readMagnitude_of_parts negative (readWhole_append hleading hdigit) (readFraction_delimited hrest)
      (readExponent_delimited hrest)]
    simp
  split
  · next hnot hpoint =>
    have hlen : n.toNat < ds.length := by omega
    have hpos : 0 < n.toNat := by omega
    have hleading : Leading (ds.take n.toNat) := by
      refine ⟨fun x hx => h.lt x (mem_of_mem_take hx), d, ds'.take (n.toNat - 1), ?_, hd⟩
      rw [hds, ← Nat.succ_pred_eq_of_pos hpos]
      rfl
    have hdrop : ds.drop n.toNat ≠ [] := by
      rw [Ne, drop_eq_nil_iff]
      omega
    have hdroplt : ∀ x ∈ ds.drop n.toNat, x < 10 := fun x hx => h.lt x (mem_of_mem_drop hx)
    refine ⟨digitsNat ds, n - ds.length, .scaled hnot rfl rfl, ?_⟩
    rw [append_assoc, cons_append, readMagnitude_of_parts negative
      (readWhole_append hleading (delimited_point _)) (readFraction_point hdroplt hdrop hdigit)
      (readExponent_delimited hrest), take_append_drop]
    have he : (0 : Int) - (ds.drop n.toNat).length = n - ds.length := by
      rw [length_drop]
      omega
    rw [he]
  split
  · next hnot _ hsmall =>
    have hzero : readWhole (unit '0' :: unit '.' ::
        digitUnits (List.replicate (-n).toNat 0 ++ ds) ++ rest) =
        some ([0], unit '.' :: (digitUnits (List.replicate (-n).toNat 0 ++ ds) ++ rest)) := by
      have hzeroDigit : ∀ d ∈ [0], d < 10 := by simp
      have htake := takeDigits_append hzeroDigit (delimited_point
        (digitUnits (List.replicate (-n).toNat 0 ++ ds) ++ rest))
      have htext : unit '0' :: unit '.' :: digitUnits (List.replicate (-n).toNat 0 ++ ds) ++ rest =
          digitUnits [0] ++ unit '.' :: (digitUnits (List.replicate (-n).toNat 0 ++ ds) ++ rest) := rfl
      rw [htext, readWhole, htake]
      rfl
    have hlt : ∀ x ∈ List.replicate (-n).toNat 0 ++ ds, x < 10 := by
      intro x hx
      rcases mem_append.mp hx with hx | hx
      · rw [eq_of_mem_replicate hx]
        decide
      · exact h.lt x hx
    have hne : List.replicate (-n).toNat 0 ++ ds ≠ [] := by simp [hds]
    refine ⟨digitsNat ds, n - ds.length, .scaled hnot rfl rfl, ?_⟩
    rw [readMagnitude_of_parts negative hzero (readFraction_point hlt hne hdigit)
      (readExponent_delimited hrest)]
    have hm : digitsNat ([0] ++ (List.replicate (-n).toNat 0 ++ ds)) = digitsNat ds := by
      rw [← append_assoc]
      exact digitsNat_zeros_append ((-n).toNat + 1) ds
    have he : (0 : Int) - (List.replicate (-n).toNat 0 ++ ds).length = n - ds.length := by
      rw [length_append, length_replicate]
      omega
    rw [hm, he]
  · next hnot _ _ =>
    have hone : Leading [d] := ⟨fun x hx => h.lt x (by simp_all), d, [], rfl, hd⟩
    refine ⟨digitsNat ds, n - ds.length, .scaled hnot rfl rfl, ?_⟩
    subst hds
    cases ds' with
    | nil =>
      have hfraction : readFraction (unit 'e' :: (exponentText (n - 1) ++ rest)) =
          some ([], unit 'e' :: (exponentText (n - 1) ++ rest)) := by
        have hpoint : unit 'e' ≠ unit '.' := by decide
        simp only [readFraction, hpoint, if_false]
      simp only [append_assoc, cons_append]
      rw [readMagnitude_of_parts negative (readWhole_append hone (delimited_exponent _)) hfraction
        (readExponent_exponentText (n - 1) hrest)]
      simp
    | cons d' ds' =>
      have hlt : ∀ x ∈ d' :: ds', x < 10 := fun x hx => h.lt x (mem_cons_of_mem _ hx)
      simp only [append_assoc, cons_append]
      rw [readMagnitude_of_parts negative (readWhole_append hone (delimited_point _))
        (readFraction_point hlt (cons_ne_nil _ _) (delimited_exponent _))
        (readExponent_exponentText (n - 1) hrest)]
      have he : n - 1 - ((d' :: ds').length : Int) = n - ((d :: d' :: ds').length : Int) := by
        simp only [length_cons]
        omega
      rw [he]
      rfl

/-! ## Numbers -/

theorem signed_isNegative {z : Int} : signed (decide (z < 0)) z.natAbs = z := by
  unfold signed
  by_cases h : z < 0
  · simp only [h, decide_true, if_true]
    omega
  · simp only [h, decide_false, Bool.false_eq_true, if_false]
    omega

theorem readMagnitude_int {z : Int} (hz : z ≠ 0) (hrest : Delimited rest) :
    readMagnitude (decide (z < 0)) ((Num.int z).magnitudeText ++ rest) = some (.int z, rest) := by
  have hnat : z.natAbs ≠ 0 := Int.natAbs_ne_zero.mpr hz
  have hle := significant_length_le z.natAbs
  have hvalue := digitsNat_significant z.natAbs
  obtain ⟨m, e, hplaced, hread⟩ := readMagnitude_placePoint (decide (z < 0))
    (leading_significant hnat) (decimals z.natAbs).length hrest
  have hscaled : m * 10 ^ e.toNat = z.natAbs ∧ 0 ≤ e := by
    cases hplaced with
    | filled _ hm he =>
      subst hm he
      refine ⟨?_, le_refl _⟩
      rw [Int.toNat_zero, Nat.pow_zero, Nat.mul_one, Int.toNat_natCast]
      exact hvalue
    | scaled _ hm he =>
      subst hm he
      have htoNat : ((decimals z.natAbs).length - (significant z.natAbs).length : Int).toNat =
          (decimals z.natAbs).length - (significant z.natAbs).length := by omega
      exact ⟨by rw [htoNat]; exact hvalue, by omega⟩
  obtain ⟨hm, he⟩ := hscaled
  have hm0 : m ≠ 0 := by
    rintro rfl
    rw [Nat.zero_mul] at hm
    exact hnat hm.symm
  rw [Num.magnitudeText, hread]
  simp [hm0, Num.ofDecimal, he, hm, signed_isNegative]

theorem readMagnitude_frac {m : Int} {s : Nat} (hm : m % 10 ≠ 0) (hrest : Delimited rest) :
    readMagnitude (decide (m < 0)) ((Num.frac m s hm).magnitudeText ++ rest) =
      some (.frac m s hm, rest) := by
  have hnat : m.natAbs ≠ 0 := by omega
  obtain ⟨m', e, hplaced, hread⟩ := readMagnitude_placePoint (decide (m < 0))
    (leading_decimals hnat) ((decimals m.natAbs).length - (s + 1)) hrest
  have hvalue : m' = m.natAbs ∧ e = -(s + 1 : Int) := by
    cases hplaced with
    | filled hle => omega
    | scaled _ hm' he => exact ⟨hm'.trans (digitsNat_decimals _), by omega⟩
  obtain ⟨rfl, rfl⟩ := hvalue
  have hne : ¬(0 : Int) ≤ -(s + 1 : Int) := by omega
  have htoNat : (- -(s + 1 : Int)).toNat = s + 1 := by omega
  have hreduced : m.natAbs % 10 ≠ 0 := by omega
  have hnonzero : (m.natAbs == 0) = false := beq_eq_false_iff_ne.mpr hnat
  simp only [Num.magnitudeText, hread, Num.ofDecimal, hne, if_false, htoNat, Num.ofScaled, hreduced,
    dite_false, signed_isNegative, hnonzero, Bool.and_false, Bool.false_eq_true]

theorem readMagnitude_head {negative : Bool} {text : Text} {read : Num × Text}
    (h : readMagnitude negative text = some read) :
    ∃ u rest d, text = u :: rest ∧ digitValue u = some d := by
  cases text with
  | nil => cases h
  | cons u rest =>
    cases hu : digitValue u with
    | none => simp only [readMagnitude, readWhole, takeDigits, hu, reduceCtorEq] at h
    | some d => exact ⟨u, rest, d, rfl, hu⟩

/-- A magnitude is read as it stands, and after a minus sign. -/
theorem readMagnitude_magnitudeText {n : Num} (hn : n ≠ .int 0) (hrest : Delimited rest) :
    readMagnitude n.isNegative (n.magnitudeText ++ rest) = some (n, rest) := by
  cases n with
  | int z => exact readMagnitude_int (fun hz => hn (congrArg Num.int hz)) hrest
  | frac m s hm => exact readMagnitude_frac hm hrest

theorem readNumber_toText (n : Num) (hrest : Delimited rest) :
    readNumber (n.toText ++ rest) = some (n, rest) := by
  by_cases hzero : n = .int 0
  · subst hzero
    have hzeroDigit : ∀ d ∈ [0], d < 10 := by simp
    have htake := takeDigits_append hzeroDigit fun u r heq => (hrest u r heq).1
    have hwhole : readWhole (digitUnits [0] ++ rest) = some ([0], rest) := by
      rw [readWhole, htake]
      rfl
    have hminus : unit '0' ≠ unit '-' := by decide
    have hread := readMagnitude_of_parts false hwhole (readFraction_delimited hrest)
      (readExponent_delimited hrest)
    simp only [Num.toText, if_true, cons_append, nil_append, readNumber, hminus, if_false]
    exact hread
  · have hread := readMagnitude_magnitudeText hzero hrest
    cases hneg : n.isNegative with
    | true =>
      rw [hneg] at hread
      simp only [Num.toText, hzero, if_false, hneg, if_true, cons_append, readNumber]
      exact hread
    | false =>
      rw [hneg] at hread
      obtain ⟨u, r, d, htext, hdigit⟩ := readMagnitude_head hread
      have hminus : u ≠ unit '-' := by
        rintro rfl
        have hnone : digitValue (unit '-') = none := by decide
        rw [hnone] at hdigit
        cases hdigit
      simp only [Num.toText, hzero, if_false, hneg, Bool.false_eq_true, htext, readNumber, hminus]
      rw [← htext]
      exact hread

/-- A numeral begins with a digit or a minus sign. -/
theorem toText_head (n : Num) :
    ∃ u rest, n.toText = u :: rest ∧ (u = unit '-' ∨ ∃ d, digitValue u = some d) := by
  have hnil : Delimited [] := by rintro u rest' ⟨⟩
  by_cases hzero : n = .int 0
  · subst hzero
    exact ⟨unit '0', [], rfl, .inr ⟨0, by decide⟩⟩
  cases hneg : n.isNegative with
  | true =>
    simp only [Num.toText, hzero, if_false, hneg, if_true]
    exact ⟨_, _, rfl, .inl rfl⟩
  | false =>
    have hread := readMagnitude_magnitudeText hzero hnil
    obtain ⟨u, r, d, htext, hdigit⟩ := readMagnitude_head hread
    rw [append_nil] at htext
    simp only [Num.toText, hzero, if_false, hneg, Bool.false_eq_true, htext]
    exact ⟨u, r, rfl, .inr ⟨d, hdigit⟩⟩

/-! ## Values -/

namespace Json

mutual

/-- No object repeats a key, as no JavaScript object does. -/
def Proper : Json → Prop
  | .arr items => ProperItems items
  | .obj fields => (fields.map Prod.fst).Nodup ∧ ProperFields fields
  | _ => True

def ProperItems : List Json → Prop
  | [] => True
  | item :: items => Proper item ∧ ProperItems items

def ProperFields : List (JsString × Json) → Prop
  | [] => True
  | (_, value) :: fields => Proper value ∧ ProperFields fields

end

mutual

/-- The fuel that parsing the spelling of a value takes. -/
def size : Json → Nat
  | .arr [] | .obj [] => 1
  | .arr (item :: items) => 1 + (size item + sizeItems items)
  | .obj ((_, value) :: fields) => 1 + (size value + sizeFields fields)
  | _ => 1

def sizeItems : List Json → Nat
  | [] => 1
  | item :: items => 1 + (size item + sizeItems items)

def sizeFields : List (JsString × Json) → Nat
  | [] => 1
  | (_, value) :: fields => 1 + (size value + sizeFields fields)

end

theorem size_pos (j : Json) : 0 < j.size := by
  cases j with
  | arr items => cases items <;> simp [size]
  | obj fields => cases fields <;> simp [size]
  | _ => simp [size]

/-- How the spelling of a value begins. -/
theorem stringify_head (j : Json) :
    ∃ u rest, stringify j = u :: rest ∧ isSpace u = false ∧ u ≠ unit ']' := by
  cases j with
  | null => exact ⟨_, _, rfl, by decide, by decide⟩
  | bool b => cases b <;> exact ⟨_, _, rfl, by decide, by decide⟩
  | num n =>
    obtain ⟨u, rest, htext, hu⟩ := toText_head n
    refine ⟨u, rest, htext, ?_⟩
    rcases hu with rfl | ⟨d, hd⟩
    · decide
    unfold digitValue at hd
    split at hd
    · next hrange =>
      refine ⟨?_, ?_⟩
      · unfold isSpace
        simp only [Bool.or_eq_false_iff, decide_eq_false_iff_not]
        refine ⟨⟨⟨?_, ?_⟩, ?_⟩, ?_⟩ <;> rintro rfl <;> exact absurd hrange (by decide)
      · rintro rfl
        exact absurd hrange (by decide)
    · cases hd
  | str s => exact ⟨_, _, rfl, by decide, by decide⟩
  | arr items => cases items <;> exact ⟨_, _, rfl, by decide, by decide⟩
  | obj fields => cases fields <;> exact ⟨_, _, rfl, by decide, by decide⟩

variable {u : UInt16}

theorem skipSpace_of_head {text rest : Text} (htext : text = u :: rest)
    (hu : isSpace u = false) : skipSpace text = text := by
  subst htext
  simp [skipSpace, hu]

theorem delimited_cons {c : Char} {rest : Text}
    (h : digitValue (unit c) = none ∧ unit c ≠ unit '.' ∧ unit c ≠ unit 'e' ∧ unit c ≠ unit 'E') :
    Delimited (unit c :: rest) := by
  rintro u rest' heq
  cases heq
  exact h

theorem readKey_quote (key : JsString) (rest : Text) :
    readKey (quote key ++ unit ':' :: rest) = some (key, rest) := by
  have hquote : skipSpace (quote key ++ unit ':' :: rest) = quote key ++ unit ':' :: rest :=
    skipSpace_of_head rfl (by decide)
  have hcolon : skipSpace (unit ':' :: rest) = unit ':' :: rest := skipSpace_of_head rfl (by decide)
  have hbody := readUnits_quoteUnits key.units (unit ':' :: rest)
  have hopen : readUnit (unit '"') (quote key ++ unit ':' :: rest) =
      some (quoteUnits key.units ++ unit '"' :: (unit ':' :: rest)) := by
    simp only [quote, cons_append, append_assoc, nil_append, readUnit, if_true]
  have hread : readUnit (unit ':') (unit ':' :: rest) = some rest := by simp [readUnit]
  simp only [readKey, hquote, hopen, hbody, hcolon, hread, map_some]

theorem readWord_of_head {w u : UInt16} {word rest : Text} (h : w ≠ u) :
    readWord (w :: word) (u :: rest) = none := by
  have hne : (w == u) = false := beq_eq_false_iff_ne.mpr h
  simp [readWord, List.isPrefixOf, hne]

/-- A digit or a minus sign is no opening unit of any other value. -/
theorem numeral_head (hu : u = unit '-' ∨ ∃ d, digitValue u = some d) :
    isSpace u = false ∧ ∀ c ∈ ['"', '[', '\x7b', 'n', 't', 'f'], u ≠ unit c := by
  rcases hu with rfl | ⟨d, hd⟩
  · refine ⟨by decide, fun c hc => ?_⟩
    simp only [mem_cons, not_mem_nil, or_false] at hc
    rcases hc with rfl | rfl | rfl | rfl | rfl | rfl <;> decide
  unfold digitValue at hd
  split at hd
  · next hrange =>
    refine ⟨?_, fun c hc => ?_⟩
    · unfold isSpace
      simp only [Bool.or_eq_false_iff, decide_eq_false_iff_not]
      refine ⟨⟨⟨?_, ?_⟩, ?_⟩, ?_⟩ <;> rintro rfl <;> exact absurd hrange (by decide)
    rintro rfl
    have hall : ∀ c ∈ ['"', '[', '\x7b', 'n', 't', 'f'],
        ¬(0x30 ≤ (unit c).toNat ∧ (unit c).toNat ≤ 0x39) := by
      intro c hc
      simp only [mem_cons, not_mem_nil, or_false] at hc
      rcases hc with rfl | rfl | rfl | rfl | rfl | rfl <;> decide
    exact hall c hc hrange
  · cases hd

theorem parseValue_num (n : Num) (fuel : Nat) {rest : Text} (hrest : Delimited rest) :
    parseValue (fuel + 1) (n.toText ++ rest) = some (.num n, rest) := by
  obtain ⟨u, r, htext, hu⟩ := toText_head n
  have hread := readNumber_toText n hrest
  rw [htext, cons_append] at hread ⊢
  obtain ⟨hspace, hne⟩ := numeral_head hu
  have hquote := hne '"' (by simp)
  have hbracket := hne '[' (by simp)
  have hbrace := hne '\x7b' (by simp)
  have hn := (hne 'n' (by simp)).symm
  have ht := (hne 't' (by simp)).symm
  have hf := (hne 'f' (by simp)).symm
  simp only [parseValue, skipSpace_of_head rfl hspace, hquote, hbracket, hbrace, if_false, parseScalar,
    map_cons, readWord_of_head hn, readWord_of_head ht, readWord_of_head hf, hread, map_some]

theorem parseValue_str (s : JsString) (fuel : Nat) (rest : Text) :
    parseValue (fuel + 1) (quote s ++ rest) = some (.str s, rest) := by
  have hspace : skipSpace (quote s ++ rest) = quote s ++ rest := skipSpace_of_head rfl (by decide)
  have hbody := readUnits_quoteUnits s.units rest
  simp only [parseValue, hspace]
  simp only [quote, cons_append, append_assoc, nil_append, if_true, hbody,
    map_some]

theorem parseValue_literal {c : Char} {word : Text} {value : Json} (fuel : Nat) (rest : Text)
    (hspace : isSpace (unit c) = false)
    (hopen : unit c ≠ unit '"' ∧ unit c ≠ unit '[' ∧ unit c ≠ unit '\x7b')
    (hscalar : parseScalar (unit c :: (word ++ rest)) = some (value, rest)) :
    parseValue (fuel + 1) (unit c :: word ++ rest) = some (value, rest) := by
  obtain ⟨hquote, hbracket, hbrace⟩ := hopen
  simp only [cons_append, parseValue, skipSpace_of_head rfl hspace, hquote, hbracket, hbrace,
    if_false, hscalar]

theorem set_fresh {fields : List (JsString × Json)} {key : JsString} (value : Json)
    (h : key ∉ fields.map Prod.fst) : OrderedMap.set fields key value = fields ++ [(key, value)] :=
  if_neg h

/-! ## Spellings -/

def Blank (space : Text) : Prop := ∀ u ∈ space, isSpace u = true

mutual

/-- A text has the tokens of a value, with white space where a layout may put it. -/
def Spells : Json → Text → Prop
  | .arr [], text => text = [unit '[', unit ']']
  | .arr (item :: items), text =>
    ∃ space body rest, Blank space ∧ Spells item body ∧ SpellsItems items rest ∧
      text = unit '[' :: (space ++ (body ++ rest))
  | .obj [], text => text = [unit '\x7b', unit '\x7d']
  | .obj ((key, value) :: fields), text =>
    ∃ space gap body rest, Blank space ∧ Blank gap ∧ Spells value body ∧ SpellsFields fields rest ∧
      text = unit '\x7b' :: (space ++ (quote key ++ unit ':' :: (gap ++ (body ++ rest))))
  | j, text => text = stringify j

/-- The items after the first, and the closing bracket. -/
def SpellsItems : List Json → Text → Prop
  | [], text => ∃ space, Blank space ∧ text = space ++ [unit ']']
  | item :: items, text =>
    ∃ space body rest, Blank space ∧ Spells item body ∧ SpellsItems items rest ∧
      text = unit ',' :: (space ++ (body ++ rest))

/-- The fields after the first, and the closing brace. -/
def SpellsFields : List (JsString × Json) → Text → Prop
  | [], text => ∃ space, Blank space ∧ text = space ++ [unit '\x7d']
  | (key, value) :: fields, text =>
    ∃ space gap body rest, Blank space ∧ Blank gap ∧ Spells value body ∧ SpellsFields fields rest ∧
      text = unit ',' :: (space ++ (quote key ++ unit ':' :: (gap ++ (body ++ rest))))

end

theorem blank_nil : Blank [] := nofun

theorem blank_singleton (h : isSpace u = true) : Blank [u] :=
  forall_mem_singleton.mpr h

variable {space : Text}

theorem skipSpace_blank (h : Blank space) (text : Text) :
    skipSpace (space ++ text) = skipSpace text :=
  dropWhile_append_of_pos h

theorem parseValue_blank (h : Blank space) (fuel : Nat) (text : Text) :
    parseValue fuel (space ++ text) = parseValue fuel text := by
  cases fuel with
  | zero => simp only [parseValue]
  | succ fuel => simp only [parseValue, skipSpace_blank h]

theorem readKey_blank (h : Blank space) (text : Text) : readKey (space ++ text) = readKey text := by
  simp only [readKey, skipSpace_blank h]

theorem delimited_space (hu : isSpace u = true) (rest : Text) : Delimited (u :: rest) := by
  rintro u rest' heq
  cases heq
  simp only [isSpace, Bool.or_eq_true, decide_eq_true_eq] at hu
  rcases hu with ((rfl | rfl) | rfl) | rfl <;> decide

theorem delimited_blank {space text : Text} (h : Blank space) (htext : Delimited text) :
    Delimited (space ++ text) := by
  cases space with
  | nil => exact htext
  | cons u space => exact delimited_space (h u mem_cons_self) _

variable {text : Text}

theorem SpellsItems.delimited {items : List Json} (h : SpellsItems items text)
    (rest : Text) : Delimited (text ++ rest) := by
  cases items with
  | nil =>
    obtain ⟨space, hspace, rfl⟩ := h
    rw [append_assoc]
    exact delimited_blank hspace (delimited_cons (by decide))
  | cons item items =>
    obtain ⟨_, _, _, _, _, _, rfl⟩ := h
    exact delimited_cons (by decide)

theorem SpellsFields.delimited {fields : List (JsString × Json)}
    (h : SpellsFields fields text) (rest : Text) : Delimited (text ++ rest) := by
  match fields with
  | [] =>
    obtain ⟨space, hspace, rfl⟩ := h
    rw [append_assoc]
    exact delimited_blank hspace (delimited_cons (by decide))
  | (_, _) :: _ =>
    obtain ⟨_, _, _, _, _, _, _, _, rfl⟩ := h
    exact delimited_cons (by decide)

variable {j : Json}

/-- The first unit of a spelling is no white space and closes no array. -/
theorem Spells.head (h : Spells j text) :
    ∃ u rest, text = u :: rest ∧ isSpace u = false ∧ u ≠ unit ']' := by
  match j with
  | .arr [] =>
    rw [Spells] at h
    exact ⟨_, _, h, by decide, by decide⟩
  | .arr (_ :: _) =>
    obtain ⟨_, _, _, _, _, _, rfl⟩ := h
    exact ⟨_, _, rfl, by decide, by decide⟩
  | .obj [] =>
    rw [Spells] at h
    exact ⟨_, _, h, by decide, by decide⟩
  | .obj ((_, _) :: _) =>
    obtain ⟨_, _, _, _, _, _, _, _, rfl⟩ := h
    exact ⟨_, _, rfl, by decide, by decide⟩
  | .null | .bool _ | .num _ | .str _ =>
    rw [Spells] at h
    · exact h ▸ stringify_head _
    all_goals exact nofun

theorem readUnit_spells {space body : Text} (hspace : Blank space) (h : Spells j body)
    (rest : Text) : readUnit (unit ']') (skipSpace (space ++ (body ++ rest))) = none := by
  obtain ⟨u, r, rfl, hu, hclose⟩ := h.head
  rw [skipSpace_blank hspace, cons_append, skipSpace_of_head rfl hu]
  simp only [readUnit, hclose, if_false]

mutual

theorem parseValue_spells (j : Json) (hj : j.Proper) {text : Text} (h : Spells j text) {fuel : Nat}
    (hfuel : j.size ≤ fuel) {rest : Text} (hrest : Delimited rest) :
    parseValue fuel (text ++ rest) = some (j, rest) := by
  match fuel with
  | 0 =>
    have hpos := size_pos j
    omega
  | fuel + 1 =>
    match j with
    | .null =>
      obtain rfl : text = stringify .null := h
      exact parseValue_literal fuel rest (by decide) (by decide) (by rfl)
    | .bool true =>
      obtain rfl : text = stringify (.bool true) := h
      exact parseValue_literal fuel rest (by decide) (by decide) (by rfl)
    | .bool false =>
      obtain rfl : text = stringify (.bool false) := h
      exact parseValue_literal fuel rest (by decide) (by decide) (by rfl)
    | .num n =>
      obtain rfl : text = stringify (.num n) := h
      exact parseValue_num n fuel hrest
    | .str s =>
      obtain rfl : text = stringify (.str s) := h
      exact parseValue_str s fuel rest
    | .arr [] =>
      obtain rfl : text = [unit '[', unit ']'] := h
      have hspace : skipSpace (unit '[' :: unit ']' :: rest) = unit '[' :: unit ']' :: rest :=
        skipSpace_of_head rfl (by decide)
      have hclose : skipSpace (unit ']' :: rest) = unit ']' :: rest := skipSpace_of_head rfl (by decide)
      have hne : unit '[' ≠ unit '"' := by decide
      simp only [cons_append, nil_append, parseValue, hspace, hne, if_false, if_true,
        hclose, readUnit]
    | .arr (item :: items) =>
      obtain ⟨hitem, hitems⟩ : item.Proper ∧ ProperItems items := hj
      obtain ⟨space, body, more, hblank, hbody, hmore, rfl⟩ := h
      have hsize : item.size + sizeItems items ≤ fuel := by
        rw [size] at hfuel
        omega
      have hspace : ∀ text, skipSpace (unit '[' :: text) = unit '[' :: text :=
        fun text => skipSpace_of_head rfl (by decide)
      have hne : unit '[' ≠ unit '"' := by decide
      have hread := parseValue_spells item hitem hbody (by omega : item.size ≤ fuel)
        (hmore.delimited rest)
      have hreads := parseItems_spells items hitems hmore (by omega : sizeItems items ≤ fuel) rest
      simp only [cons_append, append_assoc, parseValue, hspace, hne, if_false, if_true,
        readUnit_spells hblank hbody, parseValue_blank hblank, hread, hreads, map_some]
    | .obj [] =>
      obtain rfl : text = [unit '\x7b', unit '\x7d'] := h
      have hspace : skipSpace (unit '\x7b' :: unit '\x7d' :: rest) =
          unit '\x7b' :: unit '\x7d' :: rest := skipSpace_of_head rfl (by decide)
      have hclose : skipSpace (unit '\x7d' :: rest) = unit '\x7d' :: rest :=
        skipSpace_of_head rfl (by decide)
      have hquote : unit '\x7b' ≠ unit '"' := by decide
      have hbracket : unit '\x7b' ≠ unit '[' := by decide
      simp only [cons_append, nil_append, parseValue, hspace, hquote, hbracket,
        if_false, if_true, hclose, readUnit]
    | .obj ((key, value) :: fields) =>
      obtain ⟨hkeys, hvalue, hfields⟩ :
        (((key, value) :: fields).map Prod.fst).Nodup ∧ value.Proper ∧ ProperFields fields := hj
      obtain ⟨space, gap, body, more, hblank, hgap, hbody, hmore, rfl⟩ := h
      have hsize : value.size + sizeFields fields ≤ fuel := by
        rw [size] at hfuel
        omega
      have hspace : ∀ text, skipSpace (unit '\x7b' :: text) = unit '\x7b' :: text :=
        fun text => skipSpace_of_head rfl (by decide)
      have hopen : ∀ text, readUnit (unit '\x7d') (skipSpace (space ++ (quote key ++ text))) =
          none := by
        intro text
        have hquote : skipSpace (quote key ++ text) = quote key ++ text :=
          skipSpace_of_head rfl (by decide)
        have hne : unit '"' ≠ unit '\x7d' := by decide
        rw [skipSpace_blank hblank, hquote]
        simp only [quote, cons_append, readUnit, hne, if_false]
      have hquote : unit '\x7b' ≠ unit '"' := by decide
      have hbracket : unit '\x7b' ≠ unit '[' := by decide
      have hread := parseValue_spells value hvalue hbody (by omega : value.size ≤ fuel)
        (hmore.delimited rest)
      have hreads := parseFields_spells [(key, value)] fields hfields hkeys hmore
        (by omega : sizeFields fields ≤ fuel) rest
      simp only [cons_append, append_assoc, parseValue, hspace, hquote, hbracket,
        if_false, if_true, hopen, readKey_blank hblank, readKey_quote, parseValue_blank hgap, hread,
        hreads, map_some, nil_append]

theorem parseItems_spells (items : List Json) (hitems : ProperItems items) {text : Text}
    (h : SpellsItems items text) {fuel : Nat} (hfuel : sizeItems items ≤ fuel) (rest : Text) :
    parseItems fuel (text ++ rest) = some (items, rest) := by
  match fuel, items with
  | 0, [] => exact absurd hfuel (by decide)
  | 0, item :: items =>
    rw [sizeItems] at hfuel
    omega
  | fuel + 1, [] =>
    obtain ⟨space, hblank, rfl⟩ := h
    have hspace : skipSpace (unit ']' :: rest) = unit ']' :: rest := skipSpace_of_head rfl (by decide)
    simp only [append_assoc, cons_append, nil_append, parseItems,
      skipSpace_blank hblank, hspace, readUnit, if_true]
  | fuel + 1, item :: items =>
    obtain ⟨hitem, hitems⟩ : item.Proper ∧ ProperItems items := hitems
    obtain ⟨space, body, more, hblank, hbody, hmore, rfl⟩ := h
    have hsize : item.size + sizeItems items ≤ fuel := by
      rw [sizeItems] at hfuel
      omega
    have hspace : ∀ text, skipSpace (unit ',' :: text) = unit ',' :: text :=
      fun text => skipSpace_of_head rfl (by decide)
    have hne : unit ',' ≠ unit ']' := by decide
    have hread := parseValue_spells item hitem hbody (by omega : item.size ≤ fuel)
      (hmore.delimited rest)
    have hreads := parseItems_spells items hitems hmore (by omega : sizeItems items ≤ fuel) rest
    simp only [cons_append, append_assoc, parseItems, hspace, readUnit, hne,
      if_false, if_true, parseValue_blank hblank, hread, hreads, map_some]

theorem parseFields_spells (before fields : List (JsString × Json)) (hfields : ProperFields fields)
    (hkeys : ((before ++ fields).map Prod.fst).Nodup) {text : Text} (h : SpellsFields fields text)
    {fuel : Nat} (hfuel : sizeFields fields ≤ fuel) (rest : Text) :
    parseFields fuel before (text ++ rest) = some (before ++ fields, rest) := by
  match fuel, fields with
  | 0, [] => exact absurd hfuel (by decide)
  | 0, (key, value) :: fields =>
    rw [sizeFields] at hfuel
    omega
  | fuel + 1, [] =>
    obtain ⟨space, hblank, rfl⟩ := h
    have hspace : skipSpace (unit '\x7d' :: rest) = unit '\x7d' :: rest :=
      skipSpace_of_head rfl (by decide)
    simp only [append_assoc, cons_append, nil_append, append_nil, parseFields,
      skipSpace_blank hblank, hspace, readUnit, if_true]
  | fuel + 1, (key, value) :: fields =>
    obtain ⟨hvalue, hfields⟩ : value.Proper ∧ ProperFields fields := hfields
    obtain ⟨space, gap, body, more, hblank, hgap, hbody, hmore, rfl⟩ := h
    have hsize : value.size + sizeFields fields ≤ fuel := by
      rw [sizeFields] at hfuel
      omega
    have hspace : ∀ text, skipSpace (unit ',' :: text) = unit ',' :: text :=
      fun text => skipSpace_of_head rfl (by decide)
    have hne : unit ',' ≠ unit '\x7d' := by decide
    have hfresh : key ∉ before.map Prod.fst := by
      rw [map_append, map_cons, nodup_middle, nodup_cons] at hkeys
      exact fun hmem => hkeys.1 (mem_append_left _ hmem)
    have hmiddle : before ++ (key, value) :: fields = (before ++ [(key, value)]) ++ fields := by simp
    rw [hmiddle] at hkeys ⊢
    have hread := parseValue_spells value hvalue hbody (by omega : value.size ≤ fuel)
      (hmore.delimited rest)
    have hreads := parseFields_spells (before ++ [(key, value)]) fields hfields hkeys hmore
      (by omega : sizeFields fields ≤ fuel) rest
    simp only [cons_append, append_assoc, parseFields, hspace, readUnit, hne, if_false,
      if_true, readKey_blank hblank, readKey_quote, parseValue_blank hgap, set_fresh value hfresh,
      hread, hreads]

end

mutual

theorem Spells.size_le {j : Json} {text : Text} (h : Spells j text) : j.size ≤ text.length := by
  match j with
  | .null =>
    obtain rfl : text = stringify .null := h
    decide
  | .bool b =>
    obtain rfl : text = stringify (.bool b) := h
    cases b <;> decide
  | .num n =>
    obtain rfl : text = n.toText := h
    obtain ⟨u, rest, htext, -⟩ := toText_head n
    simp [size, htext]
  | .str s =>
    obtain rfl : text = quote s := h
    simp [size, quote]
  | .arr [] =>
    obtain rfl : text = [unit '[', unit ']'] := h
    decide
  | .arr (item :: items) =>
    obtain ⟨space, body, rest, -, hbody, hrest, rfl⟩ := h
    have hitem := hbody.size_le
    have hitems := hrest.size_le
    simp only [size, length_cons, length_append]
    omega
  | .obj [] =>
    obtain rfl : text = [unit '\x7b', unit '\x7d'] := h
    decide
  | .obj ((key, value) :: fields) =>
    obtain ⟨space, gap, body, rest, -, -, hbody, hrest, rfl⟩ := h
    have hvalue := hbody.size_le
    have hfields := hrest.size_le
    simp only [size, length_cons, length_append]
    omega

theorem SpellsItems.size_le {items : List Json} {text : Text} (h : SpellsItems items text) :
    sizeItems items ≤ text.length := by
  match items with
  | [] =>
    obtain ⟨space, -, rfl⟩ := h
    simp [sizeItems]
  | item :: items =>
    obtain ⟨space, body, rest, -, hbody, hrest, rfl⟩ := h
    have hitem := hbody.size_le
    have hitems := hrest.size_le
    simp only [sizeItems, length_cons, length_append]
    omega

theorem SpellsFields.size_le {fields : List (JsString × Json)} {text : Text}
    (h : SpellsFields fields text) : sizeFields fields ≤ text.length := by
  match fields with
  | [] =>
    obtain ⟨space, -, rfl⟩ := h
    simp [sizeFields]
  | (key, value) :: fields =>
    obtain ⟨space, gap, body, rest, -, -, hbody, hrest, rfl⟩ := h
    have hvalue := hbody.size_le
    have hfields := hrest.size_le
    simp only [sizeFields, length_cons, length_append]
    omega

end

/-- A spelling with white space behind it reads back as the value. -/
theorem parse_spells (hj : j.Proper) {text space : Text} (h : Spells j text)
    (hspace : Blank space) : parse (text ++ space) = some j := by
  have hrest : Delimited space := by
    have hblank : Delimited (space ++ []) := delimited_blank hspace (by rintro u rest' ⟨⟩)
    rwa [append_nil] at hblank
  have hfuel : j.size ≤ (text ++ space).length + 1 := by
    have hsize := h.size_le
    rw [length_append]
    omega
  have hskip : skipSpace space = [] := by
    have hblank := skipSpace_blank hspace []
    rwa [append_nil] at hblank
  rw [parse, parseValue_spells j hj h hfuel hrest]
  simp only [hskip]
  rfl

mutual

/-- The compact layout has no white space. -/
theorem stringify_spells (j : Json) : Spells j (stringify j) := by
  match j with
  | .null | .bool _ | .num _ | .str _ | .arr [] | .obj [] => exact rfl
  | .arr (item :: items) =>
    exact ⟨[], _, _, blank_nil, stringify_spells item, stringifyItems_spells items, rfl⟩
  | .obj ((key, value) :: fields) =>
    exact ⟨[], [], _, _, blank_nil, blank_nil, stringify_spells value,
      stringifyFields_spells fields, rfl⟩

theorem stringifyItems_spells (items : List Json) : SpellsItems items (stringifyItems items) := by
  match items with
  | [] => exact ⟨[], blank_nil, rfl⟩
  | item :: items =>
    exact ⟨[], _, _, blank_nil, stringify_spells item, stringifyItems_spells items, rfl⟩

theorem stringifyFields_spells (fields : List (JsString × Json)) :
    SpellsFields fields (stringifyFields fields) := by
  match fields with
  | [] => exact ⟨[], blank_nil, rfl⟩
  | (key, value) :: fields =>
    exact ⟨[], [], _, _, blank_nil, blank_nil, stringify_spells value,
      stringifyFields_spells fields, rfl⟩

end

/-- `JSON.parse(JSON.stringify(value))` is the value. -/
theorem parse_stringify (hj : j.Proper) : parse (stringify j) = some j := by
  have hparse := parse_spells hj (stringify_spells j) blank_nil
  rwa [append_nil] at hparse

end Json

end Harness
