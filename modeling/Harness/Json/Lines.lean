-- SUMMARY: The spelling of a value is one line of UTF-8, and its bytes decode to it again.
import Harness.Json.RoundTrip
import Harness.Json.Utf8

namespace Harness

open List
open JsString (utf8 ofUtf8)

/-- A text of scalar values, none of them a line feed. -/
def OneLine (text : Text) : Prop :=
  ∃ cs : List Nat, (∀ c ∈ cs, Unicode.IsScalar c ∧ c ≠ 10) ∧ text = cs.flatMap Unicode.units

/-- A code unit that is no surrogate and no line feed. -/
def isPlain (u : UInt16) : Bool := Nat.blt u.toNat 0xD800 && u.toNat != 10

theorem isPlain_iff {u : UInt16} : isPlain u = true ↔ u.toNat < 0xD800 ∧ u.toNat ≠ 10 := by
  simp [isPlain, Nat.blt_eq]

namespace OneLine

theorem nil : OneLine [] := ⟨[], by simp, rfl⟩

theorem append {text more : Text} (h : OneLine text) (hmore : OneLine more) :
    OneLine (text ++ more) := by
  obtain ⟨cs, hcs, rfl⟩ := h
  obtain ⟨ds, hds, rfl⟩ := hmore
  refine ⟨cs ++ ds, fun c hc => ?_, flatMap_append.symm⟩
  rcases mem_append.mp hc with hc | hc
  · exact hcs c hc
  · exact hds c hc

theorem single {u : UInt16} (h : isPlain u = true) : OneLine [u] := by
  obtain ⟨hlow, hfeed⟩ := isPlain_iff.mp h
  refine ⟨[u.toNat], by simpa using ⟨.inl hlow, hfeed⟩, ?_⟩
  have hbmp : u.toNat < 0x10000 := by omega
  simp [Unicode.units, hbmp]

theorem cons {u : UInt16} (h : isPlain u = true) {text : Text} (htext : OneLine text) :
    OneLine (u :: text) :=
  append (single h) htext

theorem of_units {text : Text} (h : text.all isPlain = true) : OneLine text := by
  induction text with
  | nil => exact nil
  | cons u text ih =>
    rw [all_cons, Bool.and_eq_true] at h
    exact cons h.1 (ih h.2)

/-! ## Bytes -/

theorem bytes_clean {c : Nat} (hc : Unicode.IsScalar c) (hfeed : c ≠ 10) :
    (0x0A : UInt8) ∉ Unicode.bytes c := by
  have hbyte : ∀ n : Nat, n < 0x100 → n ≠ 10 → (0x0A : UInt8) ≠ n.toUInt8 := by
    intro n hn hne heq
    have hnat := congrArg UInt8.toNat heq
    simp only [Nat.toUInt8, UInt8.toNat_ofNat'] at hnat
    rw [Nat.mod_eq_of_lt hn] at hnat
    exact hne hnat.symm
  have hmax : c < 0x110000 := by
    unfold Unicode.IsScalar at hc
    omega
  unfold Unicode.bytes
  split_ifs with h1 h2 h3
  · simpa using hbyte c (by omega) hfeed
  · simp only [mem_cons, not_mem_nil, or_false, not_or]
    exact ⟨hbyte _ (by omega) (by omega), hbyte _ (by omega) (by omega)⟩
  · simp only [mem_cons, not_mem_nil, or_false, not_or]
    exact ⟨hbyte _ (by omega) (by omega), hbyte _ (by omega) (by omega),
      hbyte _ (by omega) (by omega)⟩
  · simp only [mem_cons, not_mem_nil, or_false, not_or]
    exact ⟨hbyte _ (by omega) (by omega), hbyte _ (by omega) (by omega),
      hbyte _ (by omega) (by omega), hbyte _ (by omega) (by omega)⟩

theorem utf8_clean {text : Text} (h : OneLine text) : (0x0A : UInt8) ∉ utf8 ⟨text⟩ := by
  obtain ⟨cs, hcs, rfl⟩ := h
  unfold utf8
  rw [Unicode.points_flatMap_units fun c hc => (hcs c hc).1]
  intro hmem
  obtain ⟨c, hc, hbyte⟩ := mem_flatMap.mp hmem
  exact bytes_clean (hcs c hc).1 (hcs c hc).2 hbyte

theorem ofUtf8_utf8 {text : Text} (h : OneLine text) : ofUtf8 (utf8 ⟨text⟩) = ⟨text⟩ := by
  obtain ⟨cs, hcs, rfl⟩ := h
  have hscalar : ∀ c ∈ cs, Unicode.IsScalar c := fun c hc => (hcs c hc).1
  unfold ofUtf8 utf8
  rw [Unicode.points_flatMap_units hscalar, Unicode.decode_flatMap_bytes hscalar]

/-- The bytes of a line and what follows its line feed. -/
theorem utf8_feed {text : Text} (h : OneLine text) (more : Text) :
    utf8 ⟨text ++ 0x0A :: more⟩ = utf8 ⟨text⟩ ++ 0x0A :: utf8 ⟨more⟩ := by
  obtain ⟨cs, hcs, rfl⟩ := h
  have hpoints : Unicode.points (cs.flatMap Unicode.units ++ 0x0A :: more) =
      cs ++ 10 :: Unicode.points more := by
    induction cs with
    | nil => exact Unicode.points_single_append (by decide) more
    | cons c cs ih =>
      rw [flatMap_cons, append_assoc,
        Unicode.points_units_append (hcs c mem_cons_self).1,
        ih fun c hc => hcs c (mem_cons_of_mem _ hc)]
      rfl
  unfold utf8
  rw [hpoints, Unicode.points_flatMap_units fun c hc => (hcs c hc).1, flatMap_append,
    flatMap_cons]
  rfl

end OneLine

/-! ## Strings -/

theorem hexDigit_plain {d : Nat} (h : d < 16) : isPlain (hexDigit d) = true := by
  rw [isPlain_iff]
  unfold hexDigit
  split_ifs
  · rw [UInt16.toNat_ofNat']
    omega
  · rw [UInt16.toNat_ofNat']
    omega

theorem oneLine_unicodeEscape (u : UInt16) : OneLine (unicodeEscape u) := by
  have hu : u.toNat < 65536 := u.toNat_lt
  exact .cons rfl (.cons rfl (.cons (hexDigit_plain (by omega)) (.cons (hexDigit_plain (by omega))
    (.cons (hexDigit_plain (by omega)) (.single (hexDigit_plain (by omega)))))))

theorem oneLine_quoteUnit {u : UInt16} (hlead : isLeadSurrogate u = false)
    (htrail : isTrailSurrogate u = false) : OneLine (quoteUnit u) := by
  have hescape : ∀ c : Char, isPlain (unit c) = true → OneLine [unit '\\', unit c] :=
    fun c hc => .cons rfl (.single hc)
  unfold quoteUnit
  split_ifs with h1 h2 h3 h4 h5 h6 h7 h8
  · exact hescape 'b' rfl
  · exact hescape 't' rfl
  · exact hescape 'n' rfl
  · exact hescape 'f' rfl
  · exact hescape 'r' rfl
  · exact hescape '"' rfl
  · exact hescape '\\' rfl
  · exact oneLine_unicodeEscape u
  · -- an unescaped unit is no surrogate, so it is a scalar value
    have hu : u.toNat < 65536 := u.toNat_lt
    simp only [isLeadSurrogate, isTrailSurrogate, decide_eq_false_iff_not] at hlead htrail
    have hscalar : Unicode.IsScalar u.toNat := by
      unfold Unicode.IsScalar
      omega
    refine ⟨[u.toNat], by simpa using ⟨hscalar, by omega⟩, ?_⟩
    simp [Unicode.units, hu]

/-- A surrogate pair spells one scalar value. -/
theorem oneLine_pair {u v : UInt16} (hlead : isLeadSurrogate u = true) (htrail : isTrailSurrogate v = true) :
    OneLine [u, v] := by
  simp only [isLeadSurrogate, isTrailSurrogate, decide_eq_true_eq] at hlead htrail
  refine ⟨[0x10000 + (u.toNat - 0xD800) * 0x400 + (v.toNat - 0xDC00)], ?_, ?_⟩
  · intro c hc
    rw [mem_singleton] at hc
    unfold Unicode.IsScalar
    omega
  have hbig : ¬ 0x10000 + (u.toNat - 0xD800) * 0x400 + (v.toNat - 0xDC00) < 0x10000 := by omega
  have hu : (0xD800 + (0x10000 + (u.toNat - 0xD800) * 0x400 + (v.toNat - 0xDC00) - 0x10000) / 0x400).toUInt16
      = u := by
    apply UInt16.toNat_inj.mp
    rw [Nat.toUInt16, UInt16.toNat_ofNat']
    omega
  have hv : (0xDC00 + (0x10000 + (u.toNat - 0xD800) * 0x400 + (v.toNat - 0xDC00) - 0x10000) % 0x400).toUInt16
      = v := by
    apply UInt16.toNat_inj.mp
    rw [Nat.toUInt16, UInt16.toNat_ofNat']
    omega
  rw [flatMap_singleton, Unicode.units, if_neg hbig, hu, hv]

theorem oneLine_quoteUnits (us : List UInt16) : OneLine (quoteUnits us) := by
  induction us using quoteUnits.induct with
  | case1 => exact .nil
  | case2 u hlead =>
    rw [quoteUnits, if_pos hlead]
    exact oneLine_unicodeEscape u
  | case3 u hlead v rest' htrail ih =>
    rw [quoteUnits, if_pos hlead]
    simp only [htrail, if_true]
    exact (oneLine_pair hlead htrail).append ih
  | case4 u hlead v rest' htrail ih =>
    rw [quoteUnits, if_pos hlead]
    simp only [htrail, Bool.false_eq_true, if_false]
    exact (oneLine_unicodeEscape u).append ih
  | case5 u rest' hlead htrail ih =>
    rw [quoteUnits.eq_def]
    simp only [hlead, htrail, Bool.false_eq_true, if_false, if_true]
    exact (oneLine_unicodeEscape u).append ih
  | case6 u rest' hlead htrail ih =>
    rw [quoteUnits.eq_def]
    simp only [hlead, htrail, Bool.false_eq_true, if_false]
    exact (oneLine_quoteUnit (by simpa using hlead) (by simpa using htrail)).append ih

theorem oneLine_quote (s : JsString) : OneLine (quote s) :=
  .cons rfl ((oneLine_quoteUnits s.units).append (.single rfl))

/-! ## Numbers -/

theorem oneLine_digitUnits {ds : List Nat} (h : ∀ d ∈ ds, d < 10) : OneLine (digitUnits ds) := by
  refine .of_units (List.all_eq_true.mpr fun u hu => ?_)
  obtain ⟨d, hd, rfl⟩ := List.mem_map.mp hu
  have hlt := h d hd
  rw [isPlain_iff, UInt16.toNat_ofNat']
  omega

theorem oneLine_natText (n : Nat) : OneLine (natText n) := by
  unfold natText
  split_ifs
  · exact .single rfl
  · exact oneLine_digitUnits fun d hd => decimals_lt hd

theorem oneLine_exponentText (e : Int) : OneLine (exponentText e) := by
  unfold exponentText
  split_ifs
  · exact .cons rfl (oneLine_natText _)
  · exact .cons rfl (oneLine_natText _)

theorem oneLine_placePoint {digits : List Nat} (h : ∀ d ∈ digits, d < 10) (n : Int) :
    OneLine (placePoint digits n) := by
  have hzeros : ∀ k, ∀ d ∈ List.replicate k 0, d < 10 := by
    intro k d hd
    rw [eq_of_mem_replicate hd]
    decide
  unfold placePoint
  split_ifs with h1 h2 h3
  · refine oneLine_digitUnits fun d hd => ?_
    rcases mem_append.mp hd with hd | hd
    · exact h d hd
    · exact hzeros _ d hd
  · exact (oneLine_digitUnits fun d hd => h d (mem_of_mem_take hd)).append
      (.cons rfl (oneLine_digitUnits fun d hd => h d (mem_of_mem_drop hd)))
  · refine .cons rfl (.cons rfl
      (oneLine_digitUnits fun d hd => ?_))
    rcases mem_append.mp hd with hd | hd
    · exact hzeros _ d hd
    · exact h d hd
  · match digits, h with
    | [], _ => exact .nil
    | [d], h =>
      exact (oneLine_digitUnits h).append (.cons rfl (oneLine_exponentText _))
    | d :: e :: ds, h =>
      have hfirst : ∀ x ∈ [d], x < 10 := fun x hx => h x (by simp_all)
      have hrest : ∀ x ∈ e :: ds, x < 10 := fun x hx => h x (mem_cons_of_mem _ hx)
      have hfraction : OneLine (unit '.' :: digitUnits (e :: ds)) :=
        .cons rfl (oneLine_digitUnits hrest)
      have hexponent : OneLine (unit 'e' :: exponentText (n - 1)) :=
        .cons rfl (oneLine_exponentText _)
      exact ((oneLine_digitUnits hfirst).append hfraction).append hexponent

theorem oneLine_toText (n : Num) : OneLine n.toText := by
  have hmagnitude : OneLine n.magnitudeText := by
    cases n with
    | int z =>
      exact oneLine_placePoint (fun d hd => by
        unfold significant at hd
        rw [mem_reverse] at hd
        have hmem := (dropWhile_sublist _).subset hd
        exact Nat.digits_lt_base (by decide) hmem) _
    | frac m s hm => exact oneLine_placePoint (fun d hd => decimals_lt hd) _
  unfold Num.toText
  split_ifs
  · exact .single rfl
  · exact .cons rfl hmagnitude
  · exact hmagnitude

/-! ## Values -/

mutual

/-- A spelled value holds no line feed and no lone surrogate. -/
theorem oneLine_stringify (j : Json) : OneLine j.stringify := by
  cases j with
  | null => exact .of_units rfl
  | bool b => cases b <;> exact .of_units rfl
  | num n => exact oneLine_toText n
  | str s => exact oneLine_quote s
  | arr items =>
    cases items with
    | nil => exact .of_units rfl
    | cons item items =>
      exact .cons rfl ((oneLine_stringify item).append (oneLine_items items))
  | obj fields =>
    cases fields with
    | nil => exact .of_units rfl
    | cons field fields =>
      obtain ⟨key, value⟩ := field
      exact .cons rfl ((oneLine_quote key).append (.cons rfl
        ((oneLine_stringify value).append (oneLine_fields fields))))

theorem oneLine_items (items : List Json) : OneLine (Json.stringifyItems items) := by
  cases items with
  | nil => exact .single rfl
  | cons item items =>
    exact .cons rfl ((oneLine_stringify item).append (oneLine_items items))

theorem oneLine_fields (fields : List (JsString × Json)) : OneLine (Json.stringifyFields fields) := by
  cases fields with
  | nil => exact .single rfl
  | cons field fields =>
    obtain ⟨key, value⟩ := field
    exact .cons rfl ((oneLine_quote key).append (.cons rfl
      ((oneLine_stringify value).append (oneLine_fields fields))))

end

end Harness
