-- SUMMARY: Files of fixed-width records: counting, truncating and appending.
import Mathlib.Data.List.Basic

/-!
# Record files

A file is a list of bytes, or of anything else. A torn record at its end does not count.
-/

namespace Records

open List

variable {α : Type*}

/-- How many whole records a file holds. -/
def count (width : Nat) (f : List α) : Nat := f.length / width

/-- Drop a partial trailing record. -/
def repair (width : Nat) (f : List α) : List α :=
  if f.length % width = 0 then f else f.take (f.length - f.length % width)

theorem length_repair (width : Nat) (f : List α) :
    (repair width f).length = count width f * width := by
  unfold repair count
  have hmod := Nat.div_add_mod' f.length width
  split
  · omega
  · rw [length_take, Nat.min_eq_left (Nat.sub_le _ _)]
    omega

@[simp] theorem count_repair {width : Nat} (hwidth : 0 < width) (f : List α) :
    count width (repair width f) = count width f := by
  rw [count, length_repair, Nat.mul_div_cancel _ hwidth]

theorem count_repair_append {width : Nat} (hwidth : 0 < width) (f : List α) {record : List α}
    (hrecord : record.length = width) :
    count width (repair width f ++ record) = count width f + 1 := by
  rw [count, length_append, length_repair, hrecord, Nat.add_div_right _ hwidth,
    Nat.mul_div_cancel _ hwidth]

theorem count_take {width : Nat} (f : List α) (n : Nat) :
    count width (f.take n) = min (n / width) (count width f) := by
  unfold count
  rw [length_take]
  rcases Nat.le_total n f.length with h | h
  · rw [Nat.min_eq_left h, Nat.min_eq_left (Nat.div_le_div_right h)]
  · rw [Nat.min_eq_right h, Nat.min_eq_right (Nat.div_le_div_right h)]

/-! ## Records -/

/-- The records of a file, without a torn one at its end. -/
def records (width : Nat) (f : List α) : List (List α) :=
  (List.range (count width f)).map fun i => (f.drop (i * width)).take width

section Whole

variable {width : Nat} {rs : List (List α)}

theorem length_flatten_of_width (h : ∀ r ∈ rs, r.length = width) :
    rs.flatten.length = rs.length * width := by
  induction rs with
  | nil => simp
  | cons r rs ih =>
    rw [flatten_cons, length_append, h r mem_cons_self,
      ih fun r' hr => h r' (mem_cons_of_mem _ hr), length_cons, Nat.succ_mul,
      Nat.add_comm]

theorem drop_flatten (h : ∀ r ∈ rs, r.length = width) (n : Nat) :
    rs.flatten.drop (n * width) = (rs.drop n).flatten := by
  induction rs generalizing n with
  | nil => simp
  | cons r rs ih =>
    cases n with
    | zero => simp
    | succ n =>
      have hr := h r mem_cons_self
      rw [flatten_cons, Nat.succ_mul, Nat.add_comm, ← drop_drop, ← hr,
        drop_left, hr, drop_succ_cons, ih fun r' hr' => h r' (mem_cons_of_mem _ hr')]

theorem take_flatten (h : ∀ r ∈ rs, r.length = width) (n : Nat) :
    rs.flatten.take (n * width) = (rs.take n).flatten := by
  induction rs generalizing n with
  | nil => simp
  | cons r rs ih =>
    cases n with
    | zero => simp
    | succ n =>
      have hr := h r mem_cons_self
      rw [flatten_cons, Nat.succ_mul, Nat.add_comm, take_append, hr,
        take_of_length_le (by omega), Nat.add_sub_cancel_left, take_succ_cons,
        flatten_cons, ih fun r' hr' => h r' (mem_cons_of_mem _ hr')]

theorem count_flatten (hwidth : 0 < width) (h : ∀ r ∈ rs, r.length = width) :
    count width rs.flatten = rs.length := by
  rw [count, length_flatten_of_width h, Nat.mul_div_cancel _ hwidth]

/-- A file of whole records reads back as them. -/
theorem records_flatten (hwidth : 0 < width) (h : ∀ r ∈ rs, r.length = width) :
    records width rs.flatten = rs := by
  refine ext_getElem (by rw [records, length_map, length_range, count_flatten hwidth h])
    fun i hi hi' => ?_
  have hrest : ∀ r ∈ rs.drop i, r.length = width := fun r hr => h r (mem_of_mem_drop hr)
  have htake := take_flatten hrest 1
  rw [Nat.one_mul] at htake
  simp only [records, getElem_map, getElem_range]
  rw [drop_flatten h, htake, drop_eq_getElem_cons hi', take_succ_cons, take_zero,
    flatten_cons, flatten_nil, append_nil]

/-- Repair leaves whole records, and takes a torn one away. -/
theorem repair_flatten_append (h : ∀ r ∈ rs, r.length = width) {torn : List α}
    (htorn : torn.length < width) : repair width (rs.flatten ++ torn) = rs.flatten := by
  have hlength : (rs.flatten ++ torn).length = rs.length * width + torn.length := by
    rw [length_append, length_flatten_of_width h]
  have hmod : (rs.flatten ++ torn).length % width = torn.length := by
    rw [hlength, Nat.mul_comm, Nat.mul_add_mod, Nat.mod_eq_of_lt htorn]
  rw [repair, hmod]
  split
  · rename_i hempty
    rw [eq_nil_of_length_eq_zero hempty, append_nil]
  · rw [hlength, Nat.add_sub_cancel, ← length_flatten_of_width h, take_left]

/-- The first elements of a file: whole records, and a torn one. -/
theorem take_flatten_torn (hwidth : 0 < width) (h : ∀ r ∈ rs, r.length = width) (n : Nat) :
    ∃ torn : List α, torn.length < width ∧
      rs.flatten.take n = (rs.take (n / width)).flatten ++ torn := by
  refine ⟨(rs.flatten.drop (n / width * width)).take (n % width), ?_, ?_⟩
  · exact Nat.lt_of_le_of_lt (length_take_le _ _) (Nat.mod_lt _ hwidth)
  · rw [← take_flatten h, ← take_add, Nat.div_add_mod']

end Whole

/-- A file that goes on from the repaired one has the same records. -/
theorem record_of_repair_prefix {width : Nat} {f f' : List α} (h : repair width f <+: f') {i : Nat}
    (hi : i < count width f) : (f'.drop (i * width)).take width = (f.drop (i * width)).take width := by
  have hwhole : repair width f = f.take (count width f * width) := by
    have hlength := length_repair width f
    unfold repair at hlength ⊢
    split
    · rename_i haligned
      rw [if_pos haligned] at hlength
      rw [← hlength, take_length]
    · rename_i htorn
      rw [if_neg htorn, length_take, Nat.min_eq_left (Nat.sub_le _ _)] at hlength
      rw [hlength]
  have hroom : i * width + width ≤ count width f * width := by
    rw [← Nat.succ_mul]
    exact Nat.mul_le_mul_right _ hi
  obtain ⟨rest, rfl⟩ := h
  have hlength := length_repair width f
  rw [drop_append_of_le_length (by omega), take_append_of_le_length
    (by rw [length_drop]; omega), hwhole, drop_take, take_take,
    Nat.min_eq_left (by omega)]

end Records
