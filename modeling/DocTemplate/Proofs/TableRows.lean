import DocTemplate.Table
import Mathlib.Algebra.Order.Ring.Nat
import Mathlib.Data.UInt

/-!
# Rows and columns of a table

The cells of a table are one list, and its rows are groups of neighbours of
it.  So the cell in a row and a column is found by its place in the list, and
there are as many rows as it takes for all cells.  A table with weights has at
least one column, since weights do not add up to nothing.

The arithmetic on weights is that of words of 32 bits.  As long as their sum
and a hundred times each of them fit, it is that of the numbers.
-/

namespace DocTemplate

section Groups

variable {α : Type} {size : Nat} (hsize : 0 < size)
include hsize

theorem groups_cons (first : α) (rest : List α) :
    groups size (first :: rest) =
      (first :: rest).take size :: groups size ((first :: rest).drop size) := by
  obtain ⟨less, rfl⟩ := Nat.exists_eq_add_one_of_ne_zero
    (Nat.ne_of_gt hsize)
  rw [groups, List.take_succ_cons, List.drop_succ_cons, Nat.add_sub_cancel]

theorem count_groups_succ {length : Nat} (hlength : 0 < length) :
    (length + size - 1) / size = (length - size + size - 1) / size + 1 := by
  by_cases hmore : size ≤ length
  · have hall : length + size - 1 = length - size + size - 1 + size := by
      omega
    rw [hall, Nat.add_div_right _ hsize]
  · have hone : length + size - 1 = length - 1 + size := by omega
    have hrest : length - size + size - 1 = size - 1 := by omega
    rw [hone, hrest, Nat.add_div_right _ hsize, Nat.div_eq_of_lt (by omega),
      Nat.div_eq_of_lt (by omega)]

/-- A group at an index is what stands at its place in the list. -/
theorem groups_eq_map_range (list : List α) :
    groups size list =
      (List.range ((list.length + size - 1) / size)).map fun index =>
        (list.drop (index * size)).take size := by
  induction hlength : list.length using Nat.strongRecOn
    generalizing list with
  | ind length ih =>
      cases list with
      | nil =>
          have hnone : (length + size - 1) / size = 0 := by
            rw [← hlength, List.length_nil]
            exact Nat.div_eq_of_lt (by omega)
          rw [hnone, groups]
          rfl
      | cons first rest =>
          rw [List.length_cons] at hlength
          have hdrop : ((first :: rest).drop size).length = length - size := by
            rw [List.length_drop, List.length_cons, hlength]
          have hbehind := ih (length - size) (by omega) _ hdrop
          have hcount := count_groups_succ hsize (show 0 < length by omega)
          rw [groups_cons hsize, hbehind, hcount, List.range_succ_eq_map,
            List.map_cons, List.map_map, Nat.zero_mul, List.drop_zero]
          congr 1
          refine List.map_congr_left fun index _ => ?_
          simp only [Function.comp_apply, List.drop_drop, Nat.succ_mul]
          rw [Nat.add_comm size]

end Groups

theorem groups_one {α : Type} (list : List α) :
    groups 1 list = list.map fun item => [item] := by
  induction list with
  | nil => rw [groups]; rfl
  | cons first rest ih =>
      rw [groups_cons Nat.one_pos, List.drop_succ_cons, List.drop_zero, ih]
      rfl

/-! ## Weights -/

/-- Weights whose sum, and each of which times a hundred, is a count. -/
structure WeightsFit (weights : List Nat) : Prop where
  sum_le : weights.sum ≤ Text.maxCount
  scaled_le : ∀ weight ∈ weights, weight * 100 ≤ Text.maxCount

theorem wrapCount_eq_mod (value : Nat) : wrapCount value = value % 2 ^ 32 := rfl

theorem wrapCount_of_le {value : Nat} (h : value ≤ Text.maxCount) :
    wrapCount value = value :=
  Nat.mod_eq_of_lt (Nat.lt_succ_of_le h)

theorem foldl_wrapCount (weights : List Nat) {total : Nat}
    (htotal : total ≤ Text.maxCount) :
    weights.foldl (fun total weight => wrapCount (total + weight)) total =
      wrapCount (total + weights.sum) := by
  induction weights generalizing total with
  | nil => exact (wrapCount_of_le htotal).symm
  | cons weight others ih =>
      have hnext : wrapCount (total + weight) ≤ Text.maxCount :=
        Nat.le_of_lt_succ (Nat.mod_lt _ (Nat.succ_pos _))
      rw [List.foldl_cons, ih hnext, List.sum_cons, ← Nat.add_assoc]
      exact Nat.mod_add_mod _ _ _

/-- It does not matter whether each sum wraps or only the last one. -/
theorem totalWeight_eq_wrapCount_sum (weights : List Nat) :
    totalWeight weights = wrapCount weights.sum := by
  rw [totalWeight, foldl_wrapCount weights (Nat.zero_le _), Nat.zero_add]

example : totalWeight [Text.maxCount, 1] = 0 := by decide

theorem WeightsFit.totalWeight_eq {weights : List Nat} (h : WeightsFit weights) :
    totalWeight weights = weights.sum := by
  rw [totalWeight_eq_wrapCount_sum, wrapCount_of_le h.sum_le]

theorem WeightsFit.percentOf_eq {weights : List Nat} (h : WeightsFit weights)
    {weight : Nat} (hweight : weight ∈ weights) :
    percentOf (totalWeight weights) weight = weight * 100 / weights.sum := by
  rw [percentOf, wrapCount_of_le (h.scaled_le weight hweight),
    h.totalWeight_eq]

/-- Weights as words of 32 bits. -/
def weightWords (weights : List Nat) : List UInt32 :=
  weights.map UInt32.ofNat

theorem toNat_sum_weightWords (weights : List Nat) :
    (weightWords weights).sum.toNat = totalWeight weights := by
  rw [totalWeight_eq_wrapCount_sum]
  induction weights with
  | nil => rfl
  | cons weight others ih =>
      change (UInt32.ofNat weight + (weightWords others).sum).toNat = _
      rw [UInt32.toNat_add, ih, UInt32.toNat_ofNat', List.sum_cons,
        wrapCount_eq_mod, wrapCount_eq_mod, ← Nat.add_mod]

theorem sum_weightWords_eq_zero_iff (weights : List Nat) :
    (weightWords weights).sum = 0 ↔ totalWeight weights = 0 := by
  rw [← toNat_sum_weightWords, ← UInt32.toNat_inj]
  rfl

/-- Weights that are read do not add up to nothing. -/
theorem totalWeight_pos_of_read {columns : String} {weights : List Nat}
    (h : readColumns columns = .ok weights) : 0 < totalWeight weights := by
  unfold readColumns at h
  generalize (List.mapM _ (Text.fields ',' columns) :
    Except ColumnsError (List Nat)) = reading at h
  cases reading with
  | error error => cases h
  | ok found =>
      change (if totalWeight found = 0 then _ else _) = _ at h
      split at h
      · cases h
      · rename_i htotal
        cases h
        exact Nat.pos_of_ne_zero htotal

namespace Table

variable {table : Table} {weights : List Nat}

theorem totalWeight_pos (h : table.weights? = some weights) :
    0 < totalWeight weights := by
  obtain ⟨columns, -, hread⟩ := Option.bind_eq_some_iff.mp h
  cases hcolumns : readColumns columns with
  | error error =>
      rw [hcolumns] at hread
      cases hread
  | ok found =>
      rw [hcolumns] at hread
      obtain rfl : found = weights := Option.some.inj hread
      exact totalWeight_pos_of_read hcolumns

theorem length_weights_pos (h : table.weights? = some weights) :
    0 < weights.length := by
  have htotal := totalWeight_pos h
  cases weights with
  | nil => cases htotal
  | cons => exact Nat.succ_pos _

theorem columnCount_eq (h : table.weights? = some weights) :
    table.columnCount = weights.length := by
  rw [columnCount, h]
  rfl

theorem percentages?_eq (h : table.weights? = some weights) :
    table.percentages? =
      some (weights.map (percentOf (totalWeight weights))) := by
  rw [percentages?, h]
  rfl

end Table
end DocTemplate
