import DocTemplate.Proofs.TableRows
import Mathlib.Algebra.BigOperators.Ring.List
import Mathlib.Algebra.Order.BigOperators.Group.List

/-!
# The layout of a table

Whatever the attributes of a table are, its layout is defined and loses no
cell: there is at least one column, the rows are the cells in their order, and
there is a width for each cell of a row.  As long as everything fits into
words of 32 bits, the widths are the weights in whole percent of their total,
cut off below.  What is cut off is less than one percent for each column, so
all columns together have almost everything, and never more.
-/

namespace DocTemplate

/-! ## Rows -/

section Groups

variable {α : Type} {size : Nat} (hsize : 0 < size)

theorem flatten_groups (size : Nat) (list : List α) :
    (groups size list).flatten = list := by
  fun_induction groups size list with
  | case1 => rfl
  | case2 first rest ih =>
      rw [List.flatten_cons, ih, List.cons_append, List.take_append_drop]

include hsize

theorem getElem?_groups (list : List α) (index : Nat) :
    (groups size list)[index]? =
      if index * size < list.length then
        some ((list.drop (index * size)).take size)
      else none := by
  have hcount : index < (list.length + size - 1) / size ↔
      index * size < list.length := by
    rw [← Nat.succ_le_iff, Nat.le_div_iff_mul_le hsize, Nat.succ_mul]
    omega
  rw [groups_eq_map_range hsize, List.getElem?_map]
  by_cases hinside : index * size < list.length
  · rw [List.getElem?_range (hcount.mpr hinside), if_pos hinside]
    rfl
  · have houtside : (List.range ((list.length + size - 1) / size)).length ≤
        index := by
      rw [List.length_range]
      exact Nat.le_of_not_lt (mt hcount.mp hinside)
    rw [List.getElem?_eq_none houtside, if_neg hinside]
    rfl

/-- A group that is not the last one is full, and no group is empty. -/
theorem length_group {list : List α} {front later : List (List α)}
    {row : List α} (h : groups size list = front ++ row :: later) :
    (later ≠ [] → row.length = size) ∧ 1 ≤ row.length ∧ row.length ≤ size := by
  have hrow : (groups size list)[front.length]? = some row := by simp [h]
  have hnext : later ≠ [] →
      (front.length + 1) * size < list.length := by
    intro hlater
    obtain ⟨next, others, rfl⟩ := List.exists_cons_of_ne_nil hlater
    have hsome : (groups size list)[front.length + 1]? = some next := by
      simp [h]
    rw [getElem?_groups hsize] at hsome
    by_contra hbeyond
    rw [if_neg hbeyond] at hsome
    cases hsome
  rw [Nat.succ_mul] at hnext
  rw [getElem?_groups hsize] at hrow
  split at hrow
  · rename_i hinside
    rw [← Option.some.inj hrow, List.length_take, List.length_drop]
    refine ⟨fun hlater => ?_, by omega, by omega⟩
    have hmore := hnext hlater
    omega
  · cases hrow

/-- An item stands in the group and at the place that dividing its index
gives. -/
theorem getElem?_groups_div_mod (list : List α) (index : Nat) :
    ((groups size list)[index / size]?.bind fun row => row[index % size]?) =
      list[index]? := by
  have hindex := Nat.div_add_mod' index size
  rw [getElem?_groups hsize]
  by_cases hinside : index / size * size < list.length
  · rw [if_pos hinside, Option.bind_some,
      List.getElem?_take_of_lt (Nat.mod_lt index hsize), List.getElem?_drop,
      hindex]
  · rw [if_neg hinside, List.getElem?_eq_none (by omega)]
    rfl

end Groups

/-! ## Words of 32 bits -/

/-- The widths as words of 32 bits compute them. -/
def percentageWords (weights : List UInt32) : List UInt32 :=
  weights.map fun weight => weight * 100 / weights.sum

theorem map_toNat_percentageWords (weights : List Nat) :
    (percentageWords (weightWords weights)).map UInt32.toNat =
      weights.map (percentOf (totalWeight weights)) := by
  have hword (weight : Nat) :
      (UInt32.ofNat weight * 100).toNat = wrapCount (weight * 100) := by
    rw [UInt32.toNat_mul, UInt32.toNat_ofNat', wrapCount_eq_mod]
    exact Nat.mod_mul_mod _ _ _
  rw [percentageWords, List.map_map]
  change (weights.map UInt32.ofNat).map _ = _
  rw [List.map_map]
  refine List.map_congr_left fun weight _ => ?_
  simp only [Function.comp_apply, UInt32.toNat_div, toNat_sum_weightWords,
    hword, percentOf]

/-! ## Sums of shares -/

/-- What the shares of a whole come to, and what is cut off from them. -/
theorem sum_shares (weights : List Nat) (whole total : Nat) :
    total * (weights.map fun weight => weight * whole / total).sum +
        (weights.map fun weight => weight * whole % total).sum =
      weights.sum * whole := by
  induction weights with
  | nil => simp
  | cons weight others ih =>
      have hshare := Nat.div_add_mod (weight * whole) total
      simp only [List.map_cons, List.sum_cons, Nat.mul_add, Nat.add_mul]
      omega

theorem sum_remainders {total : Nat} (htotal : 0 < total)
    (weights : List Nat) (whole : Nat) :
    (weights.map fun weight => weight * whole % total).sum + weights.length ≤
      weights.length * total := by
  induction weights with
  | nil => simp
  | cons weight others ih =>
      have hless := Nat.mod_lt (weight * whole) htotal
      simp only [List.map_cons, List.sum_cons, List.length_cons, Nat.succ_mul]
      omega

/-- The shares of all weights are the whole at most, and together they lack
less than one for each weight. -/
theorem sum_shares_bounds {weights : List Nat}
    (htotal : 0 < weights.sum) (whole : Nat) :
    let shares := weights.map fun weight => weight * whole / weights.sum
    shares.sum ≤ whole ∧ whole < shares.sum + weights.length := by
  intro shares
  have hsum := sum_shares weights whole weights.sum
  have hrest := sum_remainders htotal weights whole
  have hlength : 0 < weights.length := by
    cases weights with
    | nil => cases htotal
    | cons => exact Nat.succ_pos _
  change _ * shares.sum + _ = _ at hsum
  constructor
  · refine Nat.le_of_mul_le_mul_left (c := weights.sum) ?_ htotal
    omega
  · refine Nat.lt_of_mul_lt_mul_left (a := weights.sum) ?_
    rw [Nat.mul_add, Nat.mul_comm _ weights.length]
    omega

theorem sum_scaled (factor : Nat) (weights : List Nat) :
    (weights.map (factor * ·)).sum = factor * weights.sum := by
  rw [List.sum_map_mul_left, List.map_id']

namespace Table

/-! ## Layout -/

theorem columnCount_pos (table : Table) : 0 < table.columnCount := by
  cases hweights : table.weights? with
  | none =>
      rw [columnCount, hweights]
      exact Nat.one_pos
  | some weights =>
      rw [columnCount_eq hweights]
      exact length_weights_pos hweights

theorem length_percentages (table : Table) :
    (table.percentages?.getD [100]).length = table.columnCount := by
  rw [percentages?, columnCount]
  cases table.weights? with
  | none => rfl
  | some weights => exact List.length_map _

/-- The layout of a table is defined whatever its attributes are, and no cell
is lost in it: there is a column, the rows are the cells in their order, all
but the last of them full, the cell at an index stands where dividing by the
number of columns puts it, the total weight is never zero, neither as a number
nor as a word, and each cell of a row has a width. -/
theorem rows_lose_nothing (table : Table) :
    let count := table.columnCount
    let percentages := table.percentages?.getD [100]
    0 < count ∧
      table.rows.flatten = table.cells ∧
      (∀ front row later, table.rows = front ++ row :: later →
        (later ≠ [] → row.length = count) ∧
          1 ≤ row.length ∧ row.length ≤ count) ∧
      (∀ index, (table.rows[index / count]?.bind fun row =>
        row[index % count]?) = table.cells[index]?) ∧
      (∀ weights, table.weights? = some weights →
        totalWeight weights ≠ 0 ∧ (weightWords weights).sum ≠ 0) ∧
      table.percentages?.isSome = table.weights?.isSome ∧
      (∀ found, table.percentages? = some found → found.length = count) ∧
      ∀ row ∈ table.rows, (row.zip percentages).map Prod.fst = row := by
  intro count percentages
  have hcount : 0 < count := table.columnCount_pos
  have hlength : percentages.length = count := table.length_percentages
  have hsizes : ∀ front row later, table.rows = front ++ row :: later →
      (later ≠ [] → row.length = count) ∧
        1 ≤ row.length ∧ row.length ≤ count :=
    fun _ _ _ hrows => length_group hcount hrows
  refine ⟨hcount, flatten_groups count table.cells, hsizes,
    getElem?_groups_div_mod hcount table.cells, ?_, Option.isSome_map, ?_, ?_⟩
  · intro weights hweights
    have htotal := Nat.ne_of_gt (totalWeight_pos hweights)
    exact ⟨htotal, mt (sum_weightWords_eq_zero_iff weights).mp htotal⟩
  · intro found hfound
    rw [← hlength]
    simp only [percentages, hfound, Option.getD_some]
  · intro row hrow
    obtain ⟨front, later, hrows⟩ := List.append_of_mem hrow
    apply List.map_fst_zip
    rw [hlength]
    exact (hsizes front row later hrows).2.2

/-! ## Percentages -/

theorem percentages?_of_fits {table : Table} {weights : List Nat}
    (hweights : table.weights? = some weights) (hfits : WeightsFit weights) :
    table.percentages? =
      some (weights.map fun weight => weight * 100 / weights.sum) := by
  rw [percentages?_eq hweights]
  exact congrArg some (List.map_congr_left fun _ => hfits.percentOf_eq)

/-- The widths of columns are their weights in percent of the total, cut off
below, if the total and a hundred times each weight fit into words of 32 bits.
Together they are at most a hundred and lack less than one for each column.  A
greater weight has no smaller width, equal weights have equal widths, and a
common factor of all weights does not count as long as everything still
fits. -/
theorem percentages_truncate {table : Table} {weights : List Nat}
    (hweights : table.weights? = some weights) (hfits : WeightsFit weights) :
    ∃ percentages,
      table.percentages? = some percentages ∧
      (percentageWords (weightWords weights)).map UInt32.toNat =
        percentages ∧
      percentages.length = weights.length ∧
      (∀ (column : Nat) (weight percent : Nat),
        weights[column]? = some weight → percentages[column]? = some percent →
          percent * weights.sum ≤ weight * 100 ∧
            weight * 100 < (percent + 1) * weights.sum ∧
            percent ≤ 100) ∧
      percentages.sum ≤ 100 ∧
      100 - (weights.length - 1) ≤ percentages.sum ∧
      (∀ (first second : Nat) (lighter heavier less more : Nat),
        weights[first]? = some lighter → weights[second]? = some heavier →
          percentages[first]? = some less → percentages[second]? = some more →
            (lighter ≤ heavier → less ≤ more) ∧
              (lighter = heavier → less = more)) ∧
      ∀ (other : Table) (factor : Nat), 0 < factor →
        other.weights? = some (weights.map (factor * ·)) →
          WeightsFit (weights.map (factor * ·)) →
            other.percentages? = some percentages := by
  have hpositive : 0 < weights.sum := by
    rw [← hfits.totalWeight_eq]
    exact totalWeight_pos hweights
  obtain ⟨hmost, hleast⟩ := sum_shares_bounds hpositive 100
  have hpercentages := percentages?_of_fits hweights hfits
  have hcolumn {column weight percent : Nat}
      (hweight : weights[column]? = some weight)
      (hpercent : (weights.map fun weight =>
        weight * 100 / weights.sum)[column]? = some percent) :
      percent = weight * 100 / weights.sum := by
    rw [List.getElem?_map, hweight] at hpercent
    exact (Option.some.inj hpercent).symm
  refine ⟨_, hpercentages, ?_, List.length_map _, ?_, hmost, by omega, ?_, ?_⟩
  · rw [map_toNat_percentageWords]
    exact Option.some.inj ((percentages?_eq hweights).symm.trans hpercentages)
  · intro column weight percent hweight hpercent
    rw [hcolumn hweight hpercent]
    have hpart : weight ≤ weights.sum :=
      List.single_le_sum (fun _ _ => Nat.zero_le _) weight
        (List.mem_of_getElem? hweight)
    refine ⟨Nat.div_mul_le_self _ _, ?_, ?_⟩
    · rw [Nat.succ_mul]
      exact Nat.lt_div_mul_add hpositive
    · apply Nat.div_le_of_le_mul
      exact Nat.mul_le_mul_right 100 hpart
  · intro first second lighter heavier less more hfirst hsecond hless hmore
    rw [hcolumn hfirst hless, hcolumn hsecond hmore]
    refine ⟨fun hle => ?_, fun heq => by rw [heq]⟩
    exact Nat.div_le_div_right (Nat.mul_le_mul_right 100 hle)
  · intro other factor hfactor hother hstill
    rw [percentages?_of_fits hother hstill, sum_scaled, List.map_map]
    congr 1
    refine List.map_congr_left fun weight _ => ?_
    simp only [Function.comp_apply]
    rw [Nat.mul_assoc, Nat.mul_div_mul_left _ _ hfactor]

/-- Four columns of which one has no weight, and all weights tenfold. -/
theorem percentages_truncate_tenfold :
    let table : Table := { attributes := .ofList [("columns", "2, 0,4,+1")] }
    let other : Table := { attributes := .ofList [("columns", "20,0,40,10")] }
    table.weights? = some [2, 0, 4, 1] ∧ WeightsFit [2, 0, 4, 1] ∧
      other.weights? = some ([2, 0, 4, 1].map (10 * ·)) ∧
      WeightsFit ([2, 0, 4, 1].map (10 * ·)) ∧
      table.percentages? = some [28, 0, 57, 14] ∧
      other.percentages? = some [28, 0, 57, 14] := by
  intro table other
  have hweights : table.weights? = some [2, 0, 4, 1] := by decide +kernel
  have hother : other.weights? = some ([2, 0, 4, 1].map (10 * ·)) := by
    decide +kernel
  have hfits : WeightsFit [2, 0, 4, 1] := ⟨by decide, by decide⟩
  have hstill : WeightsFit ([2, 0, 4, 1].map (10 * ·)) :=
    ⟨by decide, by decide⟩
  obtain ⟨percentages, hpercent, hwords, -, -, -, -, -, hfactor⟩ :=
    percentages_truncate hweights hfits
  have hvalues : percentages = [28, 0, 57, 14] :=
    hwords.symm.trans (by decide +kernel)
  rw [hvalues] at hpercent hfactor
  exact ⟨hweights, hfits, hother, hstill, hpercent,
    hfactor other 10 (by decide) hother hstill⟩

end Table
end DocTemplate
