import Mathlib.Algebra.Order.Floor.Div
import ResourceQuery.Page

/-!
# Pages — windows in exact numbers, and the pages of a result

The limit and the offset of a page are words, and a product that leaves the words saturates before it is
capped.  Both are still what exact arithmetic asks for (`asked`), capped once: a product that saturates
is above the cap already (`toNat_offset`).  A row below the cap is thus in the window of a page exactly
if it is among the rows that the page asks for (`shows_iff`), and one page shows it
(`shows_numbered_iff`).  The number of pages is the quotient rounded up (`toNat_pageCount`), so a page
is counted exactly if the pages before it leave a row (`lt_pageCount_iff`).

* `limitOffset_exact`: the limit and the offset are the exact ones, capped once.
* `pages_tile`: each row is on one of the counted pages, and on one only.
-/

namespace ResourceQuery

namespace PageRequest

/-- The largest limit or offset that the database accepts, as a number. -/
def largestBigint : Nat := 2 ^ 63 - 1

/-- The rows that a page asks for: how many, and behind how many others. -/
def asked : PageRequest → Nat × Nat
  | .numbered size number => (size.toNat, (max number.toNat 1 - 1) * size.toNat)
  | .window limit offset  => (limit.toNat, offset.toNat)

variable {size number rowCount : UInt64}

/-! ### Words -/

theorem toNat_maxWindow : maxWindow.toNat = largestBigint := by
  decide

/-- A product that is too large becomes the largest number there is. -/
theorem toNat_saturatingMul (a b : UInt64) :
    (saturatingMul a b).toNat = min (a.toNat * b.toNat) (UInt64.size - 1) := by
  rw [saturatingMul]
  split
  case isTrue h =>
    rw [UInt64.toNat_mul, Nat.mod_eq_of_lt h, Nat.min_eq_left (Nat.le_sub_one_of_lt h)]
  case isFalse h =>
    rw [Nat.min_eq_right (Nat.le_trans (Nat.sub_le _ _) (Nat.not_lt.mp h))]
    rfl

/-- Page zero is the first page. -/
theorem toNat_pagesBefore (number : UInt64) :
    (max number 1 - 1).toNat = max number.toNat 1 - 1 := by
  have hone : (1 : UInt64) ≤ max number 1 := by
    rw [UInt64.le_iff_toNat_le, UInt64.toNat_max]
    exact Nat.le_max_right _ _
  rw [UInt64.toNat_sub_of_le _ _ hone, UInt64.toNat_max]
  rfl

theorem toNat_limit (p : PageRequest) : p.limitOffset.1.toNat = min p.asked.1 largestBigint := by
  cases p <;> exact (UInt64.toNat_min _ _).trans (by rw [toNat_maxWindow]; rfl)

/-- The offset is what the page asks for, up to the largest one of a database. -/
theorem toNat_offset (p : PageRequest) : p.limitOffset.2.toNat = min p.asked.2 largestBigint := by
  cases p with
  | numbered size number =>
      -- what saturates is above the cap
      have hcap : largestBigint ≤ UInt64.size - 1 := by decide
      have hproduct : (saturatingMul (max number 1 - 1) size).toNat =
          min (asked (.numbered size number)).2 (UInt64.size - 1) := by
        rw [toNat_saturatingMul, toNat_pagesBefore, asked]
      rw [limitOffset, UInt64.toNat_min, hproduct, toNat_maxWindow, Nat.min_assoc,
        Nat.min_eq_right hcap]
  | window limit offset =>
      rw [limitOffset, UInt64.toNat_min, toNat_maxWindow, asked]

/-- The number of pages is the quotient rounded up. -/
theorem toNat_pageCount (rowCount size : UInt64) :
    (pageCount rowCount size).toNat = rowCount.toNat ⌈/⌉ size.toNat := by
  by_cases hsize : size = 0
  · rw [pageCount, if_pos hsize, hsize]
    exact (ceilDiv_zero _).symm
  have hpos : 0 < size.toNat := Nat.pos_of_ne_zero fun h => hsize (UInt64.toNat_inj.mp h)
  have hexact : rowCount % size = 0 ↔ rowCount.toNat % size.toNat = 0 := by
    rw [← UInt64.toNat_inj, UInt64.toNat_mod]
    rfl
  -- the quotient rounded up is the least number of pages that have room for all rows
  refine eq_of_forall_ge_iff fun count => ?_
  rw [ceilDiv_le_iff_le_mul hpos, ← Nat.div_add_mod rowCount.toNat size.toNat, pageCount,
    if_neg hsize]
  split
  case isTrue h =>
    rw [hexact.mp h, Nat.add_zero, UInt64.toNat_div]
    exact (Nat.mul_le_mul_left_iff hpos).symm
  case isFalse h =>
    have hrest : 0 < rowCount.toNat % size.toNat := Nat.pos_of_ne_zero (mt hexact.mpr h)
    have hless : rowCount.toNat % size.toNat < size.toNat := Nat.mod_lt _ hpos
    have hword : rowCount.toNat / size.toNat + 1 < 2 ^ 64 := by
      have hhalf : rowCount.toNat / size.toNat ≤ rowCount.toNat / 2 :=
        Nat.div_le_div_left (by omega) (by decide)
      have hrows := rowCount.toNat_lt
      omega
    rw [UInt64.toNat_add, UInt64.toNat_div, UInt64.toNat_one, Nat.mod_eq_of_lt hword]
    constructor
    · intro hcount
      calc size.toNat * (rowCount.toNat / size.toNat) + rowCount.toNat % size.toNat
        _ ≤ size.toNat * (rowCount.toNat / size.toNat + 1) := by
            rw [Nat.mul_add_one]
            exact Nat.add_le_add_left hless.le _
        _ ≤ size.toNat * count := Nat.mul_le_mul_left _ hcount
    · intro hroom
      exact Nat.lt_of_mul_lt_mul_left (Nat.lt_of_lt_of_le (Nat.lt_add_of_pos_right hrest) hroom)

/-! ### Exact windows -/

/-- **Windows are exact up to one cap.**  The limit and the offset of any request are what it asks for
in unbounded numbers, each capped once at the largest number that the database accepts, so that none is
above that; and the offset does not decrease with the number of the page. -/
theorem limitOffset_exact :
    (∀ size number : UInt64,
      (numbered size number).limitOffset.1.toNat = min size.toNat largestBigint ∧
      (numbered size number).limitOffset.2.toNat =
        min ((max number.toNat 1 - 1) * size.toNat) largestBigint) ∧
    (∀ limit offset : UInt64,
      (window limit offset).limitOffset.1.toNat = min limit.toNat largestBigint ∧
      (window limit offset).limitOffset.2.toNat = min offset.toNat largestBigint) ∧
    (∀ p : PageRequest,
      p.limitOffset.1.toNat ≤ largestBigint ∧ p.limitOffset.2.toNat ≤ largestBigint) ∧
    ∀ size number number' : UInt64, number ≤ number' →
      (numbered size number).limitOffset.2 ≤ (numbered size number').limitOffset.2 := by
  refine ⟨fun size number => ⟨toNat_limit _, toNat_offset _⟩,
    fun limit offset => ⟨toNat_limit _, toNat_offset _⟩, fun p => ⟨?_, ?_⟩,
    fun size number number' h => ?_⟩
  · rw [toNat_limit]
    exact Nat.min_le_right _ _
  · rw [toNat_offset]
    exact Nat.min_le_right _ _
  · have hbefore : max number.toNat 1 - 1 ≤ max number'.toNat 1 - 1 :=
      Nat.sub_le_sub_right (max_le_max_right 1 (UInt64.le_iff_toNat_le.mp h)) 1
    rw [UInt64.le_iff_toNat_le, toNat_offset, toNat_offset]
    exact min_le_min_right _ (Nat.mul_le_mul_right _ hbefore)

/-- The product of the largest words is capped, and page 0 is the first one. -/
example : (numbered maxWord maxWord).limitOffset = (maxWindow, maxWindow) ∧
    (numbered 10 0).limitOffset = (10, 0) := by
  decide

/-! ### The pages of a result -/

/-- The row is in the window of the page; the first row has the index 0. -/
def Shows (p : PageRequest) (row : Nat) : Prop :=
  p.limitOffset.2.toNat ≤ row ∧ row < p.limitOffset.2.toNat + p.limitOffset.1.toNat

/-- The conditions on `count` pages of a size to make up a result: each row is on one of them and on no
other, none of them is without a row, and there are no rows on later pages. -/
structure Tiles (size : UInt64) (rows : Nat) (count : UInt64) : Prop where
  once   : ∀ row < rows,
    ∃! number : UInt64, (1 ≤ number ∧ number ≤ count) ∧ (numbered size number).Shows row
  filled : ∀ number : UInt64, 1 ≤ number → number ≤ count →
    ∃ row < rows, (numbered size number).Shows row
  ended  : ∀ number : UInt64, count < number → ∀ row < rows, ¬ (numbered size number).Shows row

/-- The number of the page on which a row is. -/
def pageOf (size : UInt64) (row : Nat) : UInt64 :=
  UInt64.ofNat (row / size.toNat + 1)

/-- Below the cap a window holds the rows that the page asks for. -/
theorem shows_iff {p : PageRequest} {row : Nat} (hrow : row < largestBigint) :
    p.Shows row ↔ p.asked.2 ≤ row ∧ row < p.asked.2 + p.asked.1 := by
  rw [Shows, toNat_limit, toNat_offset]
  omega

section

variable {row : Nat}

/-- A row is on the page that its position divided by the size gives, counted from one. -/
theorem toNat_pageOf (hrow : row < largestBigint) :
    (pageOf size row).toNat = row / size.toNat + 1 := by
  have hquotient : row / size.toNat ≤ row := Nat.div_le_self row size.toNat
  have hcap : largestBigint + 1 < UInt64.size := by decide
  exact UInt64.toNat_ofNat_of_lt' (by omega)

theorem one_le_pageOf (hrow : row < largestBigint) : 1 ≤ pageOf size row := by
  rw [UInt64.le_iff_toNat_le, toNat_pageOf hrow]
  exact Nat.le_add_left 1 _

/-- Below the cap the page of a row shows it, and no other page does. -/
theorem shows_numbered_iff (hsize : 1 ≤ size) (hnumber : 1 ≤ number) (hrow : row < largestBigint) :
    (numbered size number).Shows row ↔ number = pageOf size row := by
  have hpos : 0 < size.toNat := UInt64.le_iff_toNat_le.mp hsize
  have hone : 1 ≤ number.toNat := UInt64.le_iff_toNat_le.mp hnumber
  have hquotient : number = pageOf size row ↔ row / size.toNat = number.toNat - 1 := by
    rw [← UInt64.toNat_inj, toNat_pageOf hrow]
    omega
  rw [shows_iff hrow, hquotient, Nat.div_eq_iff hpos, asked, Nat.max_eq_left hone]
  omega

/-- A page is counted exactly if the pages before it leave a row. -/
theorem lt_pageCount_iff (hsize : 1 ≤ size) (before : Nat) :
    before < (pageCount rowCount size).toNat ↔ size.toNat * before < rowCount.toNat := by
  have hpos : 0 < size.toNat := UInt64.le_iff_toNat_le.mp hsize
  rw [toNat_pageCount, ← Nat.not_le, ceilDiv_le_iff_le_mul hpos, Nat.not_le]

/-- A row among those there are is on one of the pages. -/
theorem pageOf_le_pageCount (hsize : 1 ≤ size) (hcap : row < largestBigint)
    (hrow : row < rowCount.toNat) : pageOf size row ≤ pageCount rowCount size := by
  rw [UInt64.le_iff_toNat_le, toNat_pageOf hcap]
  exact (lt_pageCount_iff hsize _).mpr (Nat.lt_of_le_of_lt (Nat.mul_div_le row size.toNat) hrow)

end

/-- A counted page shows the row that follows those of the pages before it. -/
theorem exists_shown (hsize : 1 ≤ size) (hrows : rowCount.toNat ≤ largestBigint)
    (hnumber : 1 ≤ number) (hcount : number ≤ pageCount rowCount size) :
    ∃ row < rowCount.toNat, (numbered size number).Shows row := by
  have hpos : 0 < size.toNat := UInt64.le_iff_toNat_le.mp hsize
  have hone : 1 ≤ number.toNat := UInt64.le_iff_toNat_le.mp hnumber
  have hbefore : number.toNat - 1 < (pageCount rowCount size).toNat :=
    Nat.lt_of_lt_of_le (Nat.sub_one_lt_of_lt hone) (UInt64.le_iff_toNat_le.mp hcount)
  have hrow : size.toNat * (number.toNat - 1) < rowCount.toNat :=
    (lt_pageCount_iff hsize _).mp hbefore
  have hcap : size.toNat * (number.toNat - 1) < largestBigint := Nat.lt_of_lt_of_le hrow hrows
  refine ⟨_, hrow, (shows_numbered_iff hsize hnumber hcap).mpr ?_⟩
  rw [← UInt64.toNat_inj, toNat_pageOf hcap, Nat.mul_div_cancel_left _ hpos,
    Nat.sub_add_cancel hone]

/-- **Pages tile the result.**  For pages of at least one row, and as many rows as the database can
skip, the metadata of any page counts pages such that each row is in the window of exactly one of them,
none of them is without a row, and no later page has one. -/
theorem pages_tile (hsize : 1 ≤ size) (hrows : rowCount.toNat ≤ largestBigint) (number : UInt64) :
    ∃ count, (numbered size number).metadata rowCount =
        .numbered (max number 1) size rowCount count ∧
      Tiles size rowCount.toNat count := by
  have hcap {row : Nat} (hrow : row < rowCount.toNat) : row < largestBigint :=
    Nat.lt_of_lt_of_le hrow hrows
  refine ⟨pageCount rowCount size, rfl, ⟨fun row hrow => ?_, fun number hnumber hcount =>
    exists_shown hsize hrows hnumber hcount, fun number hcount row hrow hshows => ?_⟩⟩
  case refine_1 =>
    have hfirst : 1 ≤ pageOf size row := one_le_pageOf (hcap hrow)
    refine ⟨pageOf size row, ⟨⟨hfirst, pageOf_le_pageCount hsize (hcap hrow) hrow⟩,
      (shows_numbered_iff hsize hfirst (hcap hrow)).mpr rfl⟩, ?_⟩
    rintro number ⟨⟨hnumber, -⟩, hshows⟩
    exact (shows_numbered_iff hsize hnumber (hcap hrow)).mp hshows
  case refine_2 =>
    have hnumber : 1 ≤ number := by
      rw [UInt64.le_iff_toNat_le]
      exact Nat.succ_le_of_lt (Nat.zero_lt_of_lt (UInt64.lt_iff_toNat_lt.mp hcount))
    obtain rfl := (shows_numbered_iff hsize hnumber (hcap hrow)).mp hshows
    exact UInt64.not_le.mpr hcount (pageOf_le_pageCount hsize (hcap hrow) hrow)

/-- As many rows as there can be, on pages of seven, the last of them full. -/
theorem sevens_tile :
    (1 : UInt64) ≤ 7 ∧ maxWindow.toNat ≤ largestBigint ∧
      (numbered 7 0).metadata maxWindow = .numbered 1 7 maxWindow 1317624576693539401 ∧
      Tiles 7 maxWindow.toNat 1317624576693539401 := by
  have hsize : (1 : UInt64) ≤ 7 := by decide
  have hrows : maxWindow.toNat ≤ largestBigint := by decide
  have hcounted : (numbered 7 0).metadata maxWindow =
      .numbered 1 7 maxWindow 1317624576693539401 := by decide
  obtain ⟨count, hmetadata, htiles⟩ := pages_tile hsize hrows 0
  rw [hcounted] at hmetadata
  cases hmetadata
  exact ⟨hsize, hrows, hcounted, htiles⟩

/-- Behind the cap pages repeat. -/
example : (numbered 1 0x8000000000000000).limitOffset =
    (numbered 1 0x8000000000000001).limitOffset := by
  decide

end PageRequest

end ResourceQuery
