import Mathlib.Data.List.Basic
import Mathlib.Tactic.Common

/-!
# A linear space of cells laid over pages

A store is a function from a page number and an offset to a cell. The cells of the pages
from `base` on, `size` to a page, form one linear space: cell `i` stands at offset
`i % size` of page `base + i / size`. A write goes to one page; what it does to the linear
space is the same write at a linear position, as long as it stays inside the page.

Results:
1. `cell_writePage`: a write inside a page, seen from the linear space.
2. `content_writePage_of_le`: a write at or behind a position leaves the cells before it.
3. `content_add`: the first cells and the ones behind them.
-/

namespace PagedStore

variable {α : Type}

/-- Cell `i` of the linear space that starts at page `base`. -/
def cell (size base : Nat) (pages : Nat → Nat → α) (i : Nat) : α :=
  pages (base + i / size) (i % size)

/-- Overwrite the cells of one page from an offset on. -/
def writePage (pages : Nat → Nat → α) (page offset : Nat) (cells : List α) : Nat → Nat → α :=
  fun p o => if p = page ∧ offset ≤ o then (cells[o - offset]?).getD (pages p o) else pages p o

/-- The `n` cells from position `i` on. -/
def segment (size base : Nat) (pages : Nat → Nat → α) (i n : Nat) : List α :=
  (List.range n).map (fun j => cell size base pages (i + j))

/-- The first `n` cells. -/
def content (size base : Nat) (pages : Nat → Nat → α) (n : Nat) : List α :=
  segment size base pages 0 n

section

variable {size base : Nat} {pages pages' : Nat → Nat → α}

theorem length_segment (i n : Nat) : (segment size base pages i n).length = n := by
  simp [segment]

theorem length_content (n : Nat) : (content size base pages n).length = n := length_segment 0 n

theorem segment_congr {i n : Nat}
    (h : ∀ j, i ≤ j → j < i + n → cell size base pages j = cell size base pages' j) :
    segment size base pages i n = segment size base pages' i n := by
  refine List.map_congr_left fun j hj => h (i + j) (Nat.le_add_right i j) ?_
  exact Nat.add_lt_add_left (List.mem_range.mp hj) i

theorem segment_add (i n m : Nat) :
    segment size base pages i (n + m) =
      segment size base pages i n ++ segment size base pages (i + n) m := by
  simp only [segment, List.range_add, List.map_append, List.map_map]
  congr 1
  refine List.map_congr_left fun j _ => ?_
  rw [Function.comp_apply, Nat.add_assoc]

theorem content_add (n m : Nat) :
    content size base pages (n + m) =
      content size base pages n ++ segment size base pages n m := by
  rw [content, segment_add, Nat.zero_add]
  rfl

/-- The segment is a given list when every cell of it is. -/
theorem segment_eq_of_cells {i : Nat} {cells : List α}
    (h : ∀ j (hj : j < cells.length), cell size base pages (i + j) = cells.get ⟨j, hj⟩) :
    segment size base pages i cells.length = cells := by
  refine List.ext_getElem (length_segment ..) fun j hj hj' => ?_
  simp only [segment, List.getElem_map, List.getElem_range]
  exact h j hj'

theorem writePage_other {page offset : Nat} {cells : List α} {p : Nat} (hp : p ≠ page) :
    writePage pages page offset cells p = pages p := by
  funext o
  rw [writePage, if_neg (fun h => hp h.1)]

/-- A write inside a page is a write at the linear position it starts at. -/
theorem cell_writePage (hsize : 0 < size) {pos : Nat} {cells : List α}
    (hfit : pos % size + cells.length ≤ size) (i : Nat) :
    cell size base (writePage pages (base + pos / size) (pos % size) cells) i =
      if pos ≤ i then (cells[i - pos]?).getD (cell size base pages i)
      else cell size base pages i := by
  have hpos := Nat.div_add_mod pos size
  have hi := Nat.div_add_mod i size
  have hmod := Nat.mod_lt i hsize
  unfold cell writePage
  rcases Nat.lt_trichotomy (i / size) (pos / size) with hlt | heq | hgt
  · have hmul : size * (i / size + 1) ≤ size * (pos / size) := Nat.mul_le_mul_left size hlt
    rw [Nat.mul_add, Nat.mul_one] at hmul
    rw [if_neg (by omega), if_neg (by omega)]
  · rw [heq] at hi ⊢
    rcases Nat.lt_or_ge i pos with hlt | hge
    · rw [if_neg (by omega), if_neg (by omega)]
    · rw [if_pos ⟨rfl, by omega⟩, if_pos hge]
      have hsub : i % size - pos % size = i - pos := by omega
      rw [hsub]
  · have hmul : size * (pos / size + 1) ≤ size * (i / size) := Nat.mul_le_mul_left size hgt
    rw [Nat.mul_add, Nat.mul_one] at hmul
    rw [if_neg (by omega)]
    split
    · rw [List.getElem?_eq_none (by omega)]
      rfl
    · rfl

/-- A write at or behind position `n` leaves the first `n` cells as they are. -/
theorem content_writePage_of_le (hsize : 0 < size) {pos n : Nat} {cells : List α}
    (hfit : pos % size + cells.length ≤ size) (hle : n ≤ pos) :
    content size base (writePage pages (base + pos / size) (pos % size) cells) n =
      content size base pages n := by
  refine segment_congr fun j _ hj => ?_
  rw [cell_writePage hsize hfit, if_neg (by omega)]

/-- Directly behind a segment, a write that stays inside a page extends it. -/
theorem segment_writePage (hsize : 0 < size) {start pos n : Nat} {cells : List α}
    (hfit : pos % size + cells.length ≤ size) (hpos : pos = start + n) :
    segment size base (writePage pages (base + pos / size) (pos % size) cells) start
      (n + cells.length) = segment size base pages start n ++ cells := by
  rw [segment_add]
  congr 1
  · refine segment_congr fun j _ hj => ?_
    rw [cell_writePage hsize hfit, if_neg (by omega)]
  · refine segment_eq_of_cells fun j hj => ?_
    rw [cell_writePage hsize hfit, if_pos (by omega)]
    have hsub : start + n + j - pos = j := by omega
    rw [hsub, List.getElem?_eq_getElem hj]
    rfl

end

end PagedStore
