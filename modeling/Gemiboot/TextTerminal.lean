import Mathlib

/-!
# A text terminal

A fixed grid of cells with a cursor. The column may stand one past the last cell: the
wrap is put off until the next glyph. A line feed on the last row moves every row up
by one and leaves the last one blank. `shown` reads a cell by plain numbers, with
nothing outside the grid.
-/
namespace Gemiboot.TextTerminal

inductive Key (α : Type*) where
  | carriageReturn
  | lineFeed
  | glyph (a : α)

structure Terminal (α : Type*) (rows cols : ℕ) where
  cells : Fin rows → Fin cols → Option α
  row : Fin rows
  col : Fin (cols+1)

variable {α : Type*} {rows cols : ℕ}

def blank (α : Type*) (rows cols : ℕ) (h : 0 < rows) : Terminal α rows cols :=
  ⟨fun _ _ => none,⟨0,h⟩,0⟩

def scroll (cells : Fin rows → Fin cols → Option α) : Fin rows → Fin cols → Option α :=
  fun r c => if h : r.val+1 < rows then cells ⟨r.val+1,h⟩ c else none

namespace Terminal

def lineFeed (t : Terminal α rows cols) : Terminal α rows cols :=
  if h : t.row.val+1 < rows then {t with row := ⟨t.row.val+1,h⟩, col := 0}
  else {t with cells := scroll t.cells, col := 0}

def wrap (t : Terminal α rows cols) : Terminal α rows cols :=
  if t.col.val < cols then t else t.lineFeed

def put (t : Terminal α rows cols) (a : α) : Terminal α rows cols :=
  if h : t.col.val < cols then
    { t with
      cells := fun r c => if r = t.row ∧ c.val = t.col.val then some a else t.cells r c
      col := ⟨t.col.val+1,Nat.succ_lt_succ h⟩ }
  else t

def type (t : Terminal α rows cols) : Key α → Terminal α rows cols
  | .carriageReturn => {t with col := 0}
  | .lineFeed => t.lineFeed
  | .glyph a => t.wrap.put a

def typeAll (t : Terminal α rows cols) (keys : List (Key α)) : Terminal α rows cols :=
  keys.foldl type t

/-! ### Cells by number -/

def shown (t : Terminal α rows cols) (r c : ℕ) : Option α :=
  if h : r < rows ∧ c < cols then t.cells ⟨r,h.1⟩ ⟨c,h.2⟩ else none

theorem shown_outside (t : Terminal α rows cols) {r c : ℕ} (h : rows ≤ r ∨ cols ≤ c) :
    t.shown r c = none := dif_neg (by omega)

@[simp] theorem shown_blank (h : 0 < rows) (r c : ℕ) : (blank α rows cols h).shown r c = none := by
  unfold shown blank
  split_ifs <;> rfl

/-- Below the last row there is nothing, so scrolling is a shift. -/
theorem shown_scroll (t : Terminal α rows cols) (r c : ℕ) (row : Fin rows) (col : Fin (cols+1)) :
    (Terminal.mk (scroll t.cells) row col).shown r c = t.shown (r+1) c := by
  unfold shown scroll
  by_cases h : r+1 < rows ∧ c < cols
  · rw [dif_pos h,dif_pos (show r < rows ∧ c < cols from ⟨by omega,h.2⟩)]
    exact dif_pos h.1
  · rw [dif_neg h]
    split_ifs with hr
    · exact dif_neg fun h' => h ⟨h',hr.2⟩
    · rfl

theorem shown_put {t : Terminal α rows cols} (h : t.col.val < cols) (a : α) (r c : ℕ) :
    (t.put a).shown r c = if r = t.row.val ∧ c = t.col.val then some a else t.shown r c := by
  have hrow := t.row.isLt
  unfold put
  rw [dif_pos h]
  unfold shown
  by_cases hin : r < rows ∧ c < cols
  · rw [dif_pos hin,dif_pos hin]
    simp only [Fin.ext_iff]
  · rw [dif_neg hin,dif_neg hin,if_neg (by omega)]

/-! ### The cursor -/

theorem lineFeed_col (t : Terminal α rows cols) : t.lineFeed.col.val = 0 := by
  unfold lineFeed
  split_ifs <;> rfl

theorem lineFeed_down {t : Terminal α rows cols} (h : t.row.val+1 < rows) :
    t.lineFeed.row.val = t.row.val+1 ∧ ∀ r c, t.lineFeed.shown r c = t.shown r c := by
  unfold lineFeed
  rw [dif_pos h]
  exact ⟨rfl,fun _ _ => rfl⟩

theorem lineFeed_scroll {t : Terminal α rows cols} (h : ¬t.row.val+1 < rows) :
    t.lineFeed.row = t.row ∧ ∀ r c, t.lineFeed.shown r c = t.shown (r+1) c := by
  unfold lineFeed
  rw [dif_neg h]
  exact ⟨rfl,fun r c => shown_scroll t r c t.row 0⟩

theorem wrap_col {t : Terminal α rows cols} (h : 0 < cols) : t.wrap.col.val < cols := by
  unfold wrap
  split_ifs with hc
  · exact hc
  · rw [lineFeed_col]
    exact h

theorem put_cursor {t : Terminal α rows cols} (h : t.col.val < cols) (a : α) :
    (t.put a).row = t.row ∧ (t.put a).col.val = t.col.val+1 := by
  unfold put
  rw [dif_pos h]
  exact ⟨rfl,rfl⟩

end Terminal

end Gemiboot.TextTerminal
