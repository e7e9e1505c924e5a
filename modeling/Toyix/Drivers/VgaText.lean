import Mathlib.Data.List.GetD
import Mathlib.Logic.Function.Basic
import Toyix.Library.Layout

/-!
# The text screen

`drivers/console/vga_text.c`. The screen is the memory from `0xB8000` on, a word for each cell; the
driver keeps the cursor. What is behind the screen is memory as well, which the driver must not touch.

Without backspaces the screen shows the end of the text as it is laid out on a page without bounds. With
backspaces, everything from the cursor on is blank at all times; so a character can be erased again.
-/

namespace Toyix.Drivers

open Library.Layout Function

/-- `VGA_WIDTH`. -/
def vgaWidth : Nat := 80
/-- `VGA_HEIGHT`. -/
def vgaHeight : Nat := 25
/-- `VGA_BLACK`. -/
def vgaBlack : UInt8 := 0
/-- `VGA_LIGHT_GREY`. -/
def vgaLightGrey : UInt8 := 7

/-- The character `\n`. -/
def newline : UInt8 := 10
/-- The character `\b`. -/
def backspace : UInt8 := 8
/-- A blank. -/
def space : UInt8 := 32

/-! ## The driver -/

/-- The memory at `vga_buffer` and the static variables. -/
structure Vga where
  buffer : Nat → UInt16
  row : Nat
  column : Nat
  color : UInt8

/-- `vga_entry_color`. -/
def vgaEntryColor (fg bg : UInt8) : UInt8 := fg ||| (bg <<< 4)

/-- `vga_entry`. -/
def vgaEntry (ch entryColor : UInt8) : UInt16 := ch.toUInt16 ||| (entryColor.toUInt16 <<< 8)

/-- `vga_buffer[i] = entry`. -/
def Vga.store (i : Nat) (entry : UInt16) (vga : Vga) : Vga :=
  { vga with buffer := update vga.buffer i entry }

/-- The first rounds of the loop of `vga_clear_row`. -/
def clearCells (y : Nat) : Nat → Vga → Vga
  | 0, vga => vga
  | x + 1, vga =>
    let vga := clearCells y x vga
    vga.store (y * vgaWidth + x) (vgaEntry space vga.color)

/-- `vga_clear_row`. -/
def vgaClearRow (y : Nat) (vga : Vga) : Vga := clearCells y vgaWidth vga

/-- The first rounds of the inner loop of `vga_scroll`. -/
def copyCells (y : Nat) : Nat → Vga → Vga
  | 0, vga => vga
  | x + 1, vga =>
    let vga := copyCells y x vga
    vga.store ((y - 1) * vgaWidth + x) (vga.buffer (y * vgaWidth + x))

/-- The first rounds of the outer loop of `vga_scroll`, which starts at row 1. -/
def copyRows : Nat → Vga → Vga
  | 0, vga => vga
  | rounds + 1, vga => copyCells (rounds + 1) vgaWidth (copyRows rounds vga)

/-- `vga_scroll`. -/
def vgaScroll (vga : Vga) : Vga :=
  let vga := copyRows (vgaHeight - 1) vga
  let vga := vgaClearRow (vgaHeight - 1) vga
  { vga with row := vgaHeight - 1 }

/-- `vga_newline`. -/
def vgaNewline (vga : Vga) : Vga :=
  let vga := { vga with column := 0, row := vga.row + 1 }
  if vga.row ≥ vgaHeight then vgaScroll vga else vga

/-- `vga_backspace`: into the row above at the start of a row. -/
def vgaBackspace (vga : Vga) : Vga :=
  if vga.column > 0 then
    let vga := { vga with column := vga.column - 1 }
    vga.store (vga.row * vgaWidth + vga.column) (vgaEntry space vga.color)
  else if vga.row > 0 then
    let vga := { vga with row := vga.row - 1, column := vgaWidth - 1 }
    vga.store (vga.row * vgaWidth + vga.column) (vgaEntry space vga.color)
  else vga

/-- `vga_putc`. -/
def vgaPutc (c : UInt8) (vga : Vga) : Vga :=
  if c = newline then vgaNewline vga
  else if c = backspace then vgaBackspace vga
  else
    let vga := vga.store (vga.row * vgaWidth + vga.column) (vgaEntry c vga.color)
    let vga := { vga with column := vga.column + 1 }
    if vga.column ≥ vgaWidth then vgaNewline vga else vga

/-- The first rounds of the loop of `vga_init`. -/
def clearRows : Nat → Vga → Vga
  | 0, vga => vga
  | rounds + 1, vga => vgaClearRow rounds (clearRows rounds vga)

/-- `vga_init`. -/
def vgaInit (vga : Vga) : Vga :=
  clearRows vgaHeight
    { vga with row := 0, column := 0, color := vgaEntryColor vgaLightGrey vgaBlack }

/-- A string written through `vga_putc`. -/
def vgaWrite (text : List UInt8) (vga : Vga) : Vga := text.foldl (fun vga c => vgaPutc c vga) vga

/-! ## The loops -/

variable {vga : Vga}

/-- One more cell is written behind those that have been written. -/
theorem update_cells (written old : Nat → UInt16) (first x : Nat) :
    update (fun i => if first ≤ i ∧ i < first + x then written i else old i) (first + x)
        (written (first + x)) =
      fun i => if first ≤ i ∧ i < first + (x + 1) then written i else old i := by
  funext i
  rw [update_apply]
  by_cases isNew : i = first + x
  · rw [if_pos isNew, if_pos (by omega), isNew]
  · rw [if_neg isNew]
    have same : (first ≤ i ∧ i < first + (x + 1)) ↔ (first ≤ i ∧ i < first + x) := by omega
    simp only [same]

/-- Blanking the first cells of a row. -/
theorem clear_cells_eq (y x : Nat) (vga : Vga) :
    clearCells y x vga = { vga with buffer := fun i =>
      if y * 80 ≤ i ∧ i < y * 80 + x then vgaEntry space vga.color else vga.buffer i } := by
  induction x with
  | zero =>
    have empty (i : Nat) : ¬ (y * 80 ≤ i ∧ i < y * 80 + 0) := by omega
    simp only [clearCells, empty, ↓reduceIte]
  | succ x ih =>
    rw [clearCells, ih, Vga.store, ← update_cells]
    rfl

/-- A row is copied to the one above; the cells that are read have not been written yet. -/
theorem copy_cells_eq (y x : Nat) (inside : x ≤ 80) (vga : Vga) :
    copyCells (y + 1) x vga = { vga with buffer := fun i =>
      if y * 80 ≤ i ∧ i < y * 80 + x then vga.buffer (i + 80) else vga.buffer i } := by
  induction x with
  | zero =>
    have empty (i : Nat) : ¬ (y * 80 ≤ i ∧ i < y * 80 + 0) := by omega
    simp only [copyCells, empty, ↓reduceIte]
  | succ x ih =>
    have read : (y + 1) * 80 + x = y * 80 + x + 80 := by omega
    rw [copyCells, ih (by omega), Vga.store, ← update_cells, vgaWidth, Nat.add_sub_cancel, read]
    dsimp only
    rw [if_neg (by omega)]

/-- The first rows are those below them. -/
theorem copy_rows_eq (rounds : Nat) (vga : Vga) :
    copyRows rounds vga = { vga with buffer := fun i =>
      if i < rounds * 80 then vga.buffer (i + 80) else vga.buffer i } := by
  induction rounds with
  | zero => simp [copyRows]
  | succ rounds ih =>
    rw [copyRows, ih, vgaWidth, copy_cells_eq rounds 80 (Nat.le_refl 80)]
    dsimp only
    congr 1
    funext i
    by_cases copied : i < rounds * 80
    · rw [if_neg (by omega), if_pos copied, if_pos (by omega)]
    · by_cases isNew : i < (rounds + 1) * 80
      · rw [if_pos (by omega), if_neg (by omega), if_pos isNew]
      · rw [if_neg (by omega), if_neg copied, if_neg isNew]

/-- The screen one row up, with a blank row below. -/
def scrolled (vga : Vga) (i : Nat) : UInt16 :=
  if i < 1920 then vga.buffer (i + 80) else if i < 2000 then vgaEntry space vga.color else vga.buffer i

/-- The loops of `vga_scroll`. -/
theorem vga_scroll_eq (vga : Vga) : vgaScroll vga = { vga with buffer := scrolled vga, row := 24 } := by
  rw [vgaScroll, vgaHeight, vgaClearRow, vgaWidth, copy_rows_eq, clear_cells_eq]
  dsimp only
  congr 1
  funext i
  rw [scrolled]
  by_cases above : i < 1920
  · rw [if_neg (by omega), if_pos (by omega), if_pos above]
  · by_cases last : i < 2000
    · rw [if_pos (by omega), if_neg above, if_pos last]
    · rw [if_neg (by omega), if_neg (by omega), if_neg above, if_neg last]

/-- The first rows are blank. -/
theorem clear_rows_eq (rounds : Nat) (vga : Vga) :
    clearRows rounds vga = { vga with buffer := fun i =>
      if i < rounds * 80 then vgaEntry space vga.color else vga.buffer i } := by
  induction rounds with
  | zero => simp [clearRows]
  | succ rounds ih =>
    rw [clearRows, ih, vgaClearRow, vgaWidth, clear_cells_eq]
    dsimp only
    congr 1
    funext i
    by_cases cleared : i < rounds * 80
    · rw [if_neg (by omega), if_pos cleared, if_pos (by omega)]
    · by_cases isNew : i < (rounds + 1) * 80
      · rw [if_pos (by omega), if_pos isNew]
      · rw [if_neg (by omega), if_neg cleared, if_neg isNew]

/-- A blank cell. -/
def blank : UInt16 := vgaEntry space 7

/-- The blank screen, with the cursor in its corner. -/
theorem vga_init_eq (vga : Vga) :
    vgaInit vga = ⟨fun i => if i < 2000 then blank else vga.buffer i, 0, 0, 7⟩ := by
  have isColor : vgaEntryColor vgaLightGrey vgaBlack = 7 := by decide
  rw [vgaInit, isColor, vgaHeight, clear_rows_eq]
  rfl

/-- A new row scrolls at the bottom only. -/
theorem vga_newline_eq (vga : Vga) :
    vgaNewline vga = if vga.row + 1 < 25 then { vga with column := 0, row := vga.row + 1 }
      else { vga with buffer := scrolled vga, column := 0, row := 24 } := by
  rw [vgaNewline]
  dsimp only
  by_cases inside : vga.row + 1 < 25
  · rw [if_neg (by rw [vgaHeight]; omega), if_pos inside]
  · rw [if_pos (by rw [vgaHeight]; omega), if_neg inside, vga_scroll_eq]
    rfl

/-! ## The cursor -/

/-- The cursor is on the screen or just behind a row, everything from it on is blank, and the memory
behind the screen is as it was. -/
structure Clean (start : Nat → UInt16) (vga : Vga) : Prop where
  row : vga.row < 25
  column : vga.column ≤ 80
  color : vga.color = 7
  behind : ∀ i, vga.row * 80 + vga.column ≤ i → i < 2000 → vga.buffer i = blank
  outside : ∀ i, 2000 ≤ i → vga.buffer i = start i

variable {start : Nat → UInt16}

/-- The screen is clean at the start. -/
theorem vga_init_clean (vga : Vga) : Clean vga.buffer (vgaInit vga) := by
  rw [vga_init_eq]
  constructor
  · exact Nat.zero_lt_succ _
  · exact Nat.zero_le _
  · rfl
  · intro i _ inside
    exact if_pos inside
  · intro i outside
    exact if_neg (Nat.not_lt.mpr outside)

/-- A new row begins blank. -/
theorem Clean.new_row (clean : Clean start vga) :
    Clean start (vgaNewline vga) ∧ (vgaNewline vga).column = 0 := by
  rw [vga_newline_eq]
  by_cases inside : vga.row + 1 < 25
  · rw [if_pos inside]
    refine ⟨?_, rfl⟩
    constructor
    · exact inside
    · exact Nat.zero_le _
    · exact clean.color
    · intro i low high
      have column := clean.column
      dsimp only at low
      exact clean.behind i (by omega) high
    · exact clean.outside
  · rw [if_neg inside]
    refine ⟨?_, rfl⟩
    constructor
    · exact Nat.lt_succ_self 24
    · exact Nat.zero_le _
    · exact clean.color
    · intro i low high
      dsimp only at low ⊢
      rw [scrolled, if_neg (by omega), if_pos high, clean.color, blank]
    · intro i outside
      dsimp only
      rw [scrolled, if_neg (by omega), if_neg (by omega)]
      exact clean.outside i outside

/-- The cell at the cursor is written and the cursor goes on. -/
theorem Clean.put (clean : Clean start vga) (inRow : vga.column < 80) (entry : UInt16) :
    Clean start ⟨update vga.buffer (vga.row * 80 + vga.column) entry, vga.row,
      vga.column + 1, vga.color⟩ := by
  have onScreen := clean.row
  constructor
  · exact onScreen
  · exact inRow
  · exact clean.color
  · intro i low high
    dsimp only at low ⊢
    rw [update_apply, if_neg (by omega)]
    exact clean.behind i (by omega) high
  · intro i outside
    dsimp only
    rw [update_apply, if_neg (by omega)]
    exact clean.outside i outside

/-- The cursor goes to the cell before it and erases it. -/
theorem Clean.back (clean : Clean start vga) {row column : Nat} (onScreen : row < 25)
    (inRow : column < 80) (isBefore : row * 80 + column + 1 = vga.row * 80 + vga.column) :
    Clean start ⟨update vga.buffer (row * 80 + column) (vgaEntry space vga.color), row, column,
      vga.color⟩ := by
  constructor
  · exact onScreen
  · exact Nat.le_of_lt inRow
  · exact clean.color
  · intro i low high
    dsimp only at low ⊢
    rw [update_apply, clean.color]
    by_cases isCell : i = row * 80 + column
    · rw [if_pos isCell, blank]
    · rw [if_neg isCell]
      exact clean.behind i (by omega) high
  · intro i outside
    dsimp only
    rw [update_apply, if_neg (by omega)]
    exact clean.outside i outside

/-- `vga_backspace` in numbers. -/
theorem vga_backspace_eq (vga : Vga) : vgaBackspace vga =
    if vga.column > 0 then ⟨update vga.buffer (vga.row * 80 + (vga.column - 1))
      (vgaEntry space vga.color), vga.row, vga.column - 1, vga.color⟩
    else if vga.row > 0 then ⟨update vga.buffer ((vga.row - 1) * 80 + 79)
      (vgaEntry space vga.color), vga.row - 1, 79, vga.color⟩
    else vga := rfl

/-- A character that is shown. -/
theorem vga_putc_eq (vga : Vga) {c : UInt8} (notNewline : c ≠ newline) (notBackspace : c ≠ backspace) :
    vgaPutc c vga =
      if vga.column + 1 < 80 then ⟨update vga.buffer (vga.row * 80 + vga.column)
        (vgaEntry c vga.color), vga.row, vga.column + 1, vga.color⟩
      else vgaNewline ⟨update vga.buffer (vga.row * 80 + vga.column) (vgaEntry c vga.color),
        vga.row, vga.column + 1, vga.color⟩ := by
  rw [vgaPutc, if_neg notNewline, if_neg notBackspace]
  by_cases inRow : vga.column + 1 < 80
  · rw [if_pos inRow]
    exact if_neg (Nat.not_le.mpr inRow)
  · rw [if_neg inRow]
    exact if_pos (Nat.not_lt.mp inRow)

/-- One character, whatever it is. -/
theorem Clean.putc (clean : Clean start vga) (inRow : vga.column < 80) (c : UInt8) :
    Clean start (vgaPutc c vga) ∧ (vgaPutc c vga).column < 80 := by
  have onScreen := clean.row
  by_cases isNewline : c = newline
  · obtain ⟨cleanNext, column⟩ := clean.new_row
    rw [vgaPutc, if_pos isNewline]
    exact ⟨cleanNext, by omega⟩
  · by_cases isBackspace : c = backspace
    · rw [vgaPutc, if_neg isNewline, if_pos isBackspace, vga_backspace_eq]
      by_cases inside : vga.column > 0
      · rw [if_pos inside]
        exact ⟨clean.back onScreen (by omega) (by omega), by dsimp only; omega⟩
      · rw [if_neg inside]
        by_cases below : vga.row > 0
        · rw [if_pos below]
          exact ⟨clean.back (by omega) (by omega) (by omega), Nat.lt_succ_self 79⟩
        · rw [if_neg below]
          exact ⟨clean, inRow⟩
    · rw [vga_putc_eq vga isNewline isBackspace]
      by_cases fits : vga.column + 1 < 80
      · rw [if_pos fits]
        exact ⟨clean.put inRow _, fits⟩
      · rw [if_neg fits]
        obtain ⟨cleanNext, column⟩ := (clean.put inRow (vgaEntry c vga.color)).new_row
        exact ⟨cleanNext, by omega⟩

/-- Any string, by induction on its characters. -/
theorem vga_write_clean (text : List UInt8) (clean : Clean start vga) (inRow : vga.column < 80) :
    Clean start (vgaWrite text vga) ∧ (vgaWrite text vga).column < 80 := by
  induction text generalizing vga with
  | nil => exact ⟨clean, inRow⟩
  | cons c text ih =>
    obtain ⟨cleanNext, inRowNext⟩ := clean.putc inRow c
    exact ih cleanNext inRowNext

/-! ## Erasing -/

/-- A blank cell is blank again once it is erased. -/
theorem store_blank {i : Nat} (isBlank : vga.buffer i = blank) (entry : UInt16) :
    update (update vga.buffer i entry) i blank = vga.buffer := by
  rw [update_idem, ← isBlank, update_eq_self]

/-- A character and a backspace, at a cell that is not the last of the screen. -/
theorem Clean.erased (clean : Clean start vga) (inRow : vga.column < 80) {c : UInt8}
    (notNewline : c ≠ newline) (notBackspace : c ≠ backspace)
    (notLast : ¬ (vga.row = 24 ∧ vga.column = 79)) : vgaPutc backspace (vgaPutc c vga) = vga := by
  have onScreen := clean.row
  have isBlank : vga.buffer (vga.row * 80 + vga.column) = blank :=
    clean.behind _ (Nat.le_refl _) (by omega)
  rw [vga_putc_eq vga notNewline notBackspace, vgaPutc, if_neg (by decide), if_pos rfl]
  have isEntry : vgaEntry space vga.color = blank := by rw [clean.color, blank]
  by_cases fits : vga.column + 1 < 80
  · rw [if_pos fits, vga_backspace_eq, if_pos (Nat.succ_pos _)]
    dsimp only
    rw [Nat.add_sub_cancel, isEntry, store_blank isBlank]
  · have atEnd : vga.column = 79 := by omega
    rw [if_neg fits, vga_newline_eq, if_pos (by dsimp only; omega), vga_backspace_eq,
      if_neg (by dsimp only; omega), if_pos (by dsimp only; omega)]
    dsimp only
    rw [Nat.add_sub_cancel, ← atEnd, isEntry, store_blank isBlank]

/-- A character and a backspace at the last cell: the screen has scrolled. -/
theorem Clean.erased_last (clean : Clean start vga) {c : UInt8} (notNewline : c ≠ newline)
    (notBackspace : c ≠ backspace) (isRow : vga.row = 24) (isColumn : vga.column = 79) :
    vgaPutc backspace (vgaPutc c vga) = ⟨scrolled vga, 23, 79, vga.color⟩ := by
  have isBlank : vga.buffer 1999 = blank := clean.behind _ (by omega) (by decide)
  have isEntry : vgaEntry space vga.color = blank := by rw [clean.color, blank]
  rw [vga_putc_eq vga notNewline notBackspace, if_neg (by omega), vga_newline_eq,
    if_neg (by dsimp only; omega), vgaPutc, if_neg (by decide), if_pos rfl, vga_backspace_eq,
    if_neg (Nat.lt_irrefl 0), if_pos (Nat.zero_lt_succ 23)]
  dsimp only
  congr 1
  funext i
  rw [update_apply, isEntry]
  by_cases isCell : i = (24 - 1) * 80 + 79
  · subst isCell
    rw [if_pos rfl, scrolled, if_pos (by decide)]
    exact isBlank.symm
  · rw [if_neg isCell]
    unfold scrolled
    dsimp only
    rw [isRow, isColumn]
    by_cases above : i < 1920
    · rw [if_pos above, if_pos above, update_apply, if_neg (by omega)]
    · rw [if_neg above, if_neg above]
      by_cases last : i < 2000
      · rw [if_pos last, if_pos last]
      · rw [if_neg last, if_neg last, update_apply, if_neg (by omega)]

/-- The cursor goes up with the screen. -/
theorem Clean.scrolled_up (clean : Clean start vga) (isRow : vga.row = 24) (isColumn : vga.column = 79) :
    Clean start ⟨scrolled vga, 23, 79, vga.color⟩ := by
  constructor
  · exact Nat.lt_of_sub_eq_succ rfl
  · exact Nat.le_succ 79
  · exact clean.color
  · intro i low high
    dsimp only at low ⊢
    rw [scrolled]
    by_cases above : i < 1920
    · rw [if_pos above]
      exact clean.behind _ (by omega) (by omega)
    · rw [if_neg above, if_pos high, clean.color, blank]
  · intro i outside
    dsimp only
    rw [scrolled, if_neg (by omega), if_neg (by omega)]
    exact clean.outside i outside

/-! ## The end of the text -/

/-- The character in a cell of a page, with blanks behind each row and below the last. -/
def cellOf (rows : List (List UInt8)) (y x : Nat) : UInt8 := (rows.getD y []).getD x space

/-- The last row, -/
theorem cell_of_last (earlier : List (List UInt8)) (current : List UInt8) (x : Nat) :
    cellOf (earlier ++ [current]) earlier.length x = current.getD x space := by
  rw [cellOf, List.getD_append_right _ _ _ _ (Nat.le_refl _), Nat.sub_self]
  rfl

/-- the rows below it, -/
theorem cell_of_below (rows : List (List UInt8)) {y : Nat} (below : rows.length ≤ y) (x : Nat) :
    cellOf rows y x = space := by
  rw [cellOf, List.getD_eq_default _ _ below]
  rfl

/-- and those above it. -/
theorem cell_of_other (earlier : List (List UInt8)) (current : List UInt8) {y : Nat}
    (other : y ≠ earlier.length) (x : Nat) :
    cellOf (earlier ++ [current]) y x = cellOf earlier y x := by
  by_cases above : y < earlier.length
  · rw [cellOf, cellOf, List.getD_append _ _ _ _ above]
  · rw [cell_of_below, cell_of_below earlier (Nat.not_lt.mp above)]
    rw [List.length_append, List.length_singleton]
    omega

/-- A row that is empty shows nothing. -/
theorem cell_of_new_row (rows : List (List UInt8)) (y x : Nat) :
    cellOf (rows ++ [[]]) y x = cellOf rows y x := by
  by_cases isNew : y = rows.length
  · rw [isNew, cell_of_last, cell_of_below rows (Nat.le_refl _)]
    rfl
  · exact cell_of_other rows [] isNew x

/-- The screen shows the last rows of a page; the last of all is where the cursor is. -/
structure Shows (vga : Vga) (earlier : List (List UInt8)) (current : List UInt8) : Prop where
  row : vga.row = min earlier.length 24
  column : vga.column = current.length
  color : vga.color = 7
  cells : ∀ y < 25, ∀ x < 80, vga.buffer (y * 80 + x) =
    vgaEntry (cellOf (earlier ++ [current]) (earlier.length - 24 + y) x) 7

variable {earlier : List (List UInt8)} {current : List UInt8}

/-- A character at the end of the row. -/
theorem Shows.put (shows : Shows vga earlier current) (inRow : current.length < 80) (c : UInt8) :
    Shows ⟨update vga.buffer (vga.row * 80 + vga.column) (vgaEntry c vga.color), vga.row,
      vga.column + 1, vga.color⟩ earlier (current ++ [c]) := by
  have isRow := shows.row
  have isColumn := shows.column
  constructor
  · exact isRow
  · dsimp only
    rw [isColumn, List.length_append, List.length_singleton]
  · exact shows.color
  · intro y onScreen x inside
    dsimp only
    rw [update_apply, shows.color]
    by_cases isLast : earlier.length - 24 + y = earlier.length
    · rw [isLast, cell_of_last]
      by_cases isCell : x = current.length
      · rw [if_pos (by omega), isCell, List.getD_append_right _ _ _ _ (Nat.le_refl _), Nat.sub_self]
        rfl
      · rw [if_neg (by omega), shows.cells y onScreen x inside, isLast, cell_of_last]
        by_cases before : x < current.length
        · rw [List.getD_append _ _ _ _ before]
        · rw [List.getD_eq_default, List.getD_eq_default]
          · rw [List.length_append, List.length_singleton]
            omega
          · omega
    · rw [if_neg (by omega), shows.cells y onScreen x inside, cell_of_other _ _ isLast,
        cell_of_other _ _ isLast]

/-- The row is ended. -/
theorem Shows.new_row (shows : Shows vga earlier current) :
    Shows (vgaNewline vga) (earlier ++ [current]) [] := by
  have isRow := shows.row
  have count : (earlier ++ [current]).length = earlier.length + 1 := by
    rw [List.length_append, List.length_singleton]
  rw [vga_newline_eq]
  by_cases inside : vga.row + 1 < 25
  · rw [if_pos inside]
    constructor
    · dsimp only
      omega
    · rfl
    · exact shows.color
    · intro y onScreen x inRow
      dsimp only
      have sameFirst : (earlier ++ [current]).length - 24 = earlier.length - 24 := by omega
      rw [cell_of_new_row, sameFirst]
      exact shows.cells y onScreen x inRow
  · rw [if_neg inside]
    constructor
    · dsimp only
      omega
    · rfl
    · exact shows.color
    · intro y onScreen x inRow
      dsimp only
      rw [cell_of_new_row, scrolled]
      by_cases above : y * 80 + x < 1920
      · have nextCell : y * 80 + x + 80 = (y + 1) * 80 + x := by omega
        have nextRow : (earlier ++ [current]).length - 24 + y = earlier.length - 24 + (y + 1) := by omega
        rw [if_pos above, nextCell, nextRow]
        exact shows.cells (y + 1) (by omega) x inRow
      · rw [if_neg above, if_pos (by omega), shows.color, cell_of_below]
        omega

/-- The rows of a text on the screen. -/
abbrev vgaPage (text : List UInt8) : List (List UInt8) := page 80 (· = newline) text

/-- The screen shows the text after any string without backspaces.

Proof: by induction on the string from its end. A character that fills its row is one that is put and a
new row. -/
theorem vga_write_shows (vga : Vga) (text : List UInt8) (noBackspace : backspace ∉ text) :
    ∃ earlier current, vgaPage text = earlier ++ [current] ∧ current.length < 80 ∧
      Shows (vgaWrite text (vgaInit vga)) earlier current := by
  induction text using List.reverseRecOn with
  | nil =>
    refine ⟨[], [], page_nil 80 _, by decide, ?_⟩
    change Shows (vgaInit vga) [] []
    rw [vga_init_eq]
    constructor
    · rfl
    · rfl
    · rfl
    · intro y onScreen x inRow
      dsimp only
      rw [if_pos (by omega), cell_of_new_row, cell_of_below [] (Nat.zero_le _), blank]
  | append_singleton text c ih =>
    have notBackspace : c ≠ backspace := by
      rintro rfl
      exact noBackspace (List.mem_append_right _ List.mem_cons_self)
    obtain ⟨earlier, current, isPage, short, shows⟩ :=
      ih fun member => noBackspace (List.mem_append_left _ member)
    obtain ⟨rows, last, isPage', -, next⟩ := @page_snoc _ 80 (· = newline) (by decide) text
    obtain ⟨rfl, isLast⟩ := List.append_inj' (isPage.symm.trans isPage') rfl
    obtain rfl := (List.cons.inj isLast).1
    have written : vgaWrite (text ++ [c]) (vgaInit vga) = vgaPutc c (vgaWrite text (vgaInit vga)) := by
      rw [vgaWrite, List.foldl_append]
      rfl
    rw [written, vgaPage, next c]
    by_cases isNewline : c = newline
    · rw [if_pos (decide_eq_true isNewline), vgaPutc, if_pos isNewline]
      exact ⟨_, [], rfl, by decide, shows.new_row⟩
    · rw [if_neg (by simpa using isNewline), vga_putc_eq _ isNewline notBackspace, shows.column]
      by_cases fits : current.length + 1 < 80
      · rw [if_pos fits, if_pos fits]
        refine ⟨earlier, current ++ [c], rfl, ?_, ?_⟩
        · rw [List.length_append]
          exact fits
        · rw [← shows.column]
          exact shows.put short c
      · rw [if_neg fits, if_neg fits, ← shows.column]
        exact ⟨_, [], rfl, by decide, (shows.put short c).new_row⟩

/-- The screen is the end of a page: its last 25 rows, with blank rows below a shorter one. The cursor is
where the next character goes. -/
structure ShowsEnd (vga : Vga) (rows : List (List UInt8)) : Prop where
  rowBound : vga.row < 25
  columnBound : vga.column < 80
  row : rows.length - 25 + vga.row + 1 = rows.length
  column : rows.getLast?.map List.length = some vga.column
  cells : ∀ y < 25, ∀ x < 80,
    vga.buffer (y * 80 + x) = vgaEntry (cellOf rows (rows.length - 25 + y) x) 7

/-- The last 25 rows, counted from the top of the page. -/
theorem Shows.shows_end (shows : Shows vga earlier current) (short : current.length < 80) :
    ShowsEnd vga (earlier ++ [current]) := by
  have isRow := shows.row
  have count : (earlier ++ [current]).length = earlier.length + 1 := by
    rw [List.length_append, List.length_singleton]
  have sameFirst : (earlier ++ [current]).length - 25 = earlier.length - 24 := by omega
  constructor
  · omega
  · rw [shows.column]
    exact short
  · omega
  · rw [List.getLast?_concat, shows.column]
    rfl
  · rw [sameFirst]
    exact shows.cells

/-- For every string without backspaces, written after `vga_init`: the screen shows the end of the text
as it is laid out on a page without bounds, with the cursor where the next character goes. For every
string at all: the cursor is on the screen and nothing behind the screen is written; and a character
that is no newline or backspace, followed by backspace, space and backspace, leaves cursor and screen as
they were. If it filled the last cell, the screen is one row up, with a blank row below and that cell
blank.

Proof: the first part is by induction on the text. For the others, everything from the cursor on is
blank after every character, so that erasing a character restores the cell it was put in. -/
theorem vga_shows_end_of_text (vga : Vga) :
    (∀ text, backspace ∉ text → ShowsEnd (vgaWrite text (vgaInit vga)) (vgaPage text)) ∧
    ∀ text, (vgaWrite text (vgaInit vga)).row < 25 ∧ (vgaWrite text (vgaInit vga)).column < 80 ∧
      (∀ i, 2000 ≤ i → (vgaWrite text (vgaInit vga)).buffer i = vga.buffer i) ∧
      ∀ c, c ≠ newline → c ≠ backspace →
        let before := vgaWrite text (vgaInit vga)
        let after := vgaWrite [c, backspace, space, backspace] before
        (¬ (before.row = 24 ∧ before.column = 79) → after = before) ∧
        (before.row = 24 ∧ before.column = 79 →
          after = { before with buffer := scrolled before, row := 23 } ∧
            after.buffer (after.row * 80 + after.column) = blank) := by
  constructor
  · intro text noBackspace
    obtain ⟨earlier, current, isPage, short, shows⟩ := vga_write_shows vga text noBackspace
    rw [isPage]
    exact shows.shows_end short
  · intro text
    have startColumn : (vgaInit vga).column < 80 := by
      rw [vga_init_eq]
      exact Nat.zero_lt_succ 79
    obtain ⟨clean, inRow⟩ := vga_write_clean text (vga_init_clean vga) startColumn
    refine ⟨clean.row, inRow, clean.outside, ?_⟩
    intro c notNewline notBackspace
    generalize vgaWrite text (vgaInit vga) = before at *
    have twice : vgaWrite [c, backspace, space, backspace] before =
        vgaPutc backspace (vgaPutc space (vgaPutc backspace (vgaPutc c before))) := rfl
    have spaceShown : space ≠ newline ∧ space ≠ backspace := by decide
    dsimp only
    rw [twice]
    constructor
    · intro notLast
      rw [clean.erased inRow notNewline notBackspace notLast,
        clean.erased inRow spaceShown.1 spaceShown.2 notLast]
    · rintro ⟨isRow, isColumn⟩
      have up := clean.scrolled_up isRow isColumn
      have notLast : ¬ (23 = 24 ∧ 79 = 79) := by decide
      have onScreen : 23 * 80 + 79 < 2000 := by decide
      have again : vgaPutc backspace (vgaPutc space ⟨scrolled before, 23, 79, before.color⟩) =
          ⟨scrolled before, 23, 79, before.color⟩ :=
        up.erased (Nat.lt_succ_self 79) spaceShown.1 spaceShown.2 notLast
      rw [clean.erased_last notNewline notBackspace isRow isColumn, again, isColumn]
      exact ⟨rfl, up.behind _ (Nat.le_refl _) onScreen⟩

/-- Two lines on a screen that held something else, and a character that is erased again. -/
theorem vga_shows_two_lines :
    ShowsEnd (vgaWrite [104, 105, 10, 33] (vgaInit ⟨fun _ => 0xFFFF, 3, 4, 0x1F⟩)) [[104, 105], [33]] ∧
    vgaWrite [120, backspace, space, backspace] (vgaInit ⟨fun _ => 0xFFFF, 3, 4, 0x1F⟩) =
      vgaInit ⟨fun _ => 0xFFFF, 3, 4, 0x1F⟩ := by
  obtain ⟨shows, erases⟩ := vga_shows_end_of_text ⟨fun _ => 0xFFFF, 3, 4, 0x1F⟩
  have isPage : vgaPage [104, 105, 10, 33] = [[104, 105], [33]] := by decide
  constructor
  · rw [← isPage]
    exact shows [104, 105, 10, 33] (by decide)
  · refine ((erases []).2.2.2 120 (by decide) (by decide)).1 ?_
    rintro ⟨isRow, -⟩
    have atStart : (vgaInit ⟨fun _ => 0xFFFF, 3, 4, 0x1F⟩).row = 0 := by rw [vga_init_eq]
    exact absurd (isRow.symm.trans atStart) (by decide)

end Toyix.Drivers
