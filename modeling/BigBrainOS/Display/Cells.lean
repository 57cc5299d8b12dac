import BigBrainOS.Theory.TextWindow
import BigBrainOS.Display.Frames

/-!
# The cells of the screen

Video memory holds 25 rows of 80 cells, a character and an attribute each. What the
functions of `lib.c` do to it is said once, cell by cell, and then as what they do to
a window on a growing text.
-/

namespace BigBrainOS
set_option autoImplicit false

open TextWindow

/-- A character and its attribute. -/
abbrev Cell := UInt8 × UInt8

/-- The number of cells of the screen. -/
abbrev numCells : Nat := 80 * 25

abbrev blankCell : Cell := (blank, attrib)

/-- A cell of video memory. -/
def cell (v : Bytes) (i : Nat) : Cell := (v (2 * i), v (2 * i + 1))

theorem cell_update (v : Bytes) (p : Nat) (c a : UInt8) (i : Nat) :
    cell (Function.update (Function.update v (2 * p) c) (2 * p + 1) a) i = if i = p then (c, a) else cell v i := by
  unfold cell
  by_cases same : i = p
  · rw [if_pos same, same, Function.update_of_ne (by omega), Function.update_self, Function.update_self]
  · rw [if_neg same, Function.update_of_ne (by omega), Function.update_of_ne (by omega), Function.update_of_ne (by omega),
      Function.update_of_ne (by omega)]

theorem SamePage.cell {v w : Bytes} (same : SamePage v w) {i : Nat} (inside : i < numCells) : cell v i = cell w i := by
  unfold BigBrainOS.cell
  simp only [numCells] at inside
  rw [same (2 * i) (by simp only [pageSize]; omega), same (2 * i + 1) (by simp only [pageSize]; omega)]

namespace Screen
variable {v : Bytes}

theorem cell_setCell {x y : Int} {p : Nat} (place : numCols * y + x = p) (c a : UInt8) (i : Nat) :
    cell (setCell v x y c a) i = if i = p then (c, a) else cell v i := by
  have offset : cellOffset x y = 2 * p := by
    rw [cellOffset, place]
    omega
  rw [setCell, offset, cell_update]

theorem cell_copyUp (v : Bytes) (x y i : Nat) :
    cell (copyUp v x y) i = if i = 80 * y + x then cell v (i + 80) else cell v i := by
  have offset : cellOffset x (y + 1) = 2 * (80 * y + x + 80) := by
    simp only [cellOffset, numCols]
    omega
  rw [copyUp, cell_setCell (p := 80 * y + x) (by simp only [numCols]; omega), offset]
  split
  · next here => rw [here]; rfl
  · rfl

/-- A row is copied from the left to the right. -/
theorem cell_copyRow (v : Bytes) (y : Nat) : ∀ n ≤ 80, ∀ i,
    cell ((List.range n).foldl (fun v (x : Nat) => copyUp v x y) v) i =
      if 80 * y ≤ i ∧ i < 80 * y + n then cell v (i + 80) else cell v i := by
  intro n
  induction n with
  | zero => intro _ i; rw [if_neg (by omega)]; rfl
  | succ n ih =>
    intro inside i
    have copied := ih (by omega)
    rw [List.range_succ, List.foldl_append, List.foldl_cons, List.foldl_nil, cell_copyUp]
    by_cases last : i = 80 * y + n
    · rw [if_pos last, copied, if_neg (by omega), if_pos (by omega)]
    · rw [if_neg last, copied]
      by_cases here : 80 * y ≤ i ∧ i < 80 * y + n
      · rw [if_pos here, if_pos (by omega)]
      · rw [if_neg here, if_neg (by omega)]

/-- The rows are copied from the top to the bottom. -/
theorem cell_copyRows (v : Bytes) : ∀ m i,
    cell ((List.range m).foldl (fun v (y : Nat) => (List.range 80).foldl (fun v (x : Nat) => copyUp v x y) v) v) i =
      if i < 80 * m then cell v (i + 80) else cell v i := by
  intro m
  induction m with
  | zero => intro i; rw [if_neg (by omega)]; rfl
  | succ m ih =>
    intro i
    rw [List.range_succ (n := m), List.foldl_append, List.foldl_cons, List.foldl_nil, cell_copyRow _ _ _ (Nat.le_refl _), ih, ih]
    by_cases row : 80 * m ≤ i ∧ i < 80 * m + 80
    · rw [if_pos row, if_neg (by omega), if_pos (by omega)]
    · rw [if_neg row]
      by_cases before : i < 80 * m
      · rw [if_pos before, if_pos (by omega)]
      · rw [if_neg before, if_neg (by omega)]

/-- A loop that blanks the cells from `first` on, one after the other. -/
theorem cell_blanked {first : Nat} {f : Bytes → Nat → Bytes}
    (stores : ∀ v k i, cell (f v k) i = if i = first + k then blankCell else cell v i) (v : Bytes) : ∀ n i,
    cell ((List.range n).foldl f v) i = if first ≤ i ∧ i < first + n then blankCell else cell v i := by
  intro n
  induction n with
  | zero => intro i; rw [if_neg (by omega)]; rfl
  | succ n ih =>
    intro i
    rw [List.range_succ, List.foldl_append, List.foldl_cons, List.foldl_nil, stores, ih]
    by_cases last : i = first + n
    · rw [if_pos last, if_pos (by omega)]
    · rw [if_neg last]
      by_cases here : first ≤ i ∧ i < first + n
      · rw [if_pos here, if_pos (by omega)]
      · rw [if_neg here, if_neg (by omega)]

/-- `scroll_up`, cell by cell. -/
theorem cell_scrollUp (v : Bytes) {i : Nat} (inside : i < numCells) :
    cell (scrollUp v) i = if i + 80 < numCells then cell v (i + 80) else blankCell := by
  have stores : ∀ (w : Bytes) (x i : Nat), cell (setCell w x (numRows - 1) blank attrib) i =
      if i = 1920 + x then blankCell else cell w i := fun w x =>
    cell_setCell (p := 1920 + x) (by simp only [numCols, numRows]; omega) blank attrib
  simp only [numCells] at inside ⊢
  rw [scrollUp, cell_blanked stores, cell_copyRows]
  by_cases last : 1920 ≤ i ∧ i < 1920 + 80
  · rw [if_pos last, if_neg (by omega)]
  · rw [if_neg last, if_pos (by omega), if_pos (by omega)]

/-- `clear`, cell by cell. -/
theorem cell_clear (v : Bytes) {i : Nat} (inside : i < numCells) : cell (clear v) i = blankCell := by
  have stores : ∀ (w : Bytes) (k i : Nat), cell (Function.update (Function.update w (2 * k) blank) (2 * k + 1) attrib) i =
      if i = 0 + k then blankCell else cell w i := fun w k i => by rw [Nat.zero_add, cell_update]
  rw [clear, cell_blanked stores, if_pos ⟨Nat.zero_le i, by rw [Nat.zero_add]; exact inside⟩]

/-! ## The window -/

/-- The screen shows a tape from row `top` on. -/
structure OnTape (tape : Nat → Cell) (top : Nat) (scr : Screen) : Prop where
  window : Window 80 25 blankCell tape top (cell scr.video)
  inRange : scr.InRange

/-- The number of rows that a new row scrolls. -/
def rowScrolls (scr : Screen) : Nat := if scr.y + 1 = numRows then 1 else 0

/-- The number of rows that a character scrolls. -/
def scrolls (scr : Screen) (c : UInt8) : Nat :=
  if c = 0x0A ∨ c = 0x0D ∨ scr.x = numCols then scr.rowScrolls else 0

/-- The number of rows that a text scrolls. -/
def rowsScrolled : Screen → List UInt8 → Nat
  | _, [] => 0
  | scr, c :: text => scr.scrolls c + rowsScrolled (scr.putc c) text

/-- `get_cursor_pos`. -/
def cursorPos (scr : Screen) : Int := scr.y * numCols + scr.x

theorem InRange.cursorPos {scr : Screen} (h : scr.InRange) : 0 ≤ scr.cursorPos ∧ scr.cursorPos ≤ 2000 := by
  obtain ⟨left, right, top, bottom⟩ := h
  simp only [Screen.cursorPos, numCols, numRows] at *
  omega

namespace OnTape
variable {tape : Nat → Cell} {top : Nat} {scr : Screen}

theorem newRow (on : OnTape tape top scr) : OnTape tape (top + scr.rowScrolls) scr.newRow := by
  refine ⟨?_, on.inRange.newRow⟩
  unfold Screen.newRow rowScrolls
  by_cases bottom : scr.y + 1 = numRows
  · rw [if_pos bottom, if_pos bottom]
    exact on.window.scroll fun i inside => cell_scrollUp scr.video inside
  · rw [if_neg bottom, if_neg bottom]
    exact on.window

theorem store (on : OnTape tape top scr) {x y : Int} {p : Nat} (place : numCols * y + x = p) (inside : p < numCells) (c : UInt8)
    {scr' : Screen} (inRange : scr'.InRange) (video : scr'.video = setCell scr.video x y c attrib) :
    OnTape (Function.update tape (80 * top + p) (c, attrib)) top scr' := by
  refine ⟨on.window.store inside _ fun i _ => ?_, inRange⟩
  rw [video, cell_setCell place]

/-- Screens that look alike show the same. -/
theorem same (on : OnTape tape top scr) {scr' : Screen} (same : scr'.Same scr) : OnTape tape top scr' :=
  ⟨on.window.congr fun _ inside => same.video.cell inside, on.inRange.of_cursor same.x same.y⟩

end OnTape

/-- A new row begins at its left end, one row further down. -/
theorem newRow_cursor (scr : Screen) : scr.newRow.x = 0 ∧ scr.newRow.y + scr.rowScrolls = scr.y + 1 := by
  unfold newRow rowScrolls
  by_cases bottom : scr.y + 1 = numRows
  · rw [if_pos bottom, if_pos bottom]
    exact ⟨rfl, rfl⟩
  · rw [if_neg bottom, if_neg bottom]
    exact ⟨rfl, Int.add_zero _⟩

/-- The cursor is at a place of the tape. Column 80 of a row and column 0 of the next one are
the same place. -/
structure CursorAt (tape : Nat → Cell) (top place : Nat) (scr : Screen) : Prop where
  on : scr.OnTape tape top
  place : 80 * top + scr.cursorPos = place

namespace CursorAt
variable {tape : Nat → Cell} {top place : Nat} {scr : Screen}

theorem same (at_ : CursorAt tape top place scr) {scr' : Screen} (same : scr'.Same scr) : CursorAt tape top place scr' :=
  ⟨at_.on.same same, by rw [cursorPos, same.x, same.y]; exact at_.place⟩

/-- A cell is stored where the cursor is on the screen. -/
theorem store (at_ : CursorAt tape top place scr) (inside : scr.x < numCols) (c : UInt8) {scr' : Screen}
    (inRange : scr'.InRange) (video : scr'.video = setCell scr.video scr.x scr.y c attrib) :
    OnTape (Function.update tape place (c, attrib)) top scr' := by
  obtain ⟨left, -, first, bottom⟩ := at_.on.inRange
  have here := at_.place
  simp only [cursorPos, numCols, numRows] at here inside bottom
  obtain ⟨p, offset⟩ := Int.eq_ofNat_of_zero_le (show 0 ≤ numCols * scr.y + scr.x by simp only [numCols]; omega)
  have stored : 80 * top + p = place := by
    simp only [numCols] at offset
    omega
  rw [← stored]
  exact at_.on.store offset (by simp only [numCols] at offset; simp only [numCells]; omega) c inRange video

/-- A character goes to the place of the cursor. -/
theorem putc (at_ : CursorAt tape top place scr) {c : UInt8} (ordinary : ¬ (c = 0x0A ∨ c = 0x0D)) :
    CursorAt (Function.update tape place (c, attrib)) (top + scr.scrolls c) (place + 1) (scr.putc c) := by
  have here := at_.place
  have inRange := at_.on.inRange.putc c
  by_cases full : scr.x = numCols
  · have put : scr.putc c =
        ⟨setCell scr.newRow.video scr.newRow.x scr.newRow.y c attrib, scr.newRow.x + 1, scr.newRow.y⟩ := by
      rw [Screen.putc, if_neg ordinary]
      simp only [if_pos full]
    have scrolled : scr.scrolls c = scr.rowScrolls := if_pos (Or.inr (Or.inr full))
    obtain ⟨x, y⟩ := scr.newRow_cursor
    have moved : CursorAt tape (top + scr.rowScrolls) place scr.newRow := by
      refine ⟨at_.on.newRow, ?_⟩
      simp only [cursorPos, numCols, full] at here ⊢
      rw [x]
      omega
    rw [put] at inRange ⊢
    rw [scrolled]
    refine ⟨moved.store (by rw [x]; decide) c inRange rfl, ?_⟩
    have there := moved.place
    simp only [cursorPos] at there ⊢
    omega
  · have put : scr.putc c = ⟨setCell scr.video scr.x scr.y c attrib, scr.x + 1, scr.y⟩ := by
      rw [Screen.putc, if_neg ordinary]
      simp only [if_neg full]
    have scrolled : scr.scrolls c = 0 := if_neg fun h => h.elim (fun lf => ordinary (Or.inl lf)) fun h =>
      h.elim (fun cr => ordinary (Or.inr cr)) full
    obtain ⟨-, right, -, -⟩ := at_.on.inRange
    rw [put] at inRange ⊢
    rw [scrolled]
    refine ⟨at_.store (Int.lt_iff_le_and_ne.2 ⟨right, full⟩) c inRange rfl, ?_⟩
    simp only [cursorPos] at here ⊢
    omega

/-- A character scrolls at the end of the screen only. -/
theorem scrolls_cases (at_ : CursorAt tape top place scr) {c : UInt8} (ordinary : ¬ (c = 0x0A ∨ c = 0x0D)) :
    scr.scrolls c = 0 ∨ scr.scrolls c = 1 ∧ place = 80 * (top + 25) := by
  have here := at_.place
  unfold scrolls rowScrolls
  by_cases bottom : scr.x = numCols ∧ scr.y + 1 = numRows
  · refine Or.inr ⟨by rw [if_pos (Or.inr (Or.inr bottom.1)), if_pos bottom.2], ?_⟩
    simp only [cursorPos, numCols, numRows] at here bottom
    omega
  · refine Or.inl ?_
    split
    · next full =>
      rw [if_neg]
      exact fun last => bottom ⟨full.elim (fun lf => absurd (Or.inl lf) ordinary) fun h =>
        h.elim (fun cr => absurd (Or.inr cr) ordinary) id, last⟩
    · rfl

/-- Backspace blanks the place in front of the cursor. -/
theorem backspace (at_ : CursorAt tape top (place + 1) scr) (inside : ¬ (scr.x = 0 ∧ scr.y = 0)) :
    CursorAt (Function.update tape place blankCell) top place scr.backspace := by
  obtain ⟨left, right, first, bottom⟩ := at_.on.inRange
  have here := at_.place
  -- The other representation of the same place.
  obtain ⟨x, y, x_eq, y_eq, positive, short, row⟩ : ∃ x y : Int, (if scr.x = 0 then numCols else scr.x) = x ∧
      (if scr.x = 0 then scr.y - 1 else scr.y) = y ∧ 0 < x ∧ x ≤ numCols ∧ 0 ≤ y ∧ y < numRows ∧
      y * numCols + x = scr.cursorPos := by
    refine ⟨_, _, rfl, rfl, ?_⟩
    simp only [cursorPos, numCols, numRows] at *
    split <;> omega
  have moved : scr.backspace = ⟨setCell scr.video (x - 1) y blank attrib, x - 1, y⟩ := by
    rw [← x_eq, ← y_eq, Screen.backspace]
    split <;> rfl
  have inRange : (⟨scr.video, x - 1, y⟩ : Screen).InRange := by
    refine ⟨?_, ?_, row.1, row.2.1⟩
    · show 0 ≤ x - 1
      omega
    · show x - 1 ≤ numCols
      omega
  have before : CursorAt tape top place ⟨scr.video, x - 1, y⟩ := by
    refine ⟨⟨at_.on.window, inRange⟩, ?_⟩
    have same := row.2.2
    simp only [cursorPos] at here same ⊢
    omega
  rw [moved]
  have inRange' : (⟨setCell scr.video (x - 1) y blank attrib, x - 1, y⟩ : Screen).InRange := inRange.of_cursor rfl rfl
  refine ⟨before.store (show x - 1 < numCols by omega) blank inRange' rfl, before.place⟩

end CursorAt

/-- Screens that look alike scroll alike. -/
theorem Same.rowsScrolled (text : List UInt8) : ∀ {a b : Screen}, a.Same b → a.rowsScrolled text = b.rowsScrolled text := by
  induction text with
  | nil => intro a b _; rfl
  | cons c text ih =>
    intro a b same
    rw [Screen.rowsScrolled, Screen.rowsScrolled, ih (same.putc c)]
    simp only [scrolls, rowScrolls, same.x, same.y]

end Screen

/-- What is stored through `video_mem` is read back from there. -/
theorem setScreen_screen (s : Kernel) (scr : Screen) : (s.setScreen scr).screen.Same scr :=
  ⟨setFrame_self s s.videoFrame scr.video, rfl, rfl⟩

theorem setCursor_screen (s : Kernel) : (setCursor s).screen = s.screen := by
  obtain ⟨phys, table, -, -, x, y, -⟩ := setCursor_fields s
  rw [Kernel.screen, Kernel.videoFrame, frame_congr phys, table, x, y]
  rfl

theorem putc_screen (c : UInt8) (s : Kernel) : (putc c s).screen.Same (s.screen.putc c) := by
  rw [putc, setCursor_screen]
  exact setScreen_screen s _

/-- Away from the top left corner, `screen_backspace` is the backspace of the screen. -/
theorem screenBackspace_screen {s : Kernel} (inside : ¬ (s.screenX = 0 ∧ s.screenY = 0)) :
    (screenBackspace s).screen.Same s.screen.backspace := by
  rw [screenBackspace, if_neg inside]
  dsimp only
  split
  · rw [setCursor_screen]
    exact setScreen_screen s _
  · exact setScreen_screen s _

end BigBrainOS
