import Mathlib.Data.List.Basic
import Mathlib.Logic.Function.Basic

/-!
# A window on a growing text

A text is laid out in rows of a fixed width on a tape of cells without an end, and a
window of a fixed height shows the rows from `top` on. Cells are stored inside the
window, and the window moves down by one row at a time; the rows that come into it
are blank.
-/

namespace TextWindow
set_option autoImplicit false

variable {Cell : Type} {width height top : Nat} {blank : Cell} {tape view view' : Nat → Cell}

/-- The view is the part of the tape from row `top` on, and nothing is written behind it. -/
structure Window (width height : Nat) (blank : Cell) (tape : Nat → Cell) (top : Nat) (view : Nat → Cell) : Prop where
  shows : ∀ i < width * height, view i = tape (width * top + i)
  below : ∀ i, width * (top + height) ≤ i → tape i = blank

namespace Window

theorem start (empty : ∀ i < width * height, view i = blank) : Window width height blank (fun _ => blank) 0 view :=
  ⟨empty, fun _ _ => rfl⟩

theorem congr (w : Window width height blank tape top view) (same : ∀ i < width * height, view' i = view i) :
    Window width height blank tape top view' :=
  ⟨fun i inside => (same i inside).trans (w.shows i inside), w.below⟩

/-- A cell is stored in the window. -/
theorem store (w : Window width height blank tape top view) {p : Nat} (inside : p < width * height) (c : Cell)
    (stored : ∀ i < width * height, view' i = if i = p then c else view i) :
    Window width height blank (Function.update tape (width * top + p) c) top view' := by
  refine ⟨fun i here => ?_, fun i behind => ?_⟩
  · rw [stored i here]
    by_cases same : i = p
    · rw [if_pos same, same, Function.update_self]
    · rw [if_neg same, Function.update_of_ne (by omega)]
      exact w.shows i here
  · rw [Nat.mul_add] at behind
    rw [Function.update_of_ne (by omega)]
    exact w.below i (by rw [Nat.mul_add]; exact behind)

/-- The window moves down by one row. -/
theorem scroll (w : Window width height blank tape top view)
    (moved : ∀ i < width * height, view' i = if i + width < width * height then view (i + width) else blank) :
    Window width height blank tape (top + 1) view' := by
  have down : width * (top + 1) = width * top + width := Nat.mul_succ _ _
  refine ⟨fun i here => ?_, fun i behind => w.below i ?_⟩
  · rw [moved i here, down]
    by_cases kept : i + width < width * height
    · rw [if_pos kept, w.shows _ kept]
      congr 1
      omega
    · rw [if_neg kept, w.below]
      rw [Nat.mul_add]
      omega
  · refine Nat.le_trans (Nat.mul_le_mul_left _ ?_) behind
    omega

end Window

/-! ## Stretches of cells -/

/-- The `n` cells from `p` on are `f 0`, `f 1` and so on. -/
def fill (tape : Nat → Cell) (p n : Nat) (f : Nat → Cell) : Nat → Cell :=
  fun i => if p ≤ i ∧ i < p + n then f (i - p) else tape i

theorem fill_inside (tape : Nat → Cell) {p n k : Nat} (f : Nat → Cell) (inside : k < n) : fill tape p n f (p + k) = f k := by
  rw [fill, if_pos ⟨Nat.le_add_right p k, Nat.add_lt_add_left inside p⟩, Nat.add_sub_cancel_left]

theorem fill_before (tape : Nat → Cell) {p n i : Nat} (f : Nat → Cell) (before : i < p) : fill tape p n f i = tape i :=
  if_neg fun h => absurd h.1 (Nat.not_le.2 before)

/-- The first cell is stored first. -/
theorem fill_first (tape : Nat → Cell) (p n : Nat) (f : Nat → Cell) :
    fill (Function.update tape p (f 0)) (p + 1) n (fun k => f (k + 1)) = fill tape p (n + 1) f := by
  funext i
  unfold fill
  rcases Nat.lt_trichotomy i p with before | first | behind
  · rw [if_neg (by omega), if_neg (by omega), Function.update_of_ne (by omega)]
  · rw [if_neg (by omega), if_pos (by omega), first, Function.update_self, Nat.sub_self]
  · by_cases inside : i < p + (n + 1)
    · have index : i - (p + 1) + 1 = i - p := by omega
      rw [if_pos (by omega), if_pos (by omega), ← index]
    · rw [if_neg (by omega), if_neg (by omega), Function.update_of_ne (by omega)]

/-- The last cell is stored first. -/
theorem fill_last (tape : Nat → Cell) (p n : Nat) (f : Nat → Cell) :
    fill (Function.update tape (p + n) (f n)) p n f = fill tape p (n + 1) f := by
  funext i
  unfold fill
  by_cases inside : p ≤ i ∧ i < p + n
  · rw [if_pos inside, if_pos (by omega)]
  · rw [if_neg inside]
    by_cases last : i = p + n
    · rw [last, Function.update_self, if_pos (by omega), Nat.add_sub_cancel_left]
    · rw [Function.update_of_ne last, if_neg (by omega)]

/-- What is stored again is forgotten. -/
theorem fill_fill (tape : Nat → Cell) (p n : Nat) (f g : Nat → Cell) : fill (fill tape p n f) p n g = fill tape p n g := by
  funext i
  unfold fill
  split
  · rfl
  · rfl

/-! ## Rows -/

/-- The tape of a list of rows, each with blanks behind it. -/
def ofRows (width : Nat) (blank : Cell) (rows : List (List Cell)) : Nat → Cell :=
  fun i => (rows.getD (i / width) []).getD (i % width) blank

/-- The cell in a column of a row. -/
theorem ofRows_cell (rows : List (List Cell)) {y x : Nat} (column : x < width) :
    ofRows width blank rows (width * y + x) = (rows.getD y []).getD x blank := by
  have positive : 0 < width := by omega
  rw [ofRows, Nat.mul_add_div positive, Nat.div_eq_of_lt column, Nat.add_zero, Nat.mul_add_mod, Nat.mod_eq_of_lt column]

/-- An empty row at the end shows nothing. -/
theorem ofRows_newRow (rows : List (List Cell)) : ofRows width blank (rows ++ [[]]) = ofRows width blank rows := by
  funext i
  unfold ofRows
  congr 1
  simp only [List.getD_eq_getElem?_getD]
  rcases Nat.lt_trichotomy (i / width) rows.length with before | last | behind
  · rw [List.getElem?_append_left before]
  · rw [last, List.getElem?_concat_length, List.getElem?_eq_none (Nat.le_refl _)]
    rfl
  · rw [List.getElem?_eq_none (by rw [List.length_append]; exact behind), List.getElem?_eq_none (by omega)]

/-- A place on the tape has one row and one column. -/
theorem place_inj {y x y' x' : Nat} (column : x < width) (column' : x' < width) :
    width * y + x = width * y' + x' ↔ y = y' ∧ x = x' := by
  have positive : 0 < width := by omega
  constructor
  · intro same
    have row := congrArg (· / width) same
    simp only [Nat.mul_add_div positive, Nat.div_eq_of_lt column, Nat.div_eq_of_lt column', Nat.add_zero] at row
    subst row
    exact ⟨rfl, by omega⟩
  · rintro ⟨rfl, rfl⟩
    rfl

/-- A cell is added to the last row. -/
theorem ofRows_add (above : List (List Cell)) {last : List Cell} (room : last.length < width) (c : Cell) :
    ofRows width blank (above ++ [last ++ [c]]) =
      Function.update (ofRows width blank (above ++ [last])) (width * above.length + last.length) c := by
  have positive : 0 < width := by omega
  funext i
  obtain ⟨y, x, column, rfl⟩ : ∃ y x, x < width ∧ i = width * y + x :=
    ⟨i / width, i % width, Nat.mod_lt _ positive, (Nat.div_add_mod _ _).symm⟩
  rw [ofRows_cell _ column]
  by_cases same : y = above.length ∧ x = last.length
  · rw [(place_inj column room).2 same, Function.update_self, same.1, same.2]
    simp [List.getD_eq_getElem?_getD]
  · rw [Function.update_of_ne fun h => same ((place_inj column room).1 h), ofRows_cell _ column]
    simp only [List.getD_eq_getElem?_getD]
    rcases Nat.lt_trichotomy y above.length with before | row | behind
    · rw [List.getElem?_append_left before, List.getElem?_append_left before]
    · rw [row, List.getElem?_concat_length, List.getElem?_concat_length, Option.getD_some, Option.getD_some]
      rcases Nat.lt_or_gt_of_ne (fun h => same ⟨row, h⟩) with inside | after
      · rw [List.getElem?_append_left inside]
      · rw [List.getElem?_eq_none (by rw [List.length_append]; exact after), List.getElem?_eq_none (by omega)]
    · have none_ : ∀ r : List Cell, (above ++ [r])[y]? = none := fun r =>
        List.getElem?_eq_none (by rw [List.length_append]; exact behind)
      rw [none_, none_]

/-- The cell in a column of a row, counted from row `top` on. -/
theorem ofRows_drop (rows : List (List Cell)) {y x : Nat} (column : x < width) :
    ofRows width blank rows (width * top + (width * y + x)) = ((rows.drop top).getD y []).getD x blank := by
  rw [← Nat.add_assoc, ← Nat.mul_add, ofRows_cell _ column]
  simp only [List.getD_eq_getElem?_getD, List.getElem?_drop]

/-! ## Wrapping -/

/-- A text in rows: the rows that are complete, and the last one. -/
structure Wrapped (Cell : Type) (width : Nat) where
  above : List (List Cell)
  last : List Cell
  complete : ∀ row ∈ above, row.length ≤ width
  narrow : last.length ≤ width

namespace Wrapped

def rows (t : Wrapped Cell width) : List (List Cell) := t.above ++ [t.last]

theorem rows_narrow (t : Wrapped Cell width) : ∀ row ∈ t.rows, row.length ≤ width := by
  intro row member
  rcases List.mem_append.1 member with above | last
  · exact t.complete row above
  · rw [List.mem_singleton.1 last]
    exact t.narrow

/-- No text yet: one row without cells. -/
def empty : Wrapped Cell width := ⟨[], [], fun _ member => absurd member List.not_mem_nil, Nat.zero_le _⟩

/-- The last row is ended. -/
def newline (t : Wrapped Cell width) : Wrapped Cell width := ⟨t.rows, [], t.rows_narrow, Nat.zero_le _⟩

/-- A cell is added where there is room. -/
def append (t : Wrapped Cell width) (room : t.last.length < width) (c : Cell) : Wrapped Cell width :=
  ⟨t.above, t.last ++ [c], t.complete, by rw [List.length_append]; exact room⟩

/-- A cell is added; a row that is full is ended first. -/
def add (positive : 0 < width) (t : Wrapped Cell width) (c : Cell) : Wrapped Cell width :=
  if full : t.last.length = width then t.newline.append positive c
  else t.append (Nat.lt_of_le_of_ne t.narrow full) c

theorem rows_length (t : Wrapped Cell width) : t.rows.length = t.above.length + 1 := by
  rw [rows, List.length_append, List.length_singleton]

/-- The place of the next cell. -/
def place (t : Wrapped Cell width) : Nat := width * t.above.length + t.last.length

theorem ofRows_newline (t : Wrapped Cell width) : ofRows width blank t.newline.rows = ofRows width blank t.rows :=
  ofRows_newRow t.rows

theorem ofRows_append (t : Wrapped Cell width) (room : t.last.length < width) (c : Cell) :
    ofRows width blank (t.append room c).rows = Function.update (ofRows width blank t.rows) t.place c :=
  ofRows_add t.above room c

end Wrapped

end TextWindow
