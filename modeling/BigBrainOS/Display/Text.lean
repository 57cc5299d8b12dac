import BigBrainOS.Display.Cells
import BigBrainOS.Process.Boot

/-!
# The screen shows the wrapped text

What `putc` is for: a text is laid out in rows of 80 characters, and the screen shows
the last 25 of them. A row that is full is ended only when a further character comes,
so a newline there ends it without an empty row.
-/

namespace BigBrainOS
set_option autoImplicit false

open TextWindow

/-! ## The text -/

/-- One more byte of the text: a newline or a carriage return ends the row. -/
def layByte (t : Wrapped UInt8 80) (c : UInt8) : Wrapped UInt8 80 :=
  if c = 0x0A ∨ c = 0x0D then t.newline else t.add (by decide) c

/-- The text in rows. -/
def layOut (text : List UInt8) : Wrapped UInt8 80 := text.foldl layByte .empty

/-- The rows on a tape, all in one attribute. -/
def textTape (rows : List (List UInt8)) (i : Nat) : Cell := (ofRows 80 blank rows i, attrib)

/-- The screen shows the last 25 rows of the text, and the cursor is behind its last character. -/
structure ShowsText (t : Wrapped UInt8 80) (scr : Screen) : Prop where
  on : scr.OnTape (textTape t.rows) (t.rows.length - 25)
  column : scr.x = t.last.length
  row : scr.y + (t.rows.length - 25 : Nat) = t.above.length

namespace ShowsText
variable {t : Wrapped UInt8 80} {scr scr' : Screen}

theorem same (shows : ShowsText t scr) (same : scr'.Same scr) : ShowsText t scr' :=
  ⟨shows.on.same same, same.x.trans shows.column, by rw [same.y]; exact shows.row⟩

/-- The end of a row, for which the screen scrolls if the row is its last. -/
theorem newRow (shows : ShowsText t scr) : ShowsText t.newline scr.newRow := by
  obtain ⟨x, y⟩ := scr.newRow_cursor
  have row := shows.row
  have scrolled : t.newline.rows.length - 25 = t.rows.length - 25 + scr.rowScrolls := by
    rw [Wrapped.rows_length, Wrapped.rows_length] at *
    simp only [Screen.rowScrolls, numRows, Wrapped.newline, Wrapped.rows_length]
    split <;> omega
  refine ⟨?_, x, ?_⟩
  · have tape : textTape t.newline.rows = textTape t.rows := by
      unfold textTape
      rw [Wrapped.ofRows_newline]
    rw [tape, scrolled]
    exact shows.on.newRow
  · show scr.newRow.y + ((t.newline.rows.length - 25 : Nat) : Int) = (t.rows.length : Int)
    rw [scrolled, Wrapped.rows_length] at *
    push_cast
    omega

/-- The cursor is at the place of the next character. -/
theorem cursorAt (shows : ShowsText t scr) : scr.CursorAt (textTape t.rows) (t.rows.length - 25) t.place := by
  refine ⟨shows.on, ?_⟩
  have column := shows.column
  have row := shows.row
  simp only [Screen.cursorPos, numCols, Wrapped.place]
  omega

/-- A character where there is room for it. -/
theorem append (shows : ShowsText t scr) (room : t.last.length < 80) (c : UInt8) :
    ShowsText (t.append room c) ⟨Screen.setCell scr.video scr.x scr.y c attrib, scr.x + 1, scr.y⟩ := by
  obtain ⟨left, -, top, bottom⟩ := shows.on.inRange
  have column := shows.column
  have inside : scr.x < numCols := by
    simp only [numCols]
    omega
  have tape : textTape (t.append room c).rows = Function.update (textTape t.rows) t.place (c, attrib) := by
    unfold textTape
    rw [Wrapped.ofRows_append]
    exact Function.comp_update (fun b : UInt8 => (b, attrib)) (ofRows 80 blank t.rows) t.place c
  have count : (t.append room c).rows.length = t.rows.length := by
    rw [Wrapped.rows_length, Wrapped.rows_length]
    rfl
  refine ⟨?_, ?_, ?_⟩
  · rw [tape, count]
    exact shows.cursorAt.store inside c ⟨Int.le_add_one left, inside, top, bottom⟩ rfl
  · show scr.x + 1 = ((t.last ++ [c]).length : Int)
    rw [List.length_append, column]
    rfl
  · rw [count]
    exact shows.row

/-- **Step lemma.** `putc` shows one byte more. -/
theorem putc (shows : ShowsText t scr) (c : UInt8) : ShowsText (layByte t c) (scr.putc c) := by
  have column := shows.column
  unfold layByte Screen.putc
  by_cases newline : c = 0x0A ∨ c = 0x0D
  · rw [if_pos newline, if_pos newline]
    exact shows.newRow
  rw [if_neg newline, if_neg newline, Wrapped.add]
  by_cases full : t.last.length = 80
  · rw [dif_pos full, if_pos (by rw [column, full]; rfl)]
    exact shows.newRow.append _ c
  · rw [dif_neg full, if_neg (by simp only [numCols]; omega)]
    exact shows.append _ c

end ShowsText

/-! ## The kernel -/

/-- A cleared screen with the cursor in the top left corner. -/
structure Screen.Cleared (scr : Screen) : Prop where
  cells : ∀ i < numCells, cell scr.video i = blankCell
  column : scr.x = 0
  row : scr.y = 0

theorem Screen.Cleared.shows {scr : Screen} (cleared : scr.Cleared) : ShowsText .empty scr := by
  have tape : textTape (Wrapped.empty : Wrapped UInt8 80).rows = fun _ => blankCell := by
    funext i
    show (ofRows 80 blank ([] ++ [[]]) i, attrib) = blankCell
    rw [ofRows_newRow]
    rfl
  refine ⟨⟨?_, .corner cleared.column cleared.row⟩, cleared.column, by rw [cleared.row]; rfl⟩
  rw [tape]
  exact Window.start cleared.cells

/-- What `clear` and `reset_cursor` leave. -/
theorem cleared_clear (s : Kernel) : (resetCursor (clear s)).screen.Cleared := by
  have video : SamePage (resetCursor (clear s)).screen.video (Screen.clear (s.frame s.videoFrame)) :=
    setFrame_self s s.videoFrame _
  refine ⟨fun i inside => ?_, rfl, rfl⟩
  rw [video.cell inside, Screen.cell_clear _ inside]

/-- **Run lemma.** -/
theorem ShowsText.puts : ∀ (text : List UInt8) {t : Wrapped UInt8 80} {s : Kernel}, ShowsText t s.screen →
    ShowsText (text.foldl layByte t) (puts text s).screen := by
  intro text
  induction text with
  | nil => intro t s shows; exact shows
  | cons c text ih =>
    intro t s shows
    exact ih ((shows.putc c).same (putc_screen c s))

/-- The screen shows the last 25 of the rows from the top on, with blanks behind them and
below, and the cursor is behind the last one. -/
structure ShowsRows (rows : List (List UInt8)) (scr : Screen) : Prop where
  narrow : ∀ row ∈ rows, row.length ≤ 80
  cells : ∀ y < 25, ∀ x < 80,
    cell scr.video (80 * y + x) = (((rows.drop (rows.length - 25)).getD y []).getD x blank, attrib)
  column : scr.x = (rows.getLast?.getD []).length
  row : scr.y = (min 25 rows.length : Nat) - 1

theorem ShowsText.rows {t : Wrapped UInt8 80} {scr : Screen} (shows : ShowsText t scr) : ShowsRows t.rows scr := by
  have length := t.rows_length
  have row := shows.row
  refine ⟨t.rows_narrow, fun y inside x column => ?_, ?_, ?_⟩
  · have here : 80 * y + x < 80 * 25 := by omega
    rw [shows.on.window.shows _ here, textTape, ofRows_drop _ column]
  · rw [shows.column, Wrapped.rows, List.getLast?_concat]
    rfl
  · omega

/-- **The text screen.** Every text written to a cleared screen is shown wrapped. -/
theorem screen_shows_text {s : Kernel} (cleared : s.screen.Cleared) (text : List UInt8) :
    ShowsRows (layOut text).rows (puts text s).screen :=
  (ShowsText.puts text cleared.shows).rows

/-- Two lines after boot. -/
theorem screen_shows_lines :
    ShowsRows [message "Big", message "Brain"] (puts (message "Big\nBrain") (resetCursor (clear booted))).screen := by
  have rows : (layOut (message "Big\nBrain")).rows = [message "Big", message "Brain"] := by decide +kernel
  rw [← rows]
  exact screen_shows_text (cleared_clear booted) _

end BigBrainOS
