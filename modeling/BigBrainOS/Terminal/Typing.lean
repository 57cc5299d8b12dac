import BigBrainOS.Display.Cells
import BigBrainOS.Terminal.Editor

/-!
# Backspace undoes typing

Typing moves the cursor along the tape that the screen shows, over the end of a row
and down with the screen; backspace goes the same way back. Neither depends on which
of its two representations a place at the end of a row has.
-/

namespace BigBrainOS
set_option autoImplicit false

open TextWindow

/-- The keys of a text, pressed one after the other. -/
def typeText (text : List UInt8) (s : Kernel) : Kernel := text.foldl (fun s c => printChar c s) s

/-- With room in the line, a character is echoed. -/
theorem printChar_screen {s : Kernel} (room : (s.terminals s.currTer).bufLen < bufSize - 1) (c : UInt8) :
    (printChar c s).screen.Same (s.screen.putc c) := by
  rw [printChar, if_neg (Nat.not_le.2 room)]
  exact putc_screen c _

/-- The terminal `t` is displayed, with a line and the cursor at a place of the tape. -/
structure LineAt (t : Term) (tape : Nat → Cell) (top place : Nat) (l : Line) (s : Kernel) : Prop where
  displayed : s.currTer = t
  cursor : s.screen.CursorAt tape top place
  line : HoldsTyping (s.terminals t) l

namespace LineAt
variable {t : Term} {tape : Nat → Cell} {top place : Nat} {l : Line} {s : Kernel}

/-- **Step lemma.** A character is typed at the place of the cursor. -/
theorem printChar (at_ : LineAt t tape top place l s) (room : l.1.length < bufSize - 1) (c : Character) (ordinary : c.1 ≠ 0x0D) :
    LineAt t (Function.update tape place (c.1, attrib)) (top + s.screen.scrolls c) (place + 1) (l.type c) (printChar c s) := by
  obtain ⟨rfl, cursor, line⟩ := at_
  have few : (s.terminals s.currTer).bufLen < bufSize - 1 := by rw [line.bufLen]; exact room
  rw [BigBrainOS.printChar, if_neg (Nat.not_le.2 few)]
  have typed := line.typeChar c few
  generalize edited : (s.setTerminal s.currTer fun t =>
    { t with typing := Function.update t.typing t.bufLen c, bufLen := t.bufLen + 1 }) = s'
  have holds : HoldsTyping (s'.terminals s.currTer) (l.type c) := by
    rw [← edited, Kernel.setTerminal_self]
    exact typed
  have screen : s'.screen = s.screen := by
    rw [← edited]
    rfl
  have shown : s'.currTer = s.currTer := by
    rw [← edited]
    rfl
  have same := SameLines.of_output (putc_output c.1 s')
  refine ⟨same.currTer.trans shown, ?_, holds.congr (same.line _)⟩
  have put := putc_screen c.1 s'
  rw [screen] at put
  exact (cursor.putc fun h => h.elim c.2.2 ordinary).same put

/-- **Step lemma.** The place in front of the cursor is blanked. -/
theorem backspace (at_ : LineAt t tape top (place + 1) l s) (nonempty : l.1 ≠ []) (inside : 80 * top ≤ place) :
    LineAt t (Function.update tape place blankCell) top place l.erase (backspace s) := by
  obtain ⟨rfl, cursor, line⟩ := at_
  have some_ : (s.terminals s.currTer).bufLen ≠ 0 := by
    rw [line.bufLen]
    exact fun h => nonempty (List.length_eq_zero_iff.1 h)
  have corner : ¬ (s.screenX = 0 ∧ s.screenY = 0) := by
    rintro ⟨x, y⟩
    have here := cursor.place
    simp only [Screen.cursorPos, Kernel.screen, x, y] at here
    omega
  have same := SameLines.of_output (screenBackspace_output s)
  rw [BigBrainOS.backspace, if_neg some_]
  refine ⟨same.currTer, (cursor.backspace corner).same (screenBackspace_screen corner), ?_⟩
  rw [Kernel.setTerminal_self]
  exact (line.congr (same.line _)).eraseChar

/-- The text goes on the tape from the place of the cursor on. A row scrolls off only when the
cursor leaves the bottom row. -/
theorem typeText (text : List Character) : ∀ {tape : Nat → Cell} {top place : Nat} {l : Line} {s : Kernel},
    LineAt t tape top place l s → (∀ c ∈ text, c.1 ≠ 0x0D) → l.1.length + text.length < bufSize →
    (top = 0 ∨ 80 * (top + 24) ≤ place) →
    ∃ top' l', top' = top + s.screen.rowsScrolled (text.map Subtype.val) ∧ l'.1.length = l.1.length + text.length ∧
      LineAt t (fill tape place text.length fun k => ((text.map Subtype.val).getD k 0, attrib)) top' (place + text.length) l'
        (BigBrainOS.typeText (text.map Subtype.val) s) ∧ (top' = 0 ∨ 80 * (top' + 24) ≤ place + text.length) := by
  induction text with
  | nil =>
    intro tape top place l s at_ _ _ bound
    have nothing : (fill tape place 0 fun k => (([] : List UInt8).getD k 0, attrib)) = tape := by
      funext i
      exact if_neg (by omega)
    exact ⟨top, l, rfl, rfl, nothing.symm ▸ at_, bound⟩
  | cons c text ih =>
    intro tape top place l s at_ ordinary room bound
    simp only [List.length_cons, bufSize] at room
    have first : l.1.length < bufSize - 1 := by
      simp only [bufSize]
      omega
    have notReturn : c.1 ≠ 0x0D := ordinary c List.mem_cons_self
    have longer : (l.type c).1.length = l.1.length + 1 := by
      rw [Line.type, dif_pos first]
      exact List.length_append
    have scrolled := at_.cursor.scrolls_cases fun h => h.elim c.2.2 notReturn
    obtain ⟨top', l', top_eq, length, typed, bound'⟩ := ih (at_.printChar first c notReturn)
      (fun d member => ordinary d (List.mem_cons_of_mem c member)) (by rw [longer]; simp only [bufSize]; omega)
      (by rcases scrolled with none_ | ⟨one, place_eq⟩ <;> omega)
    have screen := printChar_screen (s := s) (by rw [at_.displayed, at_.line.bufLen]; exact first) c.1
    refine ⟨top', l', ?_, ?_, ?_, ?_⟩
    · rw [top_eq, screen.rowsScrolled, List.map_cons, Screen.rowsScrolled, Nat.add_assoc]
    · rw [length, longer, List.length_cons]
      omega
    · rw [List.length_cons, ← fill_first]
      have place_eq : place + (text.length + 1) = place + 1 + text.length := by omega
      rw [place_eq]
      exact typed
    · rw [List.length_cons]
      omega

/-- As many backspaces as characters blank the places in front of the cursor. -/
theorem backspaces (n : Nat) : ∀ {tape : Nat → Cell} {top place : Nat} {l : Line} {s : Kernel},
    LineAt t tape top (place + n) l s → l.1.length = n → 80 * top ≤ place →
    LineAt t (fill tape place n fun _ => blankCell) top place .empty (BigBrainOS.backspace^[n] s) := by
  induction n with
  | zero =>
    intro tape top place l s at_ empty _
    have same : l = .empty := Subtype.ext (List.length_eq_zero_iff.1 empty)
    have nothing : fill tape place 0 (fun _ => blankCell) = tape := by
      funext i
      exact if_neg (by omega)
    rw [nothing, ← same]
    exact at_
  | succ n ih =>
    intro tape top place l s at_ length inside
    have nonempty : l.1 ≠ [] := fun nil => by rw [nil] at length; cases length
    have behind : LineAt t tape top (place + n + 1) l s := at_
    have erased := behind.backspace nonempty (Nat.le_trans inside (Nat.le_add_right place n))
    have shorter : l.erase.1.length = n := by
      show l.1.dropLast.length = n
      rw [List.length_dropLast, length]
      rfl
    rw [Function.iterate_succ_apply, ← fill_last]
    exact ih erased shorter inside

end LineAt

/-! ## Typing and erasing -/

/-- No character is typed. -/
structure EmptyLine (t : TerminalState) : Prop where
  bufLen : t.bufLen = 0
  typing : ∀ i < bufSize, t.typing i = 0

/-- As many backspaces as the text has characters undo it: the line is empty, the cursor is back,
what was in front of it is there, and each cell that was typed into is blank. -/
structure Undone (text : List UInt8) (s : Kernel) : Prop where
  line : EmptyLine ((backspace^[text.length] (typeText text s)).terminals s.currTer)
  cursor : (backspace^[text.length] (typeText text s)).screen.cursorPos =
    s.screen.cursorPos - 80 * s.screen.rowsScrolled text
  before : ∀ i : Nat, (i + 80 * s.screen.rowsScrolled text : Int) < s.screen.cursorPos →
    cell (backspace^[text.length] (typeText text s)).screen.video i =
      cell s.screen.video (i + 80 * s.screen.rowsScrolled text)
  typed : ∀ j (inside : j < text.length), ∃ i < numCells,
    (i + 80 * s.screen.rowsScrolled text : Int) = s.screen.cursorPos + j ∧
      cell (typeText text s).screen.video i = (text[j], attrib) ∧
      cell (backspace^[text.length] (typeText text s)).screen.video i = blankCell

/-- The tape of a screen: its cells, and blanks behind them. -/
def screenTape (scr : Screen) (i : Nat) : Cell := if i < numCells then cell scr.video i else blankCell

theorem screenTape_on {scr : Screen} (inRange : scr.InRange) : scr.CursorAt (screenTape scr) 0 scr.cursorPos.toNat := by
  obtain ⟨left, -⟩ := inRange.cursorPos
  refine ⟨⟨⟨fun i inside => ?_, fun i behind => if_neg (Nat.not_lt.2 behind)⟩, inRange⟩, ?_⟩
  · rw [screenTape, Nat.mul_zero, Nat.zero_add, if_pos inside]
  · omega

/-- **Backspace undoes typing**, wherever the cursor is and whatever is on the screen. -/
theorem typing_undone {s : Kernel} (inRange : s.screen.InRange) (empty : EmptyLine (s.terminals s.currTer)) {text : List UInt8}
    (few : text.length ≤ 127) (ordinary : ∀ c ∈ text, IsText c ∧ c ≠ 0x0D) : Undone text s := by
  obtain ⟨chars, rfl⟩ : ∃ chars : List Character, chars.map Subtype.val = text :=
    ⟨text.attachWith IsText fun c member => (ordinary c member).1, List.attachWith_map_subtype_val _⟩
  rw [List.length_map] at few
  have start : LineAt s.currTer (screenTape s.screen) 0 s.screen.cursorPos.toNat .empty s :=
    ⟨rfl, screenTape_on inRange, ⟨empty.typing, empty.bufLen⟩⟩
  obtain ⟨top, l, top_eq, length, typed, bound⟩ := start.typeText chars
    (fun c member => (ordinary c.1 (List.mem_map_of_mem member)).2)
    (by simp only [bufSize, Line.empty, List.length_nil]; omega) (Or.inl rfl)
  rw [Nat.zero_add] at top_eq
  have empty_length : l.1.length = chars.length := length.trans (Nat.zero_add _)
  have inside : 80 * top ≤ s.screen.cursorPos.toNat := by omega
  have erased := LineAt.backspaces chars.length typed empty_length inside
  rw [fill_fill] at erased
  -- Where the cursor is, before, between and after.
  obtain ⟨left, right⟩ := inRange.cursorPos
  obtain ⟨-, behind⟩ := typed.cursor.on.inRange.cursorPos
  have here := start.cursor.place
  have there := typed.cursor.place
  have back := erased.cursor.place
  refine ⟨⟨?_, ?_⟩, ?_, fun i before => ?_, fun j below => ?_⟩
  · rw [List.length_map]
    exact erased.line.bufLen
  · rw [List.length_map]
    exact erased.line.typing
  · rw [List.length_map, ← top_eq]
    omega
  · rw [List.length_map, ← top_eq] at *
    have onScreen : i + 80 * top < numCells := by simp only [numCells]; omega
    rw [erased.cursor.on.window.shows i (by omega), fill_before _ _ (by omega), Nat.add_comm, screenTape, if_pos onScreen]
  · have short : j < chars.length := by rwa [List.length_map] at below
    have index : 80 * top + (s.screen.cursorPos.toNat + j - 80 * top) = s.screen.cursorPos.toNat + j := by omega
    have onScreen : s.screen.cursorPos.toNat + j - 80 * top < numCells := by simp only [numCells]; omega
    rw [List.length_map, ← top_eq]
    refine ⟨_, onScreen, by omega, ?_, ?_⟩
    · rw [typed.cursor.on.window.shows _ onScreen, index, fill_inside _ _ short, List.getD_eq_getElem _ _ below]
    · rw [erased.cursor.on.window.shows _ onScreen, index, fill_inside _ _ short]

/-- The cursor rests behind the last cell of the screen. -/
def cornerShown : Kernel := { shellShown with screenX := 80, screenY := 24 }

/-- Two characters there scroll the screen and are undone. -/
theorem typing_undone_corner : cornerShown.screen.rowsScrolled (message "ab") = 1 ∧ Undone (message "ab") cornerShown := by
  have inRange : cornerShown.screen.InRange := ⟨by decide, by decide, by decide, by decide⟩
  have ordinary : ∀ c ∈ message "ab", (c ≠ 0 ∧ c ≠ 0x0A) ∧ c ≠ 0x0D := by decide +kernel
  exact ⟨by decide +kernel, typing_undone inRange ⟨rfl, fun _ _ => rfl⟩ (by decide +kernel) ordinary⟩

end BigBrainOS
