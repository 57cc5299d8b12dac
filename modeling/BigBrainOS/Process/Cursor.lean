import BigBrainOS.Process.Printing

/-!
# The saved cursor

`screen_x` and `screen_y` belong to the running terminal and are copied into its
state by `set_cursor`. `screen_backspace` copies them only while `on_screen` is
set, so the invariant carries what `on_screen` is for: it is set whenever the
running terminal is displayed.
-/

namespace BigBrainOS
set_option autoImplicit false

/-- The cursor is that of the running terminal and is saved there. -/
structure CursorSaved (s : Kernel) : Prop where
  x : s.screenX = (s.terminals s.currProcess).screenXSave
  y : s.screenY = (s.terminals s.currProcess).screenYSave
  shown : s.currProcess = s.currTer → s.onScreen = true

theorem CursorSaved.of_quiet {s s' : Kernel} (saved : CursorSaved s) (quiet : Quiet s s') : CursorSaved s' where
  x := by rw [quiet.screenX, quiet.xSave, quiet.currProcess]; exact saved.x
  y := by rw [quiet.screenY, quiet.ySave, quiet.currProcess]; exact saved.y
  shown := by rw [quiet.currProcess, quiet.currTer, quiet.onScreen]; exact saved.shown

/-! ## Output -/

section Output
variable {s : Kernel}

/-- The two assignments with which the cursor functions save. -/
theorem saveCursor_saved (shown : s.currProcess = s.currTer → s.onScreen = true) :
    CursorSaved (s.setTerminal s.currProcess fun t => { t with screenXSave := s.screenX, screenYSave := s.screenY }) where
  x := by
    show s.screenX = ((s.setTerminal s.currProcess _).terminals s.currProcess).screenXSave
    rw [Kernel.setTerminal_self]
  y := by
    show s.screenY = ((s.setTerminal s.currProcess _).terminals s.currProcess).screenYSave
    rw [Kernel.setTerminal_self]
  shown := shown

/-- `set_cursor` saves whatever the cursor is. -/
theorem setCursor_saved (shown : s.currProcess = s.currTer → s.onScreen = true) : CursorSaved (setCursor s) := by
  have saved := saveCursor_saved shown
  unfold setCursor
  dsimp only
  split
  · exact saved.of_quiet ⟨rfl, rfl, fun _ => rfl, fun _ => rfl, rfl, rfl, rfl, rfl⟩
  · exact saved

theorem resetCursor_saved (shown : s.currProcess = s.currTer → s.onScreen = true) : CursorSaved (resetCursor s) :=
  saveCursor_saved (s := { s with screenX := 0, screenY := 0 }) shown

theorem putc_saved (saved : CursorSaved s) (c : UInt8) : CursorSaved (putc c s) := setCursor_saved saved.shown

theorem cursorSaved_printing : Printing CursorSaved where
  putc := putc_saved
  quiet := CursorSaved.of_quiet

theorem puts_saved (text : List UInt8) (saved : CursorSaved s) : CursorSaved (puts text s) :=
  cursorSaved_printing.puts text saved

theorem setLine_saved (saved : CursorSaved s) (t : Term) {f : TerminalState → TerminalState}
    (x : (f (s.terminals t)).screenXSave = (s.terminals t).screenXSave)
    (y : (f (s.terminals t)).screenYSave = (s.terminals t).screenYSave) : CursorSaved (s.setTerminal t f) :=
  saved.of_quiet (.setTerminal s t f x y)

end Output

/-! ## Keys -/

section Keys
variable {s : Kernel}

/-- On the displayed terminal `screen_backspace` saves the cursor it moves. -/
theorem screenBackspace_saved (saved : CursorSaved s) (displayed : s.currProcess = s.currTer) :
    CursorSaved (screenBackspace s) := by
  have on := saved.shown displayed
  unfold screenBackspace
  split
  · exact saved
  · have flag : (s.setScreen s.screen.backspace).onScreen = true := on
    simp only [flag, if_true]
    exact setCursor_saved fun _ => on

theorem backspace_saved (saved : CursorSaved s) (displayed : s.currProcess = s.currTer) : CursorSaved (backspace s) := by
  unfold backspace
  split
  · exact saved
  · exact setLine_saved (screenBackspace_saved saved displayed) _ rfl rfl

/-- Screen output does not change which terminal runs and which is displayed. -/
theorem Output.displayed {s s' : Kernel} (h : Output s s') (displayed : s.currProcess = s.currTer) :
    s'.currProcess = s'.currTer := by
  obtain ⟨ts, x, y, c, m, rfl, -⟩ := h; exact displayed

theorem backspace_displayed (displayed : s.currProcess = s.currTer) :
    (backspace s).currProcess = (backspace s).currTer := by
  unfold backspace
  split
  · exact displayed
  · exact (screenBackspace_output s).displayed displayed

theorem upArrow_saved (saved : CursorSaved s) (displayed : s.currProcess = s.currTer) :
    CursorSaved (upArrow s) ∧ (upArrow s).currProcess = (upArrow s).currTer := by
  apply upArrow_rule (P := fun s => CursorSaved s ∧ s.currProcess = s.currTer)
    (Q := fun s => CursorSaved s ∧ s.currProcess = s.currTer) ⟨saved, displayed⟩
  · exact fun s₁ kept => ⟨backspace_saved kept.1 kept.2, backspace_displayed kept.2⟩
  · exact fun s₁ kept => ⟨puts_saved _ (setLine_saved kept.1 _ rfl rfl), (puts_output _ _).displayed kept.2⟩

theorem printChar_saved (saved : CursorSaved s) (c : UInt8) : CursorSaved (printChar c s) := by
  unfold printChar
  split
  · exact saved
  · exact putc_saved (setLine_saved saved _ rfl rfl) c

theorem controlL_saved (saved : CursorSaved s) : CursorSaved (controlL s) :=
  puts_saved _ (setCursor_saved saved.shown)

/-- A terminal switch leaves the running terminal off the screen, whose flag
the next clock tick corrects. -/
theorem switchTerminal_saved (saved : CursorSaved s) (displayed : s.currProcess = s.currTer) (n : Term) :
    CursorSaved (switchTerminal n s) := by
  unfold switchTerminal
  split
  · exact ⟨saved.x, saved.y, fun _ => saved.shown displayed⟩
  · exact saved

theorem characterKey_saved (saved : CursorSaved s) (displayed : s.currProcess = s.currTer) (c : UInt8) :
    CursorSaved (characterKey c s) := by
  unfold characterKey
  split
  · exact backspace_saved saved displayed
  · split
    · exact putc_saved (setLine_saved saved _ rfl rfl) _
    · split
      · exact saved
      · exact printChar_saved saved c

/-- **Keys of the displayed terminal keep the cursor saved.** -/
theorem kbHandler_saved (saved : CursorSaved s) (displayed : s.currProcess = s.currTer) (scancode : UInt8) :
    CursorSaved (kbHandler scancode s) := by
  apply kbHandler_rule (P := fun s => CursorSaved s ∧ s.currProcess = s.currTer) (Q := CursorSaved) scancode
  case arrow =>
    split
    · exact upArrow_saved saved displayed
    · exact ⟨saved, displayed⟩
  case still => exact fun _ kept => kept.1
  case modifiers =>
    intro s₁ shift control alt caps kept
    exact kept.1.of_quiet ⟨rfl, rfl, fun _ => rfl, fun _ => rfl, rfl, rfl, rfl, rfl⟩
  case clear => exact fun s₁ kept => controlL_saved kept.1
  case switch => exact fun s₁ n _ _ kept => switchTerminal_saved kept.1 kept.2 n
  case character => exact fun s₁ _ kept => characterKey_saved kept.1 kept.2 _

end Keys

/-! ## Switches -/

/-- A switch takes the cursor from the terminal it switches to. -/
theorem switchTo_saved {s : Kernel} {next : Term} (pid vidId : Int) (r : Regs) (running : s.currPid s.currProcess ≠ -1) :
    CursorSaved (switchTo next pid vidId r s).2 := by
  simp only [switchTo, if_neg running]
  exact ⟨rfl, rfl, fun displayed => decide_eq_true displayed⟩

end BigBrainOS
