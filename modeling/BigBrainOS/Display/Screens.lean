import BigBrainOS.Kernel.Keyboard

/-!
# Three virtual screens

What the display is for: three independent screens, one of which is shown.
Output goes to the screen of the running terminal, a clock tick passes the
processor on, and a terminal switch only chooses another screen to show.
-/

namespace BigBrainOS
set_option autoImplicit false

/-! ## The screens -/

/-- Three screens, the running terminal and the displayed one. -/
structure Displays where
  screen : Term → Screen
  running : Term
  shown : Term

/-- What can happen to the display. -/
inductive DisplayOp where
  /-- A clock tick; `exc` is what the page fault handler of a base shell's loader finds on the stack. -/
  | tick (r : Regs) (fr exc : ExecFrame)
  /-- Output of the running process. -/
  | putc (c : UInt8)
  /-- The Alt key goes down or up. -/
  | alt (down : Bool)
  /-- A function key goes down. -/
  | fn (n : Term)

/-- The scan codes of F1, F2 and F3. -/
def fnKey (n : Term) : UInt8 := 0x3B + UInt8.ofNat n.val

/-- The three screens after a step. -/
def Displays.step (d : Displays) : DisplayOp → Displays
  | .tick _ _ _ => { d with running := d.running + 1 }
  | .putc c => { d with screen := Function.update d.screen d.running ((d.screen d.running).putc c) }
  | .alt _ => d
  | .fn n => { d with shown := n }

/-- The cursor is on the screen, or just behind the end of a row. -/
structure Screen.InRange (scr : Screen) : Prop where
  left : 0 ≤ scr.x
  right : scr.x ≤ numCols
  top : 0 ≤ scr.y
  bottom : scr.y < numRows

/-- Two pieces of memory agree on a page. -/
def SamePage (v w : Bytes) : Prop := ∀ k < pageSize, v k = w k

namespace SamePage
variable {v w : Bytes}

theorem update (same : SamePage v w) (a : Nat) (b : UInt8) : SamePage (Function.update v a b) (Function.update w a b) := by
  intro k inside
  by_cases e : k = a
  · rw [e, Function.update_self, Function.update_self]
  · rw [Function.update_of_ne e, Function.update_of_ne e]; exact same k inside

theorem setCell (same : SamePage v w) (x y : Int) (c a : UInt8) :
    SamePage (Screen.setCell v x y c a) (Screen.setCell w x y c a) := (same.update _ _).update _ _

/-- The cells that `scroll_up` reads lie on the page. -/
theorem copyUp (same : SamePage v w) {x y : Nat} (column : x < 80) (row : y < 24) :
    SamePage (Screen.copyUp v x y) (Screen.copyUp w x y) := by
  have first : cellOffset x (y + 1) < pageSize := by simp only [cellOffset, numCols, pageSize]; omega
  have second : cellOffset x (y + 1) + 1 < pageSize := by simp only [cellOffset, numCols, pageSize]; omega
  unfold Screen.copyUp
  rw [same _ first, same _ second]
  exact same.setCell _ _ _ _

theorem scrollUp (same : SamePage v w) : SamePage (Screen.scrollUp v) (Screen.scrollUp w) := by
  unfold Screen.scrollUp
  refine List.foldl_rel ?_ fun x _ v w same => same.setCell _ _ _ _
  refine List.foldl_rel same fun y row v w same => ?_
  refine List.foldl_rel same fun x column v w same => ?_
  exact same.copyUp (List.mem_range.1 column) (List.mem_range.1 row)

end SamePage

/-- Two screens look alike: the same page and the same cursor. -/
structure Screen.Same (a b : Screen) : Prop where
  video : SamePage a.video b.video
  x : a.x = b.x
  y : a.y = b.y

theorem Screen.Same.newRow {a b : Screen} (same : a.Same b) : a.newRow.Same b.newRow := by
  unfold Screen.newRow
  rw [same.y]
  split
  · exact ⟨same.video.scrollUp, rfl, rfl⟩
  · exact ⟨same.video, rfl, rfl⟩

/-- Output to screens that look alike. -/
theorem Screen.Same.putc {a b : Screen} (same : a.Same b) (c : UInt8) : (a.putc c).Same (b.putc c) := by
  unfold Screen.putc
  split
  · exact same.newRow
  · dsimp only
    rw [same.x]
    split
    · have row := same.newRow
      refine ⟨?_, by rw [row.x], row.y⟩
      rw [row.x, row.y]
      exact row.video.setCell _ _ _ _
    · refine ⟨?_, by rw [same.x], same.y⟩
      rw [same.x, same.y]
      exact same.video.setCell _ _ _ _

theorem Screen.InRange.newRow {scr : Screen} (h : scr.InRange) : scr.newRow.InRange := by
  obtain ⟨left, right, top, bottom⟩ := h
  unfold Screen.newRow
  simp only [numRows] at *
  split
  · exact ⟨by simp, by simp, top, bottom⟩
  · refine ⟨by simp, by simp, ?_, ?_⟩
    · simp only; omega
    · simp only [numRows]; omega

/-- Output leaves the cursor on the screen. -/
theorem Screen.InRange.putc {scr : Screen} (h : scr.InRange) (c : UInt8) : (scr.putc c).InRange := by
  unfold Screen.putc
  split
  · exact h.newRow
  · dsimp only
    split
    · have row := h.newRow
      have corner : scr.newRow.x = 0 := by unfold Screen.newRow; split <;> rfl
      exact ⟨by simp only [corner]; omega, by simp only [corner, numCols]; omega, row.top, row.bottom⟩
    · next inside =>
      obtain ⟨left, right, top, bottom⟩ := h
      simp only [numCols] at right inside
      exact ⟨by simp only; omega, by simp only [numCols]; omega, top, bottom⟩

/-- The cursor alone decides whether a screen is in range. -/
theorem Screen.InRange.of_cursor {a b : Screen} (h : a.InRange) (x : b.x = a.x) (y : b.y = a.y) : b.InRange :=
  ⟨x ▸ h.left, x ▸ h.right, y ▸ h.top, y ▸ h.bottom⟩

/-- The cursor after `reset_cursor`. -/
theorem Screen.InRange.corner {scr : Screen} (x : scr.x = 0) (y : scr.y = 0) : scr.InRange :=
  ⟨Int.le_of_eq x.symm, by rw [x]; decide, Int.le_of_eq y.symm, by rw [y]; decide⟩

theorem SamePage.refl (v : Bytes) : SamePage v v := fun _ _ => rfl

theorem SamePage.trans {u v w : Bytes} (h : SamePage u v) (h' : SamePage v w) : SamePage u w :=
  fun k inside => (h k inside).trans (h' k inside)

end BigBrainOS
