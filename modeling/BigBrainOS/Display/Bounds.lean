import BigBrainOS.Theory.StoreLog
import BigBrainOS.Display.Vidmap
import BigBrainOS.Process.Mapping

/-!
# Where the cursor can be and what the console stores to

The row is compared with 25 by equality only, the column may rest at 80, and the cursor goes back and
forth between two globals and three records. The system of this module takes the steps of the display one
by one, down to the parts of a clock tick; every step keeps the four cursors on the screen, and from
such cursors no store leaves the 4000 bytes of the screen.
-/

namespace BigBrainOS
set_option autoImplicit false

open StoreLog

/-! ## Screens with a log -/

/-- A screen and the offsets that were stored to in its video memory. -/
structure LoggedScreen where
  video : Logged UInt8
  x : Int
  y : Int

def Screen.logged (scr : Screen) : LoggedScreen := ⟨.start scr.video, scr.x, scr.y⟩

namespace LoggedScreen

/-- The screen without its log. -/
def screen (l : LoggedScreen) : Screen := ⟨l.video.memory, l.x, l.y⟩

/-- The two stores to a cell. -/
def setCell (v : Logged UInt8) (x y : Int) (c a : UInt8) : Logged UInt8 :=
  let offset := (numCols * y + x) * 2
  (v.store offset c).store (offset + 1) a

def copyUp (v : Logged UInt8) (x y : Int) : Logged UInt8 :=
  setCell v x y (v.memory (cellOffset x (y + 1))) (v.memory (cellOffset x (y + 1) + 1))

/-- `scroll_up`. -/
def scrollUp (v : Logged UInt8) : Logged UInt8 :=
  let v := (List.range 24).foldl
    (fun v (y : Nat) => (List.range 80).foldl (fun v (x : Nat) => copyUp v x y) v) v
  (List.range 80).foldl (fun v (x : Nat) => setCell v x (numRows - 1) blank attrib) v

/-- `clear`. -/
def clear (v : Logged UInt8) : Logged UInt8 :=
  (List.range 2000).foldl (fun v (i : Nat) => (v.store (2 * i) blank).store (2 * i + 1) attrib) v

def newRow (l : LoggedScreen) : LoggedScreen :=
  if l.y + 1 = numRows then ⟨scrollUp l.video, 0, l.y⟩ else ⟨l.video, 0, l.y + 1⟩

/-- `putc`. -/
def putc (l : LoggedScreen) (c : UInt8) : LoggedScreen :=
  if c = 0x0A ∨ c = 0x0D then l.newRow
  else
    let l := if l.x = numCols then l.newRow else l
    ⟨setCell l.video l.x l.y c attrib, l.x + 1, l.y⟩

/-- `screen_backspace`. -/
def backspace (l : LoggedScreen) : LoggedScreen :=
  let l := if l.x = 0 then { l with y := l.y - 1, x := numCols } else l
  ⟨setCell l.video (l.x - 1) l.y blank attrib, l.x - 1, l.y⟩

/-! ## The log changes nothing -/

theorem setCell_memory (v : Logged UInt8) {x y : Int} (left : 0 ≤ x) (top : 0 ≤ y) (c a : UInt8) :
    (setCell v x y c a).memory = Screen.setCell v.memory x y c a := by
  have second : ((numCols * y + x) * 2 + 1).toNat = cellOffset x y + 1 := by
    simp only [cellOffset, numCols]
    omega
  simp only [setCell, Logged.store, second]
  rfl

theorem scrollUp_memory (v : Logged UInt8) : (scrollUp v).memory = Screen.scrollUp v.memory := by
  have copied : ∀ (w : Logged UInt8) (y : Nat), ((List.range 80).foldl (fun v (x : Nat) => copyUp v x y) w).memory =
      (List.range 80).foldl (fun v (x : Nat) => Screen.copyUp v x y) w.memory := by
    intro w y
    apply Logged.foldl_memory (g := fun v (x : Nat) => Screen.copyUp v x y)
    exact fun u x => setCell_memory u (by omega) (by omega) _ _
  have blanked : ∀ (w : Logged UInt8) (x : Nat),
      (setCell w x (numRows - 1) blank attrib).memory = Screen.setCell w.memory x (numRows - 1) blank attrib :=
    fun w x => setCell_memory w (by omega) (by decide) _ _
  unfold scrollUp Screen.scrollUp
  dsimp only
  rw [Logged.foldl_memory (g := fun v (x : Nat) => Screen.setCell v x (numRows - 1) blank attrib) blanked,
    Logged.foldl_memory (g := fun v (y : Nat) => (List.range 80).foldl (fun v (x : Nat) => Screen.copyUp v x y) v) copied]

theorem clear_memory (v : Logged UInt8) : (clear v).memory = Screen.clear v.memory := by
  unfold clear Screen.clear
  apply Logged.foldl_memory (g := fun v i => Function.update (Function.update v (2 * i) blank) (2 * i + 1) attrib)
  intro w i
  have first : (2 * (i : Int)).toNat = 2 * i := by omega
  have second : (2 * (i : Int) + 1).toNat = 2 * i + 1 := by omega
  simp only [Logged.store, first, second]

variable {l : LoggedScreen}

theorem newRow_screen (l : LoggedScreen) : l.newRow.screen = l.screen.newRow := by
  unfold newRow Screen.newRow
  split
  · next last =>
    rw [if_pos (show l.screen.y + 1 = numRows from last)]
    simp only [screen, scrollUp_memory]
  · next inside =>
    rw [if_neg (show ¬ l.screen.y + 1 = numRows from inside)]
    rfl

theorem putc_screen (range : l.screen.InRange) (c : UInt8) : (l.putc c).screen = l.screen.putc c := by
  unfold putc Screen.putc
  split
  · exact newRow_screen l
  · have row : (if l.x = numCols then l.newRow else l).screen =
        if l.screen.x = numCols then l.screen.newRow else l.screen := by
      rw [← newRow_screen]
      exact apply_ite screen _ _ _
    have onRow : (if l.screen.x = numCols then l.screen.newRow else l.screen).InRange := by
      split
      · exact range.newRow
      · exact range
    dsimp only
    rw [← row] at onRow ⊢
    generalize (if l.x = numCols then l.newRow else l) = l' at onRow
    have left : 0 ≤ l'.x := onRow.left
    have top : 0 ≤ l'.y := onRow.top
    simp only [screen, setCell_memory l'.video left top]

theorem backspace_screen (range : l.screen.InRange) (inside : ¬ (l.x = 0 ∧ l.y = 0)) :
    l.backspace.screen = l.screen.backspace := by
  obtain ⟨left, right, top, bottom⟩ := range
  simp only [screen] at left right top bottom
  have row : (if l.x = 0 then { l with y := l.y - 1, x := numCols } else l).screen =
      if l.screen.x = 0 then { l.screen with y := l.screen.y - 1, x := numCols } else l.screen :=
    apply_ite screen _ _ _
  have cell : 0 ≤ (if l.x = 0 then { l with y := l.y - 1, x := numCols } else l).x - 1 ∧
      0 ≤ (if l.x = 0 then { l with y := l.y - 1, x := numCols } else l).y := by
    split
    · simp only [numCols]
      omega
    · omega
  unfold backspace Screen.backspace
  dsimp only
  rw [← row]
  generalize (if l.x = 0 then { l with y := l.y - 1, x := numCols } else l) = l' at cell
  simp only [screen, setCell_memory l'.video cell.1 cell.2]

/-! ## The stores are on the screen -/

variable {v : Bytes} {m : Logged UInt8}

/-- The bytes of a cell. -/
theorem setCell_traced (traced : Traced v 4000 m) {x y : Int} (left : 0 ≤ x) (right : x < 80) (top : 0 ≤ y) (bottom : y < 25)
    (c a : UInt8) : Traced v 4000 (setCell m x y c a) := by
  unfold setCell
  simp only [numCols]
  apply Traced.store
  · apply traced.store
    · omega
    · omega
  · omega
  · omega

theorem scrollUp_traced (traced : Traced v 4000 m) : Traced v 4000 (scrollUp m) := by
  unfold scrollUp
  apply Traced.foldl
  · apply traced.foldl
    intro y row m traced
    apply traced.foldl
    intro x column m traced
    have := List.mem_range.1 row
    have := List.mem_range.1 column
    exact setCell_traced traced (by omega) (by omega) (by omega) (by omega) _ _
  · intro x column m traced
    have := List.mem_range.1 column
    exact setCell_traced traced (by omega) (by omega) (by decide) (by decide) _ _

theorem clear_traced (traced : Traced v 4000 m) : Traced v 4000 (clear m) := by
  unfold clear
  apply traced.foldl
  intro i member m traced
  have := List.mem_range.1 member
  apply Traced.store
  · apply traced.store
    · omega
    · omega
  · omega
  · omega

theorem newRow_traced (traced : Traced v 4000 l.video) : Traced v 4000 l.newRow.video := by
  unfold newRow
  split
  · exact scrollUp_traced traced
  · exact traced

/-- A column of 80 is left before anything is stored. -/
theorem putc_traced (range : l.screen.InRange) (traced : Traced v 4000 l.video) (c : UInt8) :
    Traced v 4000 (l.putc c).video := by
  unfold putc
  split
  · exact newRow_traced traced
  · dsimp only
    split
    · have row : l.newRow.screen.InRange := by
        rw [newRow_screen]
        exact range.newRow
      have corner : l.newRow.x = 0 := by
        unfold newRow
        split <;> rfl
      apply setCell_traced (newRow_traced traced)
      · omega
      · omega
      · exact row.top
      · exact row.bottom
    · next inside =>
      obtain ⟨left, right, top, bottom⟩ := range
      simp only [screen, numCols, numRows] at left right top bottom inside
      apply setCell_traced traced
      · exact left
      · omega
      · exact top
      · exact bottom

theorem backspace_traced (range : l.screen.InRange) (inside : ¬ (l.x = 0 ∧ l.y = 0)) (traced : Traced v 4000 l.video) :
    Traced v 4000 l.backspace.video := by
  obtain ⟨left, right, top, bottom⟩ := range
  simp only [screen, numCols, numRows] at left right top bottom
  unfold backspace
  dsimp only
  split
  · dsimp only [numCols]
    apply setCell_traced traced
    · omega
    · omega
    · omega
    · omega
  · apply setCell_traced traced
    · omega
    · omega
    · exact top
    · exact bottom

end LoggedScreen

/-! ## The cursors -/

/-- The live cursor and those saved for the three terminals are on the screen, or just behind the end of a row. -/
structure CursorsInRange (s : Kernel) : Prop where
  live : s.screen.InRange
  saved : ∀ t, (s.displays.screen t).InRange

/-- A cursor that is not in the corner goes back to a cell. -/
theorem Screen.InRange.backspace {scr : Screen} (range : scr.InRange) (inside : ¬ (scr.x = 0 ∧ scr.y = 0)) :
    scr.backspace.InRange := by
  obtain ⟨left, right, top, bottom⟩ := range
  simp only [numCols, numRows] at right bottom
  unfold Screen.backspace
  dsimp only
  split
  · constructor <;> dsimp only [numCols, numRows] <;> omega
  · constructor <;> dsimp only [numCols, numRows] <;> omega

namespace CursorsInRange
variable {s s' : Kernel}

theorem of_same (range : CursorsInRange s) (x : s'.screenX = s.screenX) (y : s'.screenY = s.screenY)
    (terminals : s'.terminals = s.terminals) : CursorsInRange s' := by
  refine ⟨range.live.of_cursor x y, fun t => (range.saved t).of_cursor ?_ ?_⟩
  · exact congrArg (fun ts => (ts t).screenXSave) terminals
  · exact congrArg (fun ts => (ts t).screenYSave) terminals

theorem of_quiet (range : CursorsInRange s) (quiet : Quiet s s') : CursorsInRange s' :=
  ⟨range.live.of_cursor quiet.screenX quiet.screenY,
    fun t => (range.saved t).of_cursor (quiet.xSave t) (quiet.ySave t)⟩

/-- The live cursor is saved for the running terminal. -/
theorem saveCursor (range : CursorsInRange s) : CursorsInRange
    (s.setTerminal s.currProcess fun t => { t with screenXSave := s.screenX, screenYSave := s.screenY }) := by
  have saved := s.setTerminal_forall (t := s.currProcess)
    (f := fun t => { t with screenXSave := s.screenX, screenYSave := s.screenY })
    (P := fun _ t => Screen.InRange ⟨s.screen.video, t.screenXSave, t.screenYSave⟩)
    (range.live.of_cursor rfl rfl) fun t _ => (range.saved t).of_cursor rfl rfl
  exact ⟨range.live.of_cursor rfl rfl, fun t => (saved t).of_cursor rfl rfl⟩

theorem setCursor (range : CursorsInRange s) : CursorsInRange (setCursor s) := by
  obtain ⟨-, -, -, -, x, y, terminals⟩ := setCursor_fields s
  exact range.saveCursor.of_same x y terminals

theorem resetCursor (range : CursorsInRange s) : CursorsInRange (resetCursor s) := by
  have corner : CursorsInRange { s with screenX := 0, screenY := 0 } :=
    ⟨.corner rfl rfl, fun t => (range.saved t).of_cursor rfl rfl⟩
  exact corner.saveCursor

theorem setScreen (range : CursorsInRange s) {scr : Screen} (drawn : scr.InRange) : CursorsInRange (s.setScreen scr) :=
  ⟨drawn.of_cursor rfl rfl, fun t => (range.saved t).of_cursor rfl rfl⟩

theorem putc (range : CursorsInRange s) (c : UInt8) : CursorsInRange (putc c s) :=
  (range.setScreen (range.live.putc c)).setCursor

theorem screenBackspace (range : CursorsInRange s) : CursorsInRange (screenBackspace s) := by
  unfold BigBrainOS.screenBackspace
  split
  · exact range
  · next inside =>
    have drawn := range.setScreen (range.live.backspace inside)
    dsimp only
    split
    · exact drawn.setCursor
    · exact drawn

theorem printing : Printing CursorsInRange where
  putc range c := range.putc c
  quiet range quiet := range.of_quiet quiet

/-- The cursor of the screen that Ctrl+L has cleared. -/
theorem cleared (range : CursorsInRange s) : CursorsInRange (BigBrainOS.setCursor (BigBrainOS.resetCursor (clear s))) := by
  have same : CursorsInRange (clear s) := range.of_same rfl rfl rfl
  exact same.resetCursor.setCursor

theorem controlL (range : CursorsInRange s) : CursorsInRange (controlL s) := printing.puts _ range.cleared

theorem switchTerminal (range : CursorsInRange s) (n : Term) : CursorsInRange (switchTerminal n s) := by
  unfold BigBrainOS.switchTerminal
  split
  · exact range.of_same rfl rfl rfl
  · exact range

theorem maskKeyboard (range : CursorsInRange s) (next : Term) : CursorsInRange (maskKeyboard next s) := by
  obtain ⟨on, mask, masked⟩ := maskKeyboard_quiet next s
  rw [masked]
  exact range.of_same rfl rfl rfl

theorem prepareTerminal (range : CursorsInRange s) (next : Term) (vidId : Int) (r : Regs) :
    CursorsInRange (prepareTerminal next vidId r s) := by
  unfold BigBrainOS.prepareTerminal
  dsimp only
  apply resetCursor
  split
  · exact range.of_same rfl rfl rfl
  · exact range.of_same rfl rfl rfl

/-- The cursor of the next terminal becomes the live one. -/
theorem switchTo (range : CursorsInRange s) (next : Term) (pid vidId : Int) (r : Regs) :
    CursorsInRange (switchTo next pid vidId r s).2 := by
  unfold BigBrainOS.switchTo
  split
  · exact range
  · exact ⟨(range.saved next).of_cursor rfl rfl, fun t => (range.saved t).of_cursor rfl rfl⟩

end CursorsInRange

/-! ## Drawing -/

/-- What stores to the screen: the functions of `lib.c`, and Ctrl+L. -/
inductive Drawing where
  | putc (c : UInt8)
  | screenBackspace
  | clear
  | controlL

def Drawing.run (d : Drawing) (s : Kernel) : Kernel :=
  match d with
  | .putc c => BigBrainOS.putc c s
  | .screenBackspace => BigBrainOS.screenBackspace s
  | .clear => BigBrainOS.clear s
  | .controlL => BigBrainOS.controlL s

/-- The offsets from `video_mem` that the characters of a text are stored to. -/
def putsStores : List UInt8 → Kernel → List Int
  | [], _ => []
  | c :: text, s => (s.screen.logged.putc c).video.log ++ putsStores text (putc c s)

/-- The offsets from `video_mem` that are stored to. -/
def Drawing.stores (d : Drawing) (s : Kernel) : List Int :=
  match d with
  | .putc c => (s.screen.logged.putc c).video.log
  | .screenBackspace => if s.screenX = 0 ∧ s.screenY = 0 then [] else s.screen.logged.backspace.video.log
  | .clear => (LoggedScreen.clear s.screen.logged.video).log
  | .controlL =>
    let cleared := setCursor (resetCursor (BigBrainOS.clear s))
    let t := cleared.terminals cleared.currTer
    (LoggedScreen.clear s.screen.logged.video).log ++ putsStores ((List.range t.bufLen).map t.typing) cleared

/-- The stores from `s` to `s'` are on the screen, and all that changes in memory. -/
structure Drawn (s s' : Kernel) (stores : List Int) : Prop where
  inside : ∀ o ∈ stores, 0 ≤ o ∧ o < 4000
  only : ∀ a, s'.phys a ≠ s.phys a → a / pageSize = s.videoFrame ∧ ((a % pageSize : Nat) : Int) ∈ stores

namespace Drawn
variable {s s' s'' : Kernel} {stores stores' : List Int}

theorem of_phys (same : s'.phys = s.phys) : Drawn s s' [] :=
  ⟨fun _ member => absurd member List.not_mem_nil, fun a changed => absurd (congrFun same a) changed⟩

theorem trans (first : Drawn s s' stores) (second : Drawn s' s'' stores') (frame : s'.videoFrame = s.videoFrame) :
    Drawn s s'' (stores ++ stores') := by
  refine ⟨fun o member => ?_, fun a changed => ?_⟩
  · rcases List.mem_append.1 member with early | late
    · exact first.inside o early
    · exact second.inside o late
  · by_cases later : s''.phys a = s'.phys a
    · rw [later] at changed
      obtain ⟨page, stored⟩ := first.only a changed
      exact ⟨page, List.mem_append_left _ stored⟩
    · obtain ⟨page, stored⟩ := second.only a later
      exact ⟨page.trans frame, List.mem_append_right _ stored⟩

/-- A page that was drawn with a log. -/
theorem of_traced {v : Logged UInt8} (traced : Traced (s.frame s.videoFrame) 4000 v)
    (stored : s'.phys = (s.setFrame s.videoFrame v.memory).phys) : Drawn s s' v.log := by
  refine ⟨fun o member => ?_, fun a changed => ?_⟩
  · have := traced.inside o member
    omega
  · rw [stored] at changed
    simp only [Kernel.setFrame] at changed
    split at changed
    · next page =>
      refine ⟨page, ?_⟩
      by_contra unlogged
      apply changed
      rw [traced.outside _ unlogged, Kernel.frame, ← page, Nat.div_add_mod' a pageSize]
    · exact absurd rfl changed

theorem putc (range : s.screen.InRange) (c : UInt8) : Drawn s (putc c s) (s.screen.logged.putc c).video.log := by
  apply of_traced (LoggedScreen.putc_traced (l := s.screen.logged) range (.start _ _) c)
  have drawn := congrArg Screen.video (LoggedScreen.putc_screen (l := s.screen.logged) range c)
  have memory : (s.screen.logged.putc c).video.memory = (s.screen.putc c).video := drawn
  rw [memory]
  exact (setCursor_fields _).1

theorem screenBackspace (range : s.screen.InRange) : Drawn s (screenBackspace s) (Drawing.screenBackspace.stores s) := by
  unfold BigBrainOS.screenBackspace Drawing.stores
  dsimp only
  split
  · exact of_phys rfl
  · next inside =>
    apply of_traced (LoggedScreen.backspace_traced (l := s.screen.logged) range inside (.start _ _))
    have drawn := congrArg Screen.video (LoggedScreen.backspace_screen (l := s.screen.logged) range inside)
    have memory : s.screen.logged.backspace.video.memory = s.screen.backspace.video := drawn
    rw [memory]
    split
    · exact (setCursor_fields _).1
    · rfl

theorem clear (s : Kernel) : Drawn s (clear s) (LoggedScreen.clear s.screen.logged.video).log := by
  apply of_traced (LoggedScreen.clear_traced (.start _ _))
  rw [LoggedScreen.clear_memory]
  rfl

/-- Output does not change the mapping. -/
theorem puts (range : CursorsInRange s) (text : List UInt8) : Drawn s (puts text s) (putsStores text s) := by
  induction text generalizing s with
  | nil => exact of_phys rfl
  | cons c text ih =>
    have frame : (BigBrainOS.putc c s).videoFrame = s.videoFrame := by
      obtain ⟨ts, x, y, v, m, e, -⟩ := putc_output c s
      rw [e]
      rfl
    exact (putc range.live c).trans (ih (range.putc c)) frame

theorem controlL (range : CursorsInRange s) : Drawn s (controlL s) (Drawing.controlL.stores s) := by
  have cursor : (setCursor (resetCursor (BigBrainOS.clear s))).phys = (BigBrainOS.clear s).phys := (setCursor_fields _).1
  have frame : (setCursor (resetCursor (BigBrainOS.clear s))).videoFrame = s.videoFrame :=
    congrArg (fun pages => (pages videoPage).address) (setCursor_fields _).2.1
  have cleared := clear s
  have drawn : Drawn s (setCursor (resetCursor (BigBrainOS.clear s))) (LoggedScreen.clear s.screen.logged.video).log :=
    ⟨cleared.inside, fun a changed => cleared.only a (by rwa [cursor] at changed)⟩
  exact drawn.trans (puts range.cleared _) frame

end Drawn

/-- From such cursors, whatever is drawn stays on the screen. -/
theorem CursorsInRange.drawn {s : Kernel} (range : CursorsInRange s) (d : Drawing) : Drawn s (d.run s) (d.stores s) := by
  cases d with
  | putc c => exact .putc range.live c
  | screenBackspace => exact .screenBackspace range.live
  | clear => exact .clear s
  | controlL => exact .controlL range

/-! ## The system -/

/-- A step of the display. A clock tick is the first part, then either the boot of a terminal with the
statements of `sys_execute`, or the second. -/
inductive ScreenOp where
  | draw (d : Drawing)
  | switchTerminal (n : Term)
  | maskKeyboard (next : Term)
  | prepareTerminal (next : Term) (vidId : Int) (r : Regs)
  | switchTo (next : Term) (pid vidId : Int) (r : Regs)
  /-- Whatever else the kernel or a program does. -/
  | quiet (after : Kernel)

def ScreenOp.run (op : ScreenOp) (s : Kernel) : Kernel :=
  match op with
  | .draw d => d.run s
  | .switchTerminal n => BigBrainOS.switchTerminal n s
  | .maskKeyboard next => BigBrainOS.maskKeyboard next s
  | .prepareTerminal next vidId r => BigBrainOS.prepareTerminal next vidId r s
  | .switchTo next pid vidId r => (BigBrainOS.switchTo next pid vidId r s).2
  | .quiet after => after

def ScreenOp.Allowed (op : ScreenOp) (s : Kernel) : Prop :=
  match op with
  | .quiet after => Quiet s after
  | _ => True

/-- The steps of the display, in any order. -/
def screenSteps : TransitionSystem Kernel ScreenOp where
  ok s op := op.Allowed s
  next s op := op.run s

/-- Every step keeps the cursors on the screen. -/
theorem CursorsInRange.step {s : Kernel} (range : CursorsInRange s) {op : ScreenOp} (allowed : op.Allowed s) :
    CursorsInRange (op.run s) := by
  cases op with
  | draw d =>
    cases d with
    | putc c => exact range.putc c
    | screenBackspace => exact range.screenBackspace
    | clear => exact range.of_same rfl rfl rfl
    | controlL => exact range.controlL
  | switchTerminal n => exact range.switchTerminal n
  | maskKeyboard next => exact range.maskKeyboard next
  | prepareTerminal next vidId r => exact range.prepareTerminal next vidId r
  | switchTo next pid vidId r => exact range.switchTo next pid vidId r
  | quiet after => exact range.of_quiet allowed

/-- Some order of these steps leads to `s` from the start of the machine. -/
abbrev ScreenRun (s : Kernel) : Prop := screenSteps.Reach AtEntry s

theorem ScreenRun.inRange {s : Kernel} (run : ScreenRun s) : CursorsInRange s := by
  apply run.invariant
  · rintro s₀ ⟨m, rfl⟩
    exact ⟨.corner rfl rfl, fun t => .corner rfl rfl⟩
  · exact fun s₀ op range allowed => range.step allowed

/-! ## Runs of the kernel -/

namespace ScreenRun
variable {s : Kernel}

/-- One step more. -/
theorem next (run : ScreenRun s) (op : ScreenOp) (allowed : op.Allowed s) : ScreenRun (op.run s) :=
  TransitionSystem.Reach.step op run allowed

theorem printing : Printing ScreenRun where
  putc run c := run.next (.draw (.putc c)) trivial
  quiet run quiet := run.next (.quiet _) quiet

theorem backspace (run : ScreenRun s) : ScreenRun (backspace s) := by
  unfold BigBrainOS.backspace
  split
  · exact run
  · have erased : ScreenRun (screenBackspace s) := run.next (.draw .screenBackspace) trivial
    exact printing.quiet erased (.setTerminal _ _ _ rfl rfl)

theorem upArrow (run : ScreenRun s) : ScreenRun (upArrow s) := by
  apply upArrow_rule run
  · exact fun s₁ run => run.backspace
  · exact fun s₁ run => printing.puts _ (printing.quiet run (.setTerminal _ _ _ rfl rfl))

theorem characterKey (run : ScreenRun s) (c : UInt8) : ScreenRun (characterKey c s) := by
  unfold BigBrainOS.characterKey
  split
  · exact run.backspace
  split
  · exact printing.putc (printing.quiet run (.setTerminal _ _ _ rfl rfl)) _
  split
  · exact run
  · unfold printChar
    split
    · exact run
    · exact printing.putc (printing.quiet run (.setTerminal _ _ _ rfl rfl)) c

/-- Every key, whichever terminal runs. -/
theorem kbHandler (run : ScreenRun s) (scancode : UInt8) : ScreenRun (kbHandler scancode s) := by
  apply kbHandler_rule (P := ScreenRun) (Q := ScreenRun) scancode
  case arrow =>
    split
    · exact run.upArrow
    · exact run
  case still => exact fun _ run => run
  case modifiers =>
    intro s₁ shift control alt caps run
    exact printing.quiet run ⟨rfl, rfl, fun _ => rfl, fun _ => rfl, rfl, rfl, rfl, rfl⟩
  case clear => exact fun s₁ run => run.next (.draw .controlL) trivial
  case switch => exact fun s₁ n _ _ run => run.next (.switchTerminal n) trivial
  case character => exact fun s₁ _ run => run.characterKey _

/-- A clock tick with the launch of a base shell in it. -/
theorem switchRunningProcess (run : ScreenRun s) (env : Env) (r : Regs) (fr : ExecFrame) :
    ScreenRun (switchRunningProcess env r fr s).2 := by
  apply switchRunningProcess_rule r run
  case mask => exact fun _ next run => run.next (.maskKeyboard next) trivial
  case prepare => exact fun _ next vidId _ run => run.next (.prepareTerminal next vidId r) trivial
  case launch => exact fun _ run => printing.kept.sysExecute env fr (shellCommand env) run
  case switch => exact fun _ next pid vidId _ run => run.next (.switchTo next pid vidId r) trivial

theorem sysVidmap (run : ScreenRun s) (tableAddr : Nat) (screenStart : BitVec 32) :
    ScreenRun (sysVidmap tableAddr screenStart s).2 := by
  have mapped : ScreenRun (getVidmem tableAddr s) :=
    printing.quiet run ⟨rfl, rfl, fun _ => rfl, fun _ => rfl, rfl, rfl, rfl, rfl⟩
  unfold BigBrainOS.sysVidmap
  split
  · exact run
  split
  · exact run
  dsimp only
  split
  · exact mapped
  · next stored => exact printing.quiet mapped (.of_stored (storeBytes_stored stored))

/-- Every call, interrupt and page fault of the kernel is a run of these steps. -/
theorem machineOp (run : ScreenRun s) (env : Env) (tableAddr : Nat) (op : MachineOp) :
    ScreenRun (op.run env tableAddr s) := by
  cases op with
  | call op =>
    cases op with
    | execute fr exc command => exact printing.kept.executeCall env fr exc command run
    | halt fr status => exact printing.kept.sysHalt env fr status run
    | tick r fr => exact run.switchRunningProcess env r fr
    | putc c => exact printing.putc run c
    | key scancode => exact run.kbHandler scancode
  | vidmap screenStart => exact run.sysVidmap tableAddr screenStart
  | pageFault exc => exact printing.kept.pfHandler env exc run

end ScreenRun

/-- **The cursor and the screen.** After every step the four cursors are on the screen, whatever is drawn
next stores to the screen only, and the kernel does nothing but such steps. -/
theorem cursors_inRange {s : Kernel} (run : ScreenRun s) :
    CursorsInRange s ∧ (∀ d : Drawing, Drawn s (d.run s) (d.stores s)) ∧
      ∀ env tableAddr (op : MachineOp), ScreenRun (op.run env tableAddr s) :=
  ⟨run.inRange, run.inRange.drawn, fun env tableAddr op => run.machineOp env tableAddr op⟩

/-- A character at the start of the machine. -/
def firstCharacter : Kernel := putc 0x41 (entry ⟨fun _ => 0, fun _ => .zero, 0x26, 0⟩)

theorem cursors_inRange_first :
    CursorsInRange firstCharacter ∧ (∀ d : Drawing, Drawn firstCharacter (d.run firstCharacter) (d.stores firstCharacter)) ∧
      ∀ env tableAddr (op : MachineOp), ScreenRun (op.run env tableAddr firstCharacter) := by
  have start : ScreenRun (entry ⟨fun _ => 0, fun _ => .zero, 0x26, 0⟩) := .base ⟨_, rfl⟩
  exact cursors_inRange (start.next (.draw (.putc 0x41)) trivial)

end BigBrainOS
