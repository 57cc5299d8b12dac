import BigBrainOS.Kernel.Paging
import BigBrainOS.Kernel.Strings

/-!
# Screen output of `lib.c`

`putc`, `scroll_up`, `clear` and `screen_backspace` work on the page that
`video_mem` points to and on the cursor. They are first given on a `Screen`,
which is just that: the bytes from `video_mem` on and the two cursor variables.
The kernel runs them on the physical frame behind the video page and then saves
the cursor in the state of the running terminal, as `set_cursor` does.
-/

namespace BigBrainOS
set_option autoImplicit false

abbrev numCols : Int := 80
abbrev numRows : Int := 25
/-- `ATTRIB`. -/
abbrev attrib : UInt8 := 0x7
abbrev blank : UInt8 := 0x20

/-- The bytes behind `video_mem` and the cursor. -/
structure Screen where
  video : Bytes
  x : Int
  y : Int

/-- The byte offset of a cell: `(NUM_COLS * y + x) << 1`. -/
def cellOffset (x y : Int) : Nat := ((numCols * y + x) * 2).toNat

namespace Screen

/-- Store a character and its attribute in a cell. -/
def setCell (v : Bytes) (x y : Int) (c a : UInt8) : Bytes :=
  Function.update (Function.update v (cellOffset x y) c) (cellOffset x y + 1) a

/-- Copy the cell below. -/
def copyUp (v : Bytes) (x y : Int) : Bytes :=
  setCell v x y (v (cellOffset x (y + 1))) (v (cellOffset x (y + 1) + 1))

/-- `scroll_up`: every row takes the row below, the last one is blanked. -/
def scrollUp (v : Bytes) : Bytes :=
  let v := (List.range 24).foldl
    (fun v (y : Nat) => (List.range 80).foldl (fun v (x : Nat) => copyUp v x y) v) v
  (List.range 80).foldl (fun v (x : Nat) => setCell v x (numRows - 1) blank attrib) v

/-- `clear`. -/
def clear (v : Bytes) : Bytes :=
  (List.range 2000).foldl (fun v i => Function.update (Function.update v (2 * i) blank) (2 * i + 1) attrib) v

/-- `screen_y++`, scrolling when the row runs off the screen, and `screen_x = 0`. -/
def newRow (scr : Screen) : Screen :=
  if scr.y + 1 = numRows then ⟨scrollUp scr.video, 0, scr.y⟩ else ⟨scr.video, 0, scr.y + 1⟩

/-- `putc`, up to the call of `set_cursor`. -/
def putc (scr : Screen) (c : UInt8) : Screen :=
  if c = 0x0A ∨ c = 0x0D then scr.newRow
  else
    let scr := if scr.x = numCols then scr.newRow else scr
    ⟨setCell scr.video scr.x scr.y c attrib, scr.x + 1, scr.y⟩

/-- `screen_backspace`, without the test for the top left corner and the call
of `set_cursor`. -/
def backspace (scr : Screen) : Screen :=
  let scr := if scr.x = 0 then { scr with y := scr.y - 1, x := numCols } else scr
  ⟨setCell scr.video (scr.x - 1) scr.y blank attrib, scr.x - 1, scr.y⟩

end Screen

namespace Kernel

/-- The physical frame that linear page 0xB8 is mapped to. -/
def videoFrame (s : Kernel) : Nat := (s.pageTable videoPage).address

/-- The contents of a physical frame. -/
def frame (s : Kernel) (n : Nat) : Bytes := fun k => s.phys (n * pageSize + k)

/-- What `video_mem`, `screen_x` and `screen_y` denote. -/
def screen (s : Kernel) : Screen := ⟨s.frame s.videoFrame, s.screenX, s.screenY⟩

/-- Store the bytes of one frame. -/
def setFrame (s : Kernel) (n : Nat) (v : Bytes) : Kernel :=
  { s with phys := fun a => if a / pageSize = n then v (a % pageSize) else s.phys a }

/-- Store the video page and the cursor back. -/
def setScreen (s : Kernel) (scr : Screen) : Kernel :=
  { s.setFrame s.videoFrame scr.video with screenX := scr.x, screenY := scr.y }

end Kernel

/-- `update_cursor`: the 16-bit position sent to the VGA registers. -/
def updateCursor (x y : Int) (s : Kernel) : Kernel :=
  { s with vgaCursor := ((y * numCols + x) % 2 ^ 16).toNat }

/-- `set_cursor`. -/
def setCursor (s : Kernel) : Kernel :=
  let s := s.setTerminal s.currProcess fun t => { t with screenXSave := s.screenX, screenYSave := s.screenY }
  if s.onScreen then updateCursor s.screenX s.screenY s else s

/-- `restore_cursor`. -/
def restoreCursor (x y : Int) (s : Kernel) : Kernel := { s with screenX := x, screenY := y }

/-- `reset_cursor`. -/
def resetCursor (s : Kernel) : Kernel :=
  let s := { s with screenX := 0, screenY := 0 }
  s.setTerminal s.currProcess fun t => { t with screenXSave := s.screenX, screenYSave := s.screenY }

/-- `putc`. -/
def putc (c : UInt8) (s : Kernel) : Kernel := setCursor (s.setScreen (s.screen.putc c))

/-- `puts`, and `printf` once its format is expanded: the characters one by one. -/
def puts (text : List UInt8) (s : Kernel) : Kernel := text.foldl (fun s c => putc c s) s

/-- `clear`. -/
def clear (s : Kernel) : Kernel := s.setFrame s.videoFrame (Screen.clear (s.frame s.videoFrame))

/-- `screen_backspace`. -/
def screenBackspace (s : Kernel) : Kernel :=
  if s.screenX = 0 ∧ s.screenY = 0 then s
  else
    let s := s.setScreen s.screen.backspace
    if s.onScreen then setCursor s else s

/-- Copy a page of linear memory to another, as the two `memcpy` calls of
`swap_vid_mem` do through the current page table. -/
def copyPage (dest src : Nat) (s : Kernel) : Kernel :=
  s.setFrame (s.pageTable dest).address (s.frame (s.pageTable src).address)

/-- `swap_vid_mem`. -/
def swapVidMem (old new : Term) (s : Kernel) : Kernel :=
  copyPage videoPage (videoPage + (new + 1)) (copyPage (videoPage + (old + 1)) videoPage s)

end BigBrainOS
