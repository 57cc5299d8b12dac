import BigBrainOS.Kernel.Console
import BigBrainOS.Kernel.Pit

/-!
# The keyboard handler of `keyboard.c`

`KB_handler` edits the line of the displayed terminal and echoes it through
`putc`, which writes to the screen of the running process; Alt with a function
key changes the displayed terminal.
-/

namespace BigBrainOS
set_option autoImplicit false

/-! ## Scan code tables -/

/-- `kbdus`; the entries behind the listed ones are 0. -/
def kbdus : List UInt8 :=
  message "\x00\x001234567890-=\x08\tqwertyuiop[]\n\x00asdfghjkl;'`\x00\\zxcvbnm,./\x00*\x00 \x00" ++
    List.replicate 15 0 ++ message "-\x00\x00\x00+"

/-- `shift_kbdus`. -/
def shiftKbdus : List UInt8 :=
  message "\x00\x00!@#$%^&*()_+\x08\tQWERTYUIOP\x7b\x7d\n\x00ASDFGHJKL:\"~\x00|ZXCVBNM<>?\x00*\x00 \x00" ++
    List.replicate 15 0 ++ message "-\x00\x00\x00+"

/-- `caps_kbdus`. -/
def capsKbdus : List UInt8 :=
  message "\x00\x001234567890-=\x08\tQWERTYUIOP[]\n\x00ASDFGHJKL;'`\x00\\ZXCVBNM,./\x00*\x00 \x00" ++
    List.replicate 15 0 ++ message "-\x00\x00\x00+"

/-- `get_character_code`. -/
def getCharacterCode (scancode : UInt8) (s : Kernel) : UInt8 :=
  let key := (scancode &&& 0x7F).toNat
  if s.shiftPressed then shiftKbdus.getD key 0
  else if s.capsLockOn then capsKbdus.getD key 0
  else kbdus.getD key 0

/-! ## Editing the line of the displayed terminal -/

/-- `retype_buffer`. -/
def retypeBuffer (s : Kernel) : Kernel :=
  let t := s.terminals s.currTer
  puts ((List.range t.bufLen).map t.typing) s

/-- `print_char`. -/
def printChar (c : UInt8) (s : Kernel) : Kernel :=
  if (s.terminals s.currTer).bufLen ≥ bufSize - 1 then s
  else
    putc c (s.setTerminal s.currTer fun t =>
      { t with typing := Function.update t.typing t.bufLen c, bufLen := t.bufLen + 1 })

/-- `control_l`. -/
def controlL (s : Kernel) : Kernel := retypeBuffer (setCursor (resetCursor (clear s)))

/-- `backspace`. -/
def backspace (s : Kernel) : Kernel :=
  if (s.terminals s.currTer).bufLen = 0 then s
  else
    (screenBackspace s).setTerminal s.currTer fun t =>
      { t with bufLen := t.bufLen - 1, typing := Function.update t.typing (t.bufLen - 1) 0 }

/-- What `enter_key` does to the terminal's buffers. -/
def submitLine (t : TerminalState) : TerminalState :=
  let line : Bytes := fun i => if t.bufLen ≤ i ∧ i < bufSize then 0 else t.typing i
  { t with
    typed := fun i => if i < bufSize then line i else t.typed i
    history := fun i => if i < bufSize then line i else t.history i
    typing := fun i => if i < bufSize then 0 else line i
    writtenBytes := t.bufLen + 1
    bufLen := 0
    bufferUpdated := true }

/-- `enter_key`. -/
def enterKey (s : Kernel) : Kernel := putc 0x0A (s.setTerminal s.currTer submitLine)

/-- The branch of `KB_handler` for the up arrow. -/
def upArrow (s : Kernel) : Kernel :=
  let s := (List.range (s.terminals s.currTer).bufLen).foldl (fun s _ => backspace s) s
  let s := s.setTerminal s.currTer fun t =>
    { t with
      typing := fun i => if i < bufSize then t.history i else t.typing i
      bufLen := strlen t.history bufSize }
  retypeBuffer s

/-- **The rule of the up arrow.** The line is erased, and then the history is put in its place. -/
theorem upArrow_rule {P Q : Kernel → Prop} {s : Kernel} (start : P s) (erase : ∀ s, P s → P (backspace s))
    (copy : ∀ s, P s → Q (retypeBuffer (s.setTerminal s.currTer fun t =>
      { t with
        typing := fun i => if i < bufSize then t.history i else t.typing i
        bufLen := strlen t.history bufSize }))) : Q (upArrow s) := by
  have erased : ∀ (l : List Nat) (s : Kernel), P s → P (l.foldl (fun s _ => backspace s) s) := by
    intro l
    induction l with
    | nil => exact fun _ start => start
    | cons i l ih => exact fun s start => ih _ (erase s start)
  exact copy _ (erased _ s start)

/-! ## Terminal switches -/

/-- `switch_ter`. -/
def switchTer (old new : Term) (s : Kernel) : Kernel :=
  let s := changeVidmem old.val (swapVidMem old new s)
  let s := { s with currTer := new }
  updateCursor (s.terminals new).screenXSave (s.terminals new).screenYSave s

/-- The macro `switch_terminal_or_return`. -/
def switchTerminal (n : Term) (s : Kernel) : Kernel :=
  if s.currTer ≠ n then switchTer s.currTer n s else s

/-! ## `KB_handler` -/

/-- The `switch` over modifier keys: `some` where the handler returns. -/
def modifierKey (scancode : UInt8) (s : Kernel) : Option Kernel :=
  if scancode = 0x2A ∨ scancode = 0x36 then some { s with shiftPressed := true }
  else if scancode = 0xAA ∨ scancode = 0xB6 then some { s with shiftPressed := false }
  else if scancode = 0x1D then some { s with controlPressed := true }
  else if scancode = 0x9D then some { s with controlPressed := false }
  else if scancode = 0x38 then some { s with altPressed := true }
  else if scancode = 0xB8 then some { s with altPressed := false }
  else if scancode = 0x3A then some { s with capsLockOn := !s.capsLockOn }
  else none

/-- A modifier key changes the flags of the modifiers. -/
theorem modifierKey_some {scancode : UInt8} {s s' : Kernel} (modified : modifierKey scancode s = some s') :
    ∃ shift control alt caps,
      s' = { s with shiftPressed := shift, controlPressed := control, altPressed := alt, capsLockOn := caps } := by
  unfold modifierKey at modified
  (repeat' split at modified) <;>
    first
      | (obtain rfl := Option.some.inj modified; exact ⟨_, _, _, _, rfl⟩)
      | cases modified

/-- "Character Handling". -/
def characterKey (c : UInt8) (s : Kernel) : Kernel :=
  if c = 0x08 then backspace s
  else if c = 0x0A then enterKey s
  else if c = 0 then s
  else printChar c s

/-- "Command Handling" and what follows, for a key that was pressed down. -/
def keyDown (scancode : UInt8) (s : Kernel) : Kernel :=
  if s.controlPressed = true ∧ scancode = 0x26 then controlL s
  else if s.altPressed = true ∧ scancode = 0x3B then switchTerminal 0 s
  else if s.altPressed = true ∧ scancode = 0x3C then switchTerminal 1 s
  else if s.altPressed = true ∧ scancode = 0x3D then switchTerminal 2 s
  else characterKey (getCharacterCode scancode s) s

/-- `KB_handler` for the scan code read from the data port. -/
def kbHandler (scancode : UInt8) (s : Kernel) : Kernel :=
  let s := if scancode = 0x48 then upArrow s else s
  match modifierKey scancode s with
  | some s' => s'
  | none => if scancode &&& 0x80 = 0 then keyDown scancode s else s

/-- **The handler's rule.** What holds behind the up arrow and is kept or turned into `Q` by each part of the
handler holds after it. -/
theorem kbHandler_rule {P Q : Kernel → Prop} (scancode : UInt8) {s : Kernel}
    (arrow : P (if scancode = 0x48 then upArrow s else s)) (still : ∀ s, P s → Q s)
    (modifiers : ∀ s shift control alt caps, P s →
      Q { s with shiftPressed := shift, controlPressed := control, altPressed := alt, capsLockOn := caps })
    (clear : ∀ s, P s → Q (controlL s))
    (switch : ∀ s (n : Term), scancode = 0x3B + UInt8.ofNat n.val → s.altPressed = true → P s → Q (switchTerminal n s))
    (character : ∀ s, scancode &&& 0x80 = 0 → P s → Q (characterKey (getCharacterCode scancode s) s)) :
    Q (kbHandler scancode s) := by
  unfold kbHandler
  dsimp only
  generalize (if scancode = 0x48 then upArrow s else s) = s₁ at arrow
  split
  · next s' modified =>
    obtain ⟨shift, control, alt, caps, rfl⟩ := modifierKey_some modified
    exact modifiers s₁ shift control alt caps arrow
  split
  · next down =>
    unfold keyDown
    split
    · exact clear s₁ arrow
    split
    · next key => exact switch s₁ 0 key.2 key.1 arrow
    split
    · next key => exact switch s₁ 1 key.2 key.1 arrow
    split
    · next key => exact switch s₁ 2 key.2 key.1 arrow
    · exact character s₁ down arrow
  · exact still s₁ arrow

/-- The up arrow has no character of its own. -/
example : kbdus.getD 0x48 0 = 0 ∧ shiftKbdus.getD 0x48 0 = 0 ∧ capsKbdus.getD 0x48 0 = 0 := by decide

end BigBrainOS
