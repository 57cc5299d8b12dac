import BigBrainOS.Theory.Reach
import BigBrainOS.Terminal.Readers

/-!
# The line editor

What the keyboard is for, without its buffers: an editor with the line in the making,
the last line that was submitted and the one that the up arrow brings back. The
buffers of the displayed terminal are these lines with zeros behind them, after every
sequence of keys.
-/

namespace BigBrainOS
set_option autoImplicit false

/-! ## The editor -/

/-- A line of at most 127 characters. -/
abbrev Line := { l : List UInt8 // IsLine l }

/-- What a key may add to a line. -/
abbrev Character := { c : UInt8 // IsText c }

namespace Line

def empty : Line := ⟨[], by decide, fun _ member => absurd member (List.not_mem_nil)⟩

/-- The character is added while there is room for it. -/
def type (l : Line) (c : Character) : Line :=
  if room : l.1.length < bufSize - 1 then
    ⟨l.1 ++ [c.1], by rw [List.length_append]; exact Nat.add_lt_of_lt_sub room, fun b member => by
      rcases List.mem_append.1 member with old | new
      · exact l.2.text b old
      · rw [List.mem_singleton.1 new]
        exact c.2⟩
  else l

/-- The last character is dropped. -/
def erase (l : Line) : Line :=
  ⟨l.1.dropLast, Nat.lt_of_le_of_lt (by rw [List.length_dropLast]; exact Nat.sub_le _ _) l.2.short,
    fun b member => l.2.text b (List.dropLast_subset _ member)⟩

end Line

inductive EditKey where
  | character (c : Character)
  | backspace
  | enter
  | up
  /-- Control with L. -/
  | clearScreen

structure Editor where
  line : Line
  submitted : Line
  history : Line
  /-- A line was submitted. -/
  entered : Bool

namespace Editor

def fresh : Editor := ⟨.empty, .empty, .empty, false⟩

def press (e : Editor) : EditKey → Editor
  | .character c => { e with line := e.line.type c }
  | .backspace => { e with line := e.line.erase }
  | .enter => ⟨.empty, e.line, e.line, true⟩
  | .up => { e with line := e.history }
  | .clearScreen => e

end Editor

/-! ## Keys -/

/-- What a character of the scan code tables means to the editor. -/
def characterEdit (c : UInt8) : Option EditKey :=
  if c = 0x08 then some .backspace
  else if newline : c = 0x0A then some .enter
  else if zero : c = 0 then none
  else some (.character ⟨c, zero, newline⟩)

/-- What a scan code means to the editor; nothing for modifier keys and for keys that are let go. -/
def editKey (scancode : UInt8) (s : Kernel) : Option EditKey :=
  if scancode = 0x48 then some .up
  else if (modifierKey scancode s).isSome ∨ scancode &&& 0x80 ≠ 0 then none
  else if s.controlPressed = true ∧ scancode = 0x26 then some .clearScreen
  else characterEdit (getCharacterCode scancode s)

/-- Keys that leave the displayed terminal where it is. -/
def keyboard : TransitionSystem Kernel UInt8 where
  ok s scancode := (kbHandler scancode s).currTer = s.currTer
  next s scancode := kbHandler scancode s

instance (s : Kernel) (scancode : UInt8) : Decidable (keyboard.ok s scancode) :=
  inferInstanceAs (Decidable ((kbHandler scancode s).currTer = s.currTer))

/-- What the scan codes of a run mean to the editor, each in the state where it arrives. -/
def editKeys : Kernel → List UInt8 → List EditKey
  | _, [] => []
  | s, scancode :: keys => (editKey scancode s).toList ++ editKeys (kbHandler scancode s) keys

/-! ## The buffers -/

/-- The buffer of the line in the making holds a line. -/
structure HoldsTyping (t : TerminalState) (l : Line) : Prop where
  typing : HoldsLine t.typing l
  bufLen : t.bufLen = l.1.length

namespace HoldsTyping
variable {t t' : TerminalState} {l : Line}

theorem congr (holds : HoldsTyping t l) (same : SameLine t t') : HoldsTyping t' l :=
  ⟨by rw [same.typing]; exact holds.typing, same.bufLen.trans holds.bufLen⟩

theorem typeChar (holds : HoldsTyping t l) (c : Character) (room : t.bufLen < bufSize - 1) :
    HoldsTyping { t with typing := Function.update t.typing t.bufLen c, bufLen := t.bufLen + 1 } (l.type c) := by
  have line : (l.type c).1 = l.1 ++ [c.1] := by
    rw [Line.type, dif_pos (by rw [← holds.bufLen]; exact room)]
  refine ⟨fun i inside => ?_, ?_⟩
  · show Function.update t.typing t.bufLen c.1 i = (l.type c).1.getD i 0
    rw [line, List.getD_eq_getElem?_getD]
    rcases Nat.lt_trichotomy i t.bufLen with below | last | behind
    · rw [Function.update_of_ne (by omega), List.getElem?_append_left (by rw [← holds.bufLen]; exact below),
        holds.typing i inside, List.getD_eq_getElem?_getD]
    · rw [last, Function.update_self, holds.bufLen, List.getElem?_concat_length]
      rfl
    · rw [Function.update_of_ne (by omega), holds.typing i inside, List.getD_eq_getElem?_getD,
        List.getElem?_eq_none (by rw [← holds.bufLen]; omega),
        List.getElem?_eq_none (by rw [List.length_append, ← holds.bufLen]; exact behind)]
  · show t.bufLen + 1 = (l.type c).1.length
    rw [line, List.length_append, holds.bufLen]
    rfl

/-- A full line takes no character. -/
theorem full (holds : HoldsTyping t l) (c : Character) (full : t.bufLen ≥ bufSize - 1) : l.type c = l := by
  rw [Line.type, dif_neg (by rw [← holds.bufLen]; omega)]

theorem eraseChar (holds : HoldsTyping t l) :
    HoldsTyping { t with bufLen := t.bufLen - 1, typing := Function.update t.typing (t.bufLen - 1) 0 } l.erase := by
  refine ⟨fun i inside => ?_, ?_⟩
  · show Function.update t.typing (t.bufLen - 1) 0 i = l.1.dropLast.getD i 0
    have length := holds.bufLen
    rw [List.getD_eq_getElem?_getD, List.getElem?_dropLast]
    by_cases below : i < t.bufLen - 1
    · rw [Function.update_of_ne (by omega), if_pos (by omega), holds.typing i inside, List.getD_eq_getElem?_getD]
    · rw [if_neg (by omega)]
      by_cases last : i = t.bufLen - 1
      · rw [last, Function.update_self]
        rfl
      · rw [Function.update_of_ne last, holds.typing i inside, List.getD_eq_getElem?_getD, List.getElem?_eq_none (by omega)]
  · show t.bufLen - 1 = l.1.dropLast.length
    rw [List.length_dropLast, holds.bufLen]

/-- An empty line has nothing to erase. -/
theorem eraseNothing (holds : HoldsTyping t l) (empty : t.bufLen = 0) : l.erase = l := by
  have nil : l.1 = [] := List.length_eq_zero_iff.1 (holds.bufLen.symm.trans empty)
  exact Subtype.ext (show l.1.dropLast = l.1 by rw [nil]; rfl)

end HoldsTyping

/-- The buffers of a terminal hold the lines of the editor, and after an Enter the reader finds its line. -/
structure HoldsEditor (t : TerminalState) (e : Editor) : Prop where
  typing : HoldsTyping t e.line
  typed : HoldsLine t.typed e.submitted
  history : HoldsLine t.history e.history
  entered : e.entered = true → t.writtenBytes = e.submitted.1.length + 1 ∧ t.bufferUpdated = true

/-- The buffers of a terminal before the first key. -/
structure EmptyBuffers (t : TerminalState) : Prop where
  typing : ∀ i < bufSize, t.typing i = 0
  typed : ∀ i < bufSize, t.typed i = 0
  history : ∀ i < bufSize, t.history i = 0
  bufLen : t.bufLen = 0

theorem EmptyBuffers.holds {t : TerminalState} (empty : EmptyBuffers t) : HoldsEditor t .fresh :=
  ⟨⟨empty.typing, empty.bufLen⟩, empty.typed, empty.history, fun entered => nomatch entered⟩

namespace HoldsEditor
variable {t t' : TerminalState} {e : Editor}

theorem congr (holds : HoldsEditor t e) (same : SameLine t t') : HoldsEditor t' e := by
  refine ⟨holds.typing.congr same, ?_, ?_, fun entered => ?_⟩
  · rw [same.typed]; exact holds.typed
  · rw [same.history]; exact holds.history
  · rw [same.writtenBytes, same.bufferUpdated]; exact holds.entered entered

theorem submitLine (holds : HoldsEditor t e) : HoldsEditor (submitLine t) (e.press .enter) := by
  have line : t.lineText = e.line.1 := by
    have length := holds.typing.bufLen
    have short := e.line.2.short
    apply List.ext_getElem (by simp [TerminalState.lineText, length])
    intro i _ inside
    simp only [TerminalState.lineText, List.getElem_map, List.getElem_range]
    rw [holds.typing.typing i (by omega), List.getD_eq_getElem?_getD, List.getElem?_eq_getElem inside, Option.getD_some]
  have typed : HoldsLine (BigBrainOS.submitLine t).typed e.line := by
    intro i inside
    rw [submitLine_typed t inside, line]
  refine ⟨⟨fun i inside => if_pos inside, rfl⟩, typed, fun i inside => ?_, fun _ => ⟨?_, rfl⟩⟩
  · have copied := typed i inside
    simp only [BigBrainOS.submitLine, if_pos inside] at copied ⊢
    exact copied
  · show t.bufLen + 1 = e.line.1.length + 1
    rw [holds.typing.bufLen]

/-- `strlen` finds the length of the history. -/
theorem strlen_history (holds : HoldsEditor t e) : strlen t.history bufSize = e.history.1.length := by
  obtain ⟨bound, nonzero, ended⟩ := strlen_spec t.history bufSize
  have short := e.history.2.short
  rcases Nat.lt_trichotomy (strlen t.history bufSize) e.history.1.length with below | same | above
  · have zero := ended (Nat.lt_trans below short)
    rw [holds.history _ (Nat.lt_trans below short), List.getD_eq_getElem?_getD, List.getElem?_eq_getElem below,
      Option.getD_some] at zero
    exact absurd zero (e.history.2.text _ (List.getElem_mem below)).1
  · exact same
  · have text := nonzero _ above
    rw [holds.history _ short, List.getD_eq_getElem?_getD, List.getElem?_eq_none (Nat.le_refl _)] at text
    exact absurd rfl text

theorem bringBack (holds : HoldsEditor t e) :
    HoldsEditor { t with typing := fun i => if i < bufSize then t.history i else t.typing i, bufLen := strlen t.history bufSize }
      (e.press .up) := by
  refine ⟨⟨fun i inside => ?_, holds.strlen_history⟩, holds.typed, holds.history, holds.entered⟩
  dsimp only
  rw [if_pos inside]
  exact holds.history i inside

end HoldsEditor

/-! ## One key -/

/-- The kernel edits the line of the terminal that `s₀` displays: its buffers hold the editor's
lines, and those of the other terminals are as they were. -/
structure Edits (s₀ : Kernel) (e : Editor) (s : Kernel) : Prop where
  displayed : s.currTer = s₀.currTer
  holds : HoldsEditor (s.terminals s₀.currTer) e
  others : ∀ u ≠ s₀.currTer, SameLine (s₀.terminals u) (s.terminals u)

namespace Edits
variable {s₀ s s' : Kernel} {e e' : Editor}

theorem congr (edits : Edits s₀ e s) (same : SameLines s s') : Edits s₀ e s' :=
  ⟨same.currTer.trans edits.displayed, edits.holds.congr (same.line _), fun u other => (edits.others u other).trans (same.line u)⟩

/-- Only the line of the displayed terminal is edited. -/
theorem edit (edits : Edits s₀ e s) {f : TerminalState → TerminalState} (holds : HoldsEditor (f (s.terminals s₀.currTer)) e') :
    Edits s₀ e' (s.setTerminal s.currTer f) := by
  refine ⟨edits.displayed, ?_, fun u other => ?_⟩
  · rw [edits.displayed, Kernel.setTerminal_self]
    exact holds
  · rw [Kernel.setTerminal_of_ne _ _ (by rw [edits.displayed]; exact other)]
    exact edits.others u other

theorem printChar (edits : Edits s₀ e s) (c : Character) : Edits s₀ (e.press (.character c)) (printChar c s) := by
  unfold BigBrainOS.printChar
  rw [edits.displayed]
  split
  · next full =>
    rw [Editor.press, edits.holds.typing.full c full]
    exact edits
  · next room =>
    rw [← edits.displayed]
    have holds := edits.holds
    refine Edits.congr ?_ (.of_output (putc_output _ _))
    exact edits.edit ⟨holds.typing.typeChar c (Nat.not_le.1 room), holds.typed, holds.history, holds.entered⟩

theorem backspace (edits : Edits s₀ e s) : Edits s₀ (e.press .backspace) (backspace s) := by
  unfold BigBrainOS.backspace
  rw [edits.displayed]
  split
  · next empty =>
    rw [Editor.press, edits.holds.typing.eraseNothing empty]
    exact edits
  · have printed := edits.congr (.of_output (screenBackspace_output s))
    rw [← printed.displayed]
    have holds := printed.holds
    exact printed.edit ⟨holds.typing.eraseChar, holds.typed, holds.history, holds.entered⟩

theorem enterKey (edits : Edits s₀ e s) : Edits s₀ (e.press .enter) (enterKey s) :=
  (edits.edit edits.holds.submitLine).congr (.of_output (putc_output _ _))

theorem controlL (edits : Edits s₀ e s) : Edits s₀ (e.press .clearScreen) (controlL s) :=
  edits.congr (.of_output (controlL_output s))

theorem upArrow (edits : Edits s₀ e s) : Edits s₀ (e.press .up) (upArrow s) := by
  -- The loop in front of the history erases the line, and only the line.
  apply upArrow_rule (P := fun s => ∃ line, Edits s₀ { e with line := line } s) (Q := Edits s₀ (e.press .up)) ⟨e.line, edits⟩
  · rintro s₁ ⟨line, erased⟩
    exact ⟨line.erase, erased.backspace⟩
  · rintro s₁ ⟨line, erased⟩
    exact (erased.edit erased.holds.bringBack).congr (.of_output (puts_output _ _))

theorem characterKey (edits : Edits s₀ e s) (c : UInt8) :
    Edits s₀ ((characterEdit c).elim e e.press) (characterKey c s) := by
  unfold BigBrainOS.characterKey characterEdit
  by_cases erase : c = 0x08
  · rw [if_pos erase, if_pos erase]
    exact edits.backspace
  rw [if_neg erase, if_neg erase]
  by_cases newline : c = 0x0A
  · rw [if_pos newline, dif_pos newline]
    exact edits.enterKey
  rw [if_neg newline, dif_neg newline]
  by_cases zero : c = 0
  · rw [if_pos zero, dif_pos zero]
    exact edits
  · rw [if_neg zero, dif_neg zero]
    exact edits.printChar ⟨c, zero, newline⟩

/-- A terminal that stays displayed was not switched away from. -/
theorem switchTerminal (edits : Edits s₀ e s) {n : Term} (stays : (switchTerminal n s).currTer = s.currTer) :
    Edits s₀ e (switchTerminal n s) := by
  have same : s.currTer = n := by
    by_contra other
    rw [BigBrainOS.switchTerminal, if_pos other] at stays
    exact other stays.symm
  rw [BigBrainOS.switchTerminal, if_neg (not_not.2 same)]
  exact edits

/-- A modifier key touches no line. -/
theorem modifierKey (edits : Edits s₀ e s) {scancode : UInt8} (modifier : modifierKey scancode s = some s') :
    Edits s₀ e s' := by
  obtain ⟨shift, control, alt, caps, rfl⟩ := modifierKey_some modifier
  exact ⟨edits.displayed, edits.holds, edits.others⟩

/-- A key that is pressed down. -/
theorem keyDown (edits : Edits s₀ e s) {scancode : UInt8} (stays : (keyDown scancode s).currTer = s.currTer) :
    Edits s₀ ((if s.controlPressed = true ∧ scancode = 0x26 then some .clearScreen
      else characterEdit (getCharacterCode scancode s)).elim e e.press) (keyDown scancode s) := by
  -- The function keys have no character.
  have noCharacter : ∀ k : UInt8, k = 0x3B ∨ k = 0x3C ∨ k = 0x3D → characterEdit (getCharacterCode k s) = none := by
    intro k function
    have zero : getCharacterCode k s = 0 := by
      apply getCharacterCode_plain
      rcases function with rfl | rfl | rfl <;> decide +kernel
    rw [zero]
    rfl
  unfold BigBrainOS.keyDown at stays ⊢
  by_cases command : s.controlPressed = true ∧ scancode = 0x26
  · rw [if_pos command, if_pos command]
    exact edits.controlL
  rw [if_neg command] at stays ⊢
  rw [if_neg command]
  by_cases first : s.altPressed = true ∧ scancode = 0x3B
  · rw [if_pos first] at stays ⊢
    rw [noCharacter scancode (.inl first.2)]
    exact edits.switchTerminal stays
  rw [if_neg first] at stays ⊢
  by_cases second : s.altPressed = true ∧ scancode = 0x3C
  · rw [if_pos second] at stays ⊢
    rw [noCharacter scancode (.inr (.inl second.2))]
    exact edits.switchTerminal stays
  rw [if_neg second] at stays ⊢
  by_cases third : s.altPressed = true ∧ scancode = 0x3D
  · rw [if_pos third] at stays ⊢
    rw [noCharacter scancode (.inr (.inr third.2))]
    exact edits.switchTerminal stays
  rw [if_neg third]
  exact edits.characterKey _

/-- The up arrow does nothing else: it is no modifier and has no character. -/
theorem kbHandler_up (s : Kernel) : kbHandler 0x48 s = BigBrainOS.upArrow s := by
  have code : ∀ s, getCharacterCode 0x48 s = 0 := fun s => getCharacterCode_plain s (by decide +kernel)
  have down : (0x48 : UInt8) &&& 0x80 = 0 := by decide
  have modifier : ∀ s, BigBrainOS.modifierKey 0x48 s = none := fun s => by simp [BigBrainOS.modifierKey]
  have command : ∀ s, BigBrainOS.keyDown 0x48 s = s := fun s => by simp [BigBrainOS.keyDown, code, BigBrainOS.characterKey]
  simp only [kbHandler, if_true, modifier, if_pos down, command]

/-- **Step lemma.** A key does to the buffers what it means to the editor. -/
theorem key (edits : Edits s₀ e s) {scancode : UInt8} (stays : (kbHandler scancode s).currTer = s.currTer) :
    Edits s₀ ((editKey scancode s).elim e e.press) (kbHandler scancode s) := by
  unfold editKey
  by_cases up : scancode = 0x48
  · rw [if_pos up, up, kbHandler_up]
    exact edits.upArrow
  rw [if_neg up]
  unfold kbHandler at stays ⊢
  dsimp only at stays ⊢
  rw [if_neg up] at stays ⊢
  cases modifier : BigBrainOS.modifierKey scancode s with
  | some s' =>
    rw [if_pos (.inl rfl)]
    exact edits.modifierKey modifier
  | none =>
    rw [modifier] at stays
    dsimp only at stays ⊢
    by_cases down : scancode &&& 0x80 = 0
    · rw [if_pos down] at stays ⊢
      rw [if_neg (by simp [down])]
      exact edits.keyDown stays
    · rw [if_neg down, if_pos (.inr down)]
      exact edits

/-- **Run lemma.** -/
theorem keys : ∀ (keys : List UInt8) {s : Kernel} {e : Editor}, Edits s₀ e s → keyboard.Allowed s keys →
    Edits s₀ ((editKeys s keys).foldl Editor.press e) (keyboard.exec s keys) := by
  intro keys
  induction keys with
  | nil => intro s e edits _; exact edits
  | cons scancode keys ih =>
    intro s e edits allowed
    have step := ih (edits.key allowed.1) allowed.2
    rw [editKeys, List.foldl_append]
    cases pressed : editKey scancode s <;> rw [pressed] at step <;> exact step

end Edits

/-- **The line editor.** After every sequence of keys on the displayed terminal its buffers
hold the lines of the editor, and the buffers of the other terminals are unchanged. -/
theorem keys_refine_editor {s : Kernel} (empty : EmptyBuffers (s.terminals s.currTer)) {keys : List UInt8}
    (stays : keyboard.Allowed s keys) :
    HoldsEditor ((keyboard.exec s keys).terminals s.currTer) ((editKeys s keys).foldl Editor.press .fresh) ∧
      ∀ u ≠ s.currTer, SameLine (s.terminals u) ((keyboard.exec s keys).terminals u) := by
  have start : Edits s .fresh s := ⟨rfl, empty.holds, fun u _ => .refl _⟩
  have run := start.keys keys stays
  exact ⟨run.holds, run.others⟩

/-- After boot, with the displayed shell running. -/
def shellShown : Kernel := { entry ⟨fun _ => 0, fun _ => .zero, 0x26, 0⟩ with currProcess := 0 }

/-- The keys A, Enter and the up arrow, pressed in the shell. -/
theorem enter_recalled :
    HoldsEditor ((keyboard.exec shellShown [0x1E, enterScancode, 0x48]).terminals 0)
        ((editKeys shellShown [0x1E, enterScancode, 0x48]).foldl Editor.press .fresh) ∧
      ∀ u ≠ 0, SameLine (shellShown.terminals u) ((keyboard.exec shellShown [0x1E, enterScancode, 0x48]).terminals u) := by
  have empty : EmptyBuffers (shellShown.terminals shellShown.currTer) :=
    ⟨fun _ _ => rfl, fun _ _ => rfl, fun _ _ => rfl, rfl⟩
  exact keys_refine_editor empty ⟨by decide +kernel, by decide +kernel, by decide +kernel, trivial⟩

end BigBrainOS
