import BigBrainOS.Kernel.Terminal
import BigBrainOS.Process.Printing

/-!
# The lines of the terminals

Each terminal has a line in the making, the last line that was completed, and the
history that the up arrow brings back. Keys edit the line of the displayed
terminal, Enter completes it, and nothing else in the kernel touches a line.
-/

namespace BigBrainOS
set_option autoImplicit false

/-- The key that `kbdus` gives the character `'\n'`. -/
abbrev enterScancode : UInt8 := 0x1C

/-! ## What leaves the lines alone -/

/-- The line of a terminal is the same. -/
structure SameLine (t t' : TerminalState) : Prop where
  typing : t'.typing = t.typing
  typed : t'.typed = t.typed
  bufferUpdated : t'.bufferUpdated = t.bufferUpdated
  writtenBytes : t'.writtenBytes = t.writtenBytes
  bufLen : t'.bufLen = t.bufLen
  history : t'.history = t.history

/-- All lines and the displayed terminal are the same. -/
structure SameLines (s s' : Kernel) : Prop where
  line : ∀ t, SameLine (s.terminals t) (s'.terminals t)
  currTer : s'.currTer = s.currTer

theorem SameLine.refl (t : TerminalState) : SameLine t t := ⟨rfl, rfl, rfl, rfl, rfl, rfl⟩

theorem SameLine.trans {a b c : TerminalState} (h : SameLine a b) (h' : SameLine b c) : SameLine a c :=
  ⟨h'.typing.trans h.typing, h'.typed.trans h.typed, h'.bufferUpdated.trans h.bufferUpdated,
    h'.writtenBytes.trans h.writtenBytes, h'.bufLen.trans h.bufLen, h'.history.trans h.history⟩

namespace SameLines
variable {s s' : Kernel}

theorem refl (s : Kernel) : SameLines s s := ⟨fun _ => .refl _, rfl⟩

theorem trans {a b c : Kernel} (h : SameLines a b) (h' : SameLines b c) : SameLines a c :=
  ⟨fun t => (h.line t).trans (h'.line t), h'.currTer.trans h.currTer⟩

theorem of_terminals (terminals : s'.terminals = s.terminals) (currTer : s'.currTer = s.currTer) : SameLines s s' :=
  ⟨fun t => by rw [terminals]; exact .refl _, currTer⟩

theorem of_output (h : Output s s') : SameLines s s' := by
  obtain ⟨ts, x, y, c, m, rfl, same⟩ := h
  refine ⟨fun t => ?_, rfl⟩
  obtain ⟨p, q, e⟩ := same t
  show SameLine (s.terminals t) (ts t)
  rw [e]
  exact ⟨rfl, rfl, rfl, rfl, rfl, rfl⟩

theorem setTerminal (s : Kernel) (u : Term) {f : TerminalState → TerminalState}
    (same : SameLine (s.terminals u) (f (s.terminals u))) : SameLines s (s.setTerminal u f) := by
  refine ⟨?_, rfl⟩
  apply s.setTerminal_forall (P := fun t => SameLine (s.terminals t))
  · exact same
  · exact fun t _ => .refl _

/-- No statement of `sys_execute` or `sys_halt` touches a line. -/
theorem kept (s₀ : Kernel) : Kept (SameLines s₀) where
  launch {l stmt s s'} same run := by
    refine same.trans ?_
    cases stmt with
    | copy k =>
      obtain ⟨m, rfl⟩ := writeByte_stored run
      exact .of_terminals rfl rfl
    | printf => obtain rfl := Option.some.inj run; exact of_output (puts_output _ _)
    | parPidRoot =>
      obtain rfl := Option.some.inj run
      split <;> exact .of_terminals rfl rfl
    | progCurrPid => obtain rfl := Option.some.inj run; exact setTerminal s s.currProcess ⟨rfl, rfl, rfl, rfl, rfl, rfl⟩
    | progParPid => obtain rfl := Option.some.inj run; exact setTerminal s s.currProcess ⟨rfl, rfl, rfl, rfl, rfl, rfl⟩
    | _ => obtain rfl := Option.some.inj run; exact .of_terminals rfl rfl
  halt {s} h stmt same := by
    refine same.trans ?_
    cases stmt with
    | printf => exact of_output (puts_output _ _)
    | close i =>
      obtain ⟨f, a, ps, e, -⟩ := close_reprogrammed h i s
      rw [e]
      exact .of_terminals rfl rfl
    | progCurrPid =>
      dsimp only [HaltStmt.run]
      apply setTerminal
      exact ⟨rfl, rfl, rfl, rfl, rfl, rfl⟩
    | progParPid =>
      dsimp only [HaltStmt.run]
      apply setTerminal
      exact ⟨rfl, rfl, rfl, rfl, rfl, rfl⟩
    | _ => exact .of_terminals rfl rfl
  enable pid same := same.trans (.of_terminals rfl rfl)
  stored same stored := by
    obtain ⟨m, rfl⟩ := stored
    exact same.trans (.of_terminals rfl rfl)
  puts text same := same.trans (of_output (puts_output text _))

theorem maskKeyboard (next : Term) (s : Kernel) : SameLines s (maskKeyboard next s) := by
  obtain ⟨on, mask, masked⟩ := maskKeyboard_quiet next s
  rw [masked]
  exact .of_terminals rfl rfl

theorem prepareTerminal (next : Term) (vidId : Int) (r : Regs) (s : Kernel) :
    SameLines s (prepareTerminal next vidId r s) := by
  unfold BigBrainOS.prepareTerminal
  dsimp only
  refine SameLines.trans ?_ (of_output (resetCursor_output _))
  split <;> exact .of_terminals rfl rfl

theorem switchTo (next : Term) (pid vidId : Int) (r : Regs) (s : Kernel) :
    SameLines s (switchTo next pid vidId r s).2 := by
  unfold BigBrainOS.switchTo
  split
  · exact .refl s
  · exact .of_terminals rfl rfl

/-- A clock tick touches no line, whether it switches or launches. -/
theorem tick (env : Env) (r : Regs) (fr : ExecFrame) (s : Kernel) : SameLines s (switchRunningProcess env r fr s).2 := by
  apply switchRunningProcess_rule (P := SameLines s) r (.refl s)
  case mask => exact fun s₁ next same => same.trans (maskKeyboard next s₁)
  case prepare => exact fun s₁ next vidId _ same => same.trans (prepareTerminal next vidId r s₁)
  case launch => exact fun _ same => (kept s).sysExecute env fr (shellCommand env) same
  case switch => exact fun s₁ next pid vidId _ same => same.trans (switchTo next pid vidId r s₁)

end SameLines

/-! ## Editing -/

/-- The line in the making. -/
def TerminalState.lineText (t : TerminalState) : List UInt8 := (List.range t.bufLen).map t.typing

/-- A character of a line. -/
def IsText (b : UInt8) : Prop := b ≠ 0 ∧ b ≠ 0x0A

/-- The line in the making and the history are lines of at most 127 characters. -/
structure Editable (t : TerminalState) : Prop where
  short : t.bufLen < bufSize
  text : ∀ i < t.bufLen, IsText (t.typing i)
  history : ∀ i < bufSize, t.history i ≠ 0x0A
  ended : t.history (bufSize - 1) = 0

/-- A key other than Enter: the completed line is the same, and the line in the making stays a line. -/
structure Edited (t t' : TerminalState) : Prop where
  typed : t'.typed = t.typed
  bufferUpdated : t'.bufferUpdated = t.bufferUpdated
  writtenBytes : t'.writtenBytes = t.writtenBytes
  editable : Editable t → Editable t'

namespace Edited

theorem refl (t : TerminalState) : Edited t t := ⟨rfl, rfl, rfl, id⟩

theorem trans {a b c : TerminalState} (h : Edited a b) (h' : Edited b c) : Edited a c :=
  ⟨h'.typed.trans h.typed, h'.bufferUpdated.trans h.bufferUpdated, h'.writtenBytes.trans h.writtenBytes,
    fun e => h'.editable (h.editable e)⟩

theorem of_same {t t' : TerminalState} (same : SameLine t t') : Edited t t' := by
  refine ⟨same.typed, same.bufferUpdated, same.writtenBytes, fun e => ⟨?_, ?_, ?_, ?_⟩⟩
  · rw [same.bufLen]; exact e.short
  · rw [same.bufLen, same.typing]; exact e.text
  · rw [same.history]; exact e.history
  · rw [same.history]; exact e.ended

end Edited

/-- All terminals after a key other than Enter. -/
def KeyEdited (s s' : Kernel) : Prop := ∀ t, Edited (s.terminals t) (s'.terminals t)

namespace KeyEdited
variable {s s' : Kernel}

theorem refl (s : Kernel) : KeyEdited s s := fun _ => .refl _

theorem trans {a b c : Kernel} (h : KeyEdited a b) (h' : KeyEdited b c) : KeyEdited a c := fun t => (h t).trans (h' t)

theorem of_output (h : Output s s') : KeyEdited s s' := fun t => .of_same ((SameLines.of_output h).line t)

theorem setTerminal (s : Kernel) (u : Term) {f : TerminalState → TerminalState}
    (edited : Edited (s.terminals u) (f (s.terminals u))) : KeyEdited s (s.setTerminal u f) := by
  apply s.setTerminal_forall (P := fun t => Edited (s.terminals t))
  · exact edited
  · exact fun t _ => .refl _

end KeyEdited

theorem backspace_edited (s : Kernel) : KeyEdited s (backspace s) := by
  unfold backspace
  split
  · exact .refl s
  · refine (KeyEdited.of_output (screenBackspace_output s)).trans ?_
    apply KeyEdited.setTerminal
    refine ⟨rfl, rfl, rfl, fun e => ⟨?_, fun i below => ?_, e.history, e.ended⟩⟩
    · have := e.short
      show _ - 1 < bufSize
      omega
    · have below' : i < ((screenBackspace s).terminals s.currTer).bufLen - 1 := below
      dsimp only
      rw [Function.update_of_ne (by omega)]
      exact e.text i (by omega)

theorem printChar_edited {c : UInt8} (text : IsText c) (s : Kernel) : KeyEdited s (printChar c s) := by
  unfold printChar
  split
  · exact .refl s
  · next room =>
    refine KeyEdited.trans ?_ (.of_output (putc_output _ _))
    apply KeyEdited.setTerminal
    refine ⟨rfl, rfl, rfl, fun e => ⟨?_, fun i below => ?_, e.history, e.ended⟩⟩
    · show _ + 1 < bufSize
      omega
    · have below' : i < (s.terminals s.currTer).bufLen + 1 := below
      dsimp only
      by_cases last : i = (s.terminals s.currTer).bufLen
      · rw [last, Function.update_self]
        exact text
      · rw [Function.update_of_ne last]
        exact e.text i (by omega)

/-- The up arrow puts the history in place of the line. -/
theorem upArrow_edited (s : Kernel) : KeyEdited s (upArrow s) := by
  apply upArrow_rule (P := KeyEdited s) (Q := KeyEdited s) (.refl s)
  · exact fun s₁ edited => edited.trans (backspace_edited s₁)
  intro s₁ edited
  refine KeyEdited.trans ?_ (.of_output (puts_output _ _))
  refine edited.trans ?_
  apply KeyEdited.setTerminal
  refine ⟨rfl, rfl, rfl, fun e => ?_⟩
  obtain ⟨bound, nonzero, -⟩ := strlen_spec (s₁.terminals s₁.currTer).history bufSize
  have short : strlen (s₁.terminals s₁.currTer).history bufSize < bufSize := by
    by_contra full
    exact nonzero (bufSize - 1) (by simp only [bufSize] at full ⊢; omega) e.ended
  refine ⟨short, fun i below => ?_, e.history, e.ended⟩
  have inside : i < bufSize := Nat.lt_trans below short
  show IsText (if i < bufSize then _ else _)
  rw [if_pos inside]
  exact ⟨nonzero i below, e.history i inside⟩

theorem switchTerminal_edited (n : Term) (s : Kernel) : KeyEdited s (switchTerminal n s) := by
  unfold switchTerminal
  split
  · exact fun t => .of_same (.refl _)
  · exact .refl s

theorem characterKey_edited {c : UInt8} (noEnter : c ≠ 0x0A) (s : Kernel) : KeyEdited s (characterKey c s) := by
  unfold characterKey
  split
  · exact backspace_edited s
  · split
    · exact .refl s
    · next nonzero => exact printChar_edited ⟨nonzero, noEnter⟩ s

/-- The character of a key for which the three tables agree. -/
def PlainKey (scancode c : UInt8) : Prop :=
  let key := (scancode &&& 0x7F).toNat
  kbdus.getD key 0 = c ∧ shiftKbdus.getD key 0 = c ∧ capsKbdus.getD key 0 = c

instance (scancode c : UInt8) : Decidable (PlainKey scancode c) := inferInstanceAs (Decidable (_ ∧ _ ∧ _))

theorem getCharacterCode_plain {scancode c : UInt8} (s : Kernel) (plain : PlainKey scancode c) :
    getCharacterCode scancode s = c := by
  obtain ⟨none_, shift, caps⟩ := plain
  unfold getCharacterCode
  dsimp only
  split
  · exact shift
  · split
    · exact caps
    · exact none_

/-- A key that is no modifier, no command and not the up arrow is a character, whatever modifier keys are down. -/
theorem kbHandler_plain {scancode c : UInt8} (s : Kernel) (plain : PlainKey scancode c)
    (other : scancode &&& 0x80 = 0 ∧ scancode ∉ [0x48, 0x2A, 0x36, 0x1D, 0x38, 0x3A, 0x26, 0x3B, 0x3C, 0x3D]) :
    kbHandler scancode s = characterKey c s := by
  obtain ⟨down, special⟩ := other
  simp only [List.mem_cons, List.not_mem_nil, or_false, not_or] at special
  obtain ⟨up, lshift, rshift, control, alt, caps, l, f1, f2, f3⟩ := special
  have released : ∀ k : UInt8, k &&& 0x80 ≠ 0 → scancode ≠ k := by
    rintro k held rfl
    exact held down
  have modifier : modifierKey scancode s = none := by
    simp [modifierKey, lshift, rshift, control, alt, caps, released 0xAA (by decide), released 0xB6 (by decide),
      released 0x9D (by decide), released 0xB8 (by decide)]
  have command : keyDown scancode s = characterKey c s := by
    simp [keyDown, l, f1, f2, f3, getCharacterCode_plain s plain]
  simp only [kbHandler, if_neg up, modifier, if_pos down, command]

/-- Only the Enter key has the character `'\n'`. -/
theorem getCharacterCode_enter {scancode : UInt8} (s : Kernel) (down : scancode &&& 0x80 = 0)
    (enter : getCharacterCode scancode s = 0x0A) : scancode = enterScancode := by
  have bits : ∀ b : BitVec 8, (b &&& 127#8).toNat < 128 ∧
      (b &&& 128#8 = 0#8 → (b &&& 127#8).toNat = 28 → b = 28#8) := by decide
  obtain ⟨small, code⟩ := bits scancode.toBitVec
  have key : (scancode &&& 0x7F).toNat = 28 := by
    have tables : ∀ k < 128, (kbdus.getD k 0 = 0x0A → k = 28) ∧ (shiftKbdus.getD k 0 = 0x0A → k = 28) ∧
        (capsKbdus.getD k 0 = 0x0A → k = 28) := by decide +kernel
    obtain ⟨plain, shift, caps⟩ := tables _ small
    unfold getCharacterCode at enter
    dsimp only at enter
    split at enter
    · exact shift enter
    · split at enter
      · exact caps enter
      · exact plain enter
  exact UInt8.toBitVec_inj.1 (code (congrArg UInt8.toBitVec down) key)

/-- **Keys other than Enter edit lines.** -/
theorem kbHandler_edited {scancode : UInt8} (noEnter : scancode ≠ enterScancode) (s : Kernel) :
    KeyEdited s (kbHandler scancode s) := by
  apply kbHandler_rule (P := KeyEdited s) (Q := KeyEdited s) scancode
  case arrow =>
    split
    · exact upArrow_edited s
    · exact .refl s
  case still => exact fun _ edited => edited
  case modifiers => exact fun s₁ _ _ _ _ edited => edited.trans fun t => .of_same (.refl _)
  case clear => exact fun s₁ edited => edited.trans (.of_output (controlL_output s₁))
  case switch => exact fun s₁ n _ _ edited => edited.trans (switchTerminal_edited n s₁)
  case character =>
    intro s₁ down edited
    exact edited.trans (characterKey_edited (fun enter => noEnter (getCharacterCode_enter s₁ down enter)) s₁)

/-! ## Enter -/

/-- Enter reaches `enter_key`, whatever modifier keys are down. -/
theorem kbHandler_enter (s : Kernel) : kbHandler enterScancode s = enterKey s := by
  have plain : PlainKey enterScancode 0x0A := by decide +kernel
  exact kbHandler_plain s plain (by decide)

/-- The lines after Enter. -/
theorem enterKey_lines (s : Kernel) : SameLines (s.setTerminal s.currTer submitLine) (enterKey s) :=
  .of_output (putc_output _ _)

/-- A completed line leaves an empty one and itself as history. -/
theorem Editable.submitLine {t : TerminalState} (e : Editable t) : Editable (submitLine t) := by
  have short := e.short
  refine ⟨show 0 < bufSize by decide, fun i below => absurd below (Nat.not_lt_zero i), fun i inside => ?_, ?_⟩
  · show (if i < bufSize then if t.bufLen ≤ i ∧ i < bufSize then 0 else t.typing i else t.history i) ≠ 0x0A
    rw [if_pos inside]
    split
    · decide
    · exact (e.text i (by omega)).2
  · have last : t.bufLen ≤ bufSize - 1 ∧ bufSize - 1 < bufSize := by omega
    show (if bufSize - 1 < bufSize then if t.bufLen ≤ bufSize - 1 ∧ bufSize - 1 < bufSize then 0 else t.typing (bufSize - 1)
      else t.history (bufSize - 1)) = 0
    rw [if_pos last.2, if_pos last]

/-- The completed line, with zeros behind it. -/
theorem submitLine_typed (t : TerminalState) {i : Nat} (inside : i < bufSize) :
    (submitLine t).typed i = t.lineText.getD i 0 := by
  show (if i < bufSize then if t.bufLen ≤ i ∧ i < bufSize then 0 else t.typing i else t.typed i) = _
  rw [if_pos inside, TerminalState.lineText, List.getD_eq_getElem?_getD, List.getElem?_map]
  by_cases below : i < t.bufLen
  · rw [if_neg (by omega), List.getElem?_range below]
    rfl
  · rw [if_pos (by omega), List.getElem?_eq_none (by simp; omega)]
    rfl

end BigBrainOS
