import BigBrainOS.Files.Buffers
import BigBrainOS.Terminal.Readers

/-!
# The count of a read line

`terminal_read` cuts the line to the size of the caller's buffer and ends it with a
line feed. The count it returns is `written_bytes`, which `enter_key` took from the
whole line. The two agree if the line fits.
-/

namespace BigBrainOS
set_option autoImplicit false

/-- The number of bytes that a read is to deliver. -/
def lineCount (line : List UInt8) (nbytes : Int) : Nat := min (min (line.length + 1) nbytes.toNat) bufSize

/-- The call returns the number of bytes it delivers, never more than it was asked
for, and these are the beginning of the line and a line feed. -/
def CountsLine (line : List UInt8) (buf : Bytes) (nbytes : Int) (result : Option (Int × Bytes)) : Prop :=
  let n := lineCount line nbytes
  ∃ buf', result = some ((n : Int), buf') ∧ (n : Int) ≤ nbytes ∧
    if n = 0 then buf' = buf else (List.range n).map buf' = line.take (n - 1) ++ [0x0A]

/-- The statements of a waiting call, run without an interrupt between them, return
what `terminalRead` does. -/
theorem terminalRead_of_wait (c : ReadCall) {s : Kernel} (updated : (s.terminals s.currProcess).bufferUpdated = true) :
    ∃ value buf, terminalRead (s.terminals s.currProcess) c.old c.buf c.nbytes = some (value, buf) ∧
      ((fun p : ReadStage × Kernel => p.1.run c p.2)^[6] (.wait, s)).1 = .returned buf value := by
  have positive : ¬ clampRead c.nbytes < 0 := by
    have := c.count_eq
    simp only [ReadCall.count] at this
    omega
  refine ⟨_, _, if_neg positive, ?_⟩
  simp only [Function.iterate_succ_apply, Function.iterate_zero_apply, ReadStage.run, updated, if_true]
  rw [show (clearBuffer s).currProcess = s.currProcess from rfl, clearBuffer_writtenBytes]
  rfl

theorem enterKey_currProcess (s : Kernel) : (enterKey s).currProcess = s.currProcess :=
  congrArg ProcView.currProcess (putc_output 0x0A _).view

section
variable {s : Kernel} {nbytes : Int}

/-- What the call returns after Enter. -/
theorem terminalRead_enter (nonneg : 0 ≤ nbytes) (old buf : Bytes) :
    terminalRead ((enterKey s).terminals s.currTer) old buf nbytes =
      some ((((s.terminals s.currTer).lineText.length + 1 : Nat) : Int),
        memcpy buf (finalBuf old ((enterKey s).terminals s.currTer).typed (clampRead nbytes).toNat) (clampRead nbytes).toNat) := by
  have clamped : ¬ clampRead nbytes < 0 := by
    simp only [clampRead, bufSize]
    split <;> omega
  rw [terminalRead]
  simp only [if_neg clamped, (enterKey_typed s).2.1]

/-- A buffer of positive size gets the line, cut and ended. -/
theorem enter_delivers (isLine : IsLine (s.terminals s.currTer).lineText) (c : ReadCall) :
    Delivers c.nbytes (memcpy c.buf (finalBuf c.old ((enterKey s).terminals s.currTer).typed c.count) c.count)
      (s.terminals s.currTer).lineText := by
  have holds := (enterKey_typed s).2.2
  refine (endLine_delivers isLine fun i inside => ?_).memcpy isLine
  obtain ⟨count, -⟩ := c.count_eq
  rw [memcpy, if_pos inside]
  exact holds i (by omega)

/-- Where the count is that of the whole line, the line fits. -/
theorem CountsLine.fits {line : List UInt8} {buf buf' : Bytes}
    (counts : CountsLine line buf nbytes (some (((line.length + 1 : Nat) : Int), buf'))) : (line.length : Int) < nbytes := by
  obtain ⟨_, returned, small, -⟩ := counts
  have count := congrArg Prod.fst (Option.some.inj returned)
  simp only [lineCount, bufSize] at count small
  omega

/-- **The count.** The line that Enter submits to the waiting process is counted and
delivered alike if and only if it fits the buffer with its line feed. -/
theorem countsLine_iff (own : s.currProcess = s.currTer) (isLine : IsLine (s.terminals s.currTer).lineText)
    (nonneg : 0 ≤ nbytes) (old buf : Bytes) :
    CountsLine (s.terminals s.currTer).lineText buf nbytes
        (terminalRead ((enterKey s).terminals (enterKey s).currProcess) old buf nbytes) ↔
      ((s.terminals s.currTer).lineText.length : Int) < nbytes := by
  have running : (enterKey s).currProcess = s.currTer := (enterKey_currProcess s).trans own
  have delivers := enter_delivers isLine
  have short := isLine.short
  rw [running, terminalRead_enter nonneg]
  generalize (s.terminals s.currTer).lineText = line at delivers short ⊢
  constructor
  · exact CountsLine.fits
  · intro fits
    have count : lineCount line nbytes = line.length + 1 := by
      simp only [lineCount, bufSize] at short ⊢
      omega
    unfold CountsLine
    rw [count]
    refine ⟨_, rfl, by omega, ?_⟩
    rw [if_neg (Nat.succ_ne_zero _)]
    have all := delivers ⟨nbytes, buf, old, by omega⟩
    have whole : line.take (nbytes.toNat - 1) = line := List.take_of_length_le (by omega)
    simp only [Delivers, whole] at all
    rw [Nat.add_sub_cancel, List.take_length]
    exact all

end

/-- The user has typed four characters to the process that runs. -/
def fourTyping : Kernel :=
  let typing : TerminalState := { initTerminal with typing := fun i => if i < 4 then 0x61 else 0, bufLen := 4 }
  { freshTables with currProcess := 0, terminals := fun _ => typing }

theorem fourTyping_isLine : IsLine (fourTyping.terminals fourTyping.currTer).lineText := by
  have line : (fourTyping.terminals fourTyping.currTer).lineText = List.replicate 4 0x61 := by decide +kernel
  rw [line]
  refine ⟨by decide, fun b member => ?_⟩
  rw [List.eq_of_mem_replicate member]
  exact ⟨by decide, by decide⟩

/-- Five bytes are enough for the four characters and the line feed. -/
theorem countsLine_four :
    CountsLine (fourTyping.terminals fourTyping.currTer).lineText (fun _ => 0) 5
      (terminalRead ((enterKey fourTyping).terminals (enterKey fourTyping).currProcess) (fun _ => 0) (fun _ => 0) 5) :=
  (countsLine_iff rfl fourTyping_isLine (by decide) _ _).2 (by decide +kernel)

/-- A read of two bytes returns the count five. -/
theorem two_read_as_five :
    (terminalRead ((enterKey fourTyping).terminals (enterKey fourTyping).currProcess) (fun _ => 0) (fun _ => 0) 2).map Prod.fst =
        some 5 ∧
      ¬ CountsLine (fourTyping.terminals fourTyping.currTer).lineText (fun _ => 0) 2
        (terminalRead ((enterKey fourTyping).terminals (enterKey fourTyping).currProcess) (fun _ => 0) (fun _ => 0) 2) := by
  have running : (enterKey fourTyping).currProcess = fourTyping.currTer := enterKey_currProcess fourTyping
  have length : (fourTyping.terminals fourTyping.currTer).lineText.length = 4 := by decide +kernel
  rw [running, terminalRead_enter (by decide), length]
  refine ⟨rfl, fun counts => ?_⟩
  rw [← length] at counts
  have fits := counts.fits
  rw [length] at fits
  omega

end BigBrainOS
