import BigBrainOS.Kernel.Keyboard

/-!
# `terminal_read` and `terminal_write`

The reader waits for `buffer_updated` of the terminal that runs, takes the line
from that terminal's `typed` buffer and then calls `clear_buffer`, which clears
the `typed` buffer of the displayed terminal. The call waits with interrupts on,
so it is given by the pieces between which an interrupt may arrive.
-/

namespace BigBrainOS
set_option autoImplicit false

/-- `nbytes > BUF_SIZE ? BUF_SIZE : nbytes`. -/
def clampRead (nbytes : Int) : Int := if nbytes > bufSize then bufSize else nbytes

/-- "buffer must end with newline": the first zero among `n` bytes from index
`i` on becomes a line feed. -/
def endLine : Nat → Nat → Bytes → Bytes
  | 0, _, b => b
  | n + 1, i, b => if b i = 0 then Function.update b i 0x0A else endLine n (i + 1) b

/-- `final_buf` once the line is copied and ended; `old` is what the stack held. -/
def finalBuf (old typed : Bytes) (nbytes : Nat) : Bytes :=
  endLine nbytes 0 (Function.update (memcpy old typed nbytes) (nbytes - 1) 0)

/-- `terminals[curr_process].buffer_updated = 0`. -/
def resetUpdated (s : Kernel) : Kernel :=
  s.setTerminal s.currProcess fun t => { t with bufferUpdated := false }

/-- `clear_buffer`. -/
def clearBuffer (s : Kernel) : Kernel :=
  s.setTerminal s.currTer fun t => { t with typed := fun i => if i < bufSize then 0 else t.typed i }

/-! ## The call as its statements -/

/-- A call of `terminal_read` with a buffer: the length, what the buffer holds and
what the stack holds in place of `final_buf`. -/
structure ReadCall where
  nbytes : Int
  buf : Bytes
  old : Bytes
  /-- `final_buf` has a size. -/
  positive : 1 ≤ nbytes

/-- `nbytes` once it is cut to `BUF_SIZE`. -/
def ReadCall.count (c : ReadCall) : Nat := (clampRead c.nbytes).toNat

/-- The statement of `terminal_read` that comes next, with the locals it reads. -/
inductive ReadStage where
  /-- `terminals[curr_process].buffer_updated = 0`. -/
  | reset
  | wait
  /-- `memcpy(final_buf, terminals[curr_process].typed, nbytes)`. -/
  | copy
  /-- The zero at the end of `final_buf` and the loop that ends the line. -/
  | finish (finalBuf : Bytes)
  /-- `clear_buffer()`. -/
  | clear (finalBuf : Bytes)
  /-- `memcpy(buffer, final_buf, nbytes)`. -/
  | deliver (finalBuf : Bytes)
  /-- `return terminals[curr_process].written_bytes`. -/
  | ret (buf : Bytes)
  | returned (buf : Bytes) (value : Int)

/-- One statement of the call, run by the process on terminal `curr_process`. -/
def ReadStage.run (c : ReadCall) (stage : ReadStage) (s : Kernel) : ReadStage × Kernel :=
  let t := s.terminals s.currProcess
  match stage with
  | .reset => (.wait, resetUpdated s)
  | .wait => if t.bufferUpdated then (.copy, s) else (.wait, s)
  | .copy => (.finish (memcpy c.old t.typed c.count), s)
  | .finish finalBuf => (.clear (endLine c.count 0 (Function.update finalBuf (c.count - 1) 0)), s)
  | .clear finalBuf => (.deliver finalBuf, clearBuffer s)
  | .deliver finalBuf => (.ret (memcpy c.buf finalBuf c.count), s)
  | .ret buf => (.returned buf t.writtenBytes, s)
  | .returned buf value => (.returned buf value, s)

/-! ## `terminal_write` -/

/-- `prompt`, the prompt of the shell. -/
def prompt : List UInt8 := message "391OS> "

/-- `BBprompt`, which is printed in its place. -/
def bbPrompt : List UInt8 := message "\xF4 [BigBrainOS] \n\xF5 \xAF "

/-- `terminal_write`: the value returned and the new state; `none` is the null pointer. -/
def terminalWrite (buf : Option Bytes) (nbytes : Int) (s : Kernel) : Int × Kernel :=
  match buf with
  | none => (error, s)
  | some buffer =>
    if strncmp buffer (fun i => prompt.getD i 0) prompt.length = 0 then (bbPrompt.length, puts bbPrompt s)
    else
      (nbytes, (List.range nbytes.toNat).foldl (fun s i => if buffer i ≠ 0 then putc (buffer i) s else s) s)

end BigBrainOS
