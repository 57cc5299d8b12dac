import BigBrainOS.Kernel.Files

/-!
# Descriptor calls on the bytes of memory

`sys_read`, `sys_write` and `sys_close` take any 32-bit descriptor and index the
table without a bound, so what they do is decided by the bytes of memory around
the process control block. Here they run on those bytes: an entry has 16 bytes
from offset 8 of the block on, `fot_ptr` first and `flags` from offset 12 of the
entry on, and addresses wrap at 32 bits.
-/

namespace BigBrainOS.Raw
set_option autoImplicit false

abbrev Word := BitVec 32

/-- Linear memory; `none` where no page is mapped. -/
abbrev Memory := Word → Option UInt8

/-- A little-endian load; `none` is a page fault. -/
def loadWord (mem : Memory) (a : Word) : Option Word := do
  let b₀ ← mem a
  let b₁ ← mem (a + 1)
  let b₂ ← mem (a + 2)
  let b₃ ← mem (a + 3)
  return b₃.toBitVec ++ b₂.toBitVec ++ b₁.toBitVec ++ b₀.toBitVec

/-- `get_curr_pcb`. -/
def getCurrPcb (esp : Word) : Word := esp &&& 0x007FE000

/-- `&get_curr_pcb()->fdt[fd]`. -/
def fdtEntry (esp fd : Word) : Word := getCurrPcb esp + 8 + 16 * fd

/-- The byte with the bits `enabled` and `is_data_file`. -/
def flagsAddr (esp fd : Word) : Word := fdtEntry esp fd + 12

/-- How a descriptor call ends, or where it goes on. -/
inductive Outcome where
  | ret (value : Int)
  /-- The handler at an address is called with these arguments. -/
  | call (handler : Word) (args : List Word)
  | pageFault
  deriving DecidableEq, Repr

/-- `fdt[fd].fot_ptr->op(args)`; `offset` is that of the operation in `fot_t`. -/
def callHandler (mem : Memory) (esp fd offset : Word) (args : List Word) : Outcome :=
  match loadWord mem (fdtEntry esp fd) with
  | none => .pageFault
  | some fotPtr =>
    match loadWord mem (fotPtr + offset) with
    | none => .pageFault
    | some handler => .call handler args

/-- `sys_read`. -/
def sysRead (mem : Memory) (esp fd buf nbytes : Word) : Outcome × Memory :=
  if buf = 0 then (.ret error, mem)
  else if fd.toInt < 0 then (.ret error, mem)
  else
    match mem (flagsAddr esp fd) with
    | none => (.pageFault, mem)
    | some flags => if flags &&& 1 = 0 then (.ret error, mem) else (callHandler mem esp fd 0 [fd, buf, nbytes], mem)

/-- `sys_write`. -/
def sysWrite (mem : Memory) (esp fd buf nbytes : Word) : Outcome × Memory :=
  if fd.toInt < 0 then (.ret error, mem)
  else if buf = 0 then (.ret error, mem)
  else
    match mem (flagsAddr esp fd) with
    | none => (.pageFault, mem)
    | some flags => if flags &&& 1 = 0 then (.ret error, mem) else (callHandler mem esp fd 4 [fd, buf, nbytes], mem)

/-- `sys_close`: the bit `enabled` is cleared before the handler is called. -/
def sysClose (mem : Memory) (esp fd : Word) : Outcome × Memory :=
  if fd.toInt < 2 then (.ret error, mem)
  else
    match mem (flagsAddr esp fd) with
    | none => (.pageFault, mem)
    | some flags =>
      if flags &&& 1 = 0 then (.ret error, mem)
      else
        let mem := Function.update mem (flagsAddr esp fd) (some (flags &&& 0xFE))
        (callHandler mem esp fd 12 [fd], mem)

end BigBrainOS.Raw
