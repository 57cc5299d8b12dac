import BigBrainOS.Kernel.State

/-!
# The virtualised real-time clock of `rtc.c`

The hardware runs at `higher_freq`, the highest frequency that a process asked
for; each process waits for `divisor` hardware interrupts in `rtc_read`. The
wait is a loop that interrupts run through, so `rtc_read` is given as the steps
of a reader between which the clock interrupt may arrive.
-/

namespace BigBrainOS
set_option autoImplicit false

abbrev rtcStartFreq : Nat := 2
abbrev rtcMaxFreq : Int := 1024
abbrev rtcMinFreq : Int := 2

/-- The rate that the loop of `rtc_set_frequency` settles on. -/
def rtcRate (freq : Nat) : Nat :=
  match (List.range' 2 10).find? fun i => freq >>> i = 0 with
  | some i => 15 - i + 2
  | none => 15

/-- `rtc_set_frequency`: the rate goes into the low four bits of register A. -/
def rtcSetFrequency (freq : Nat) (s : Kernel) : Kernel :=
  { s with rtcRegA := (s.rtcRegA &&& 0xF0) ||| (UInt8.ofNat (rtcRate freq) &&& 0x0F) }

/-- `rtc_open`. -/
def rtcOpen (s : Kernel) : Kernel :=
  let pid := s.currPid s.currProcess
  if pid = -1 then s
  else
    let s := s.setPcb (getPcbByPid pid) fun pcb => { pcb with progFreq := 0 }
    rtcSetFrequency s.higherFreq s

/-- The loop "Update all PCB divisors" of `rtc_close` and `rtc_write`. -/
def updateDivisors (s : Kernel) : Kernel :=
  (List.range maxProcesses).foldl
    (fun s (i : Nat) =>
      if s.usedPids i = true ∧ (s.pcb i).progFreq > 0 then
        s.setPcb (getPcbByPid i) fun pcb => { pcb with divisor := s.higherFreq / pcb.progFreq }
      else s) s

/-- The loop "Get maximum frequency" of `rtc_close`. -/
def maxRequestedFreq (s : Kernel) : Nat :=
  (List.range maxProcesses).foldl
    (fun m (i : Nat) => if s.usedPids i = true ∧ (s.pcb i).progFreq > m then (s.pcb i).progFreq else m) rtcStartFreq

/-- `rtc_close`. -/
def rtcClose (s : Kernel) : Kernel :=
  let s := { s with higherFreq := maxRequestedFreq s }
  updateDivisors (rtcSetFrequency s.higherFreq s)

/-- `rtc_write`: the value returned and the new state. `buf` is the word behind
the pointer, `none` for the null pointer. -/
def rtcWrite (buf : Option (BitVec 32)) (nbytes : Int) (s : Kernel) : Int × Kernel :=
  match buf with
  | none => (error, s)
  | some freq =>
    if nbytes ≠ 4 then (error, s)
    else if freq.toInt > rtcMaxFreq ∨ freq.toInt < rtcMinFreq then (error, s)
    else if freq &&& (freq - 1) ≠ 0 then (error, s)
    else
      let pid := s.currPid s.currProcess
      if pid = -1 then (0, s)
      else
        let s := s.setPcb (getPcbByPid pid) fun pcb => { pcb with progFreq := freq.toNat }
        let s :=
          if freq.toNat > s.higherFreq then updateDivisors { s with higherFreq := freq.toNat }
          else s.setPcb (getPcbByPid pid) fun pcb => { pcb with divisor := s.higherFreq / freq.toNat }
        (0, rtcSetFrequency s.higherFreq s)

/-- `RT_handler`: the flag of every terminal is raised. -/
def rtHandler (s : Kernel) : Kernel := { s with rtcInterruptFlags := fun _ => true }

/-! ## The wait of `rtc_read` -/

/-- Where a reader stands in the loop of `rtc_read`. -/
inductive ReadPc where
  /-- `rtc_interrupt_flags[curr_process] = 0` comes next. -/
  | reset
  /-- The `while` that polls the flag. -/
  | wait
  /-- `pcb->count--` and the loop condition. -/
  | decrement
  | returned
  deriving DecidableEq, Repr

/-- A reader: its flag, its place in the loop and `pcb->count`. -/
structure Reader where
  flag : Bool
  pc : ReadPc
  count : BitVec 32
  deriving DecidableEq, Repr

/-- `rtc_read` after `pcb->count = pcb->divisor`; a process that has not asked
for a frequency returns at once. -/
def rtcRead (pcb : Pcb) (flag : Bool) : Reader :=
  if pcb.progFreq = 0 then ⟨flag, .returned, BitVec.ofNat 32 pcb.count⟩
  else ⟨flag, .reset, BitVec.ofNat 32 pcb.divisor⟩

namespace Reader

/-- One step of the reader itself. -/
def run (r : Reader) : Reader :=
  match r.pc with
  | .reset => { r with flag := false, pc := .wait }
  | .wait => if r.flag then { r with pc := .decrement } else r
  | .decrement =>
    let count := r.count - 1
    if count > 0 then { r with count := count, pc := .reset } else { r with count := count, pc := .returned }
  | .returned => r

/-- What `RT_handler` does to the reader's flag. -/
def interrupt (r : Reader) : Reader := { r with flag := true }

end Reader

end BigBrainOS
