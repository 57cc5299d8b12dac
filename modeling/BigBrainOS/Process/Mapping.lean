import BigBrainOS.Process.Printing
import BigBrainOS.Kernel.Init
import BigBrainOS.Kernel.UserCalls

/-!
# The page behind the program page

The program page ends at 132 MB, and the page that `sys_vidmap` makes begins
there. Along every run of the kernel that page is a table with one page in it,
and this one maps a video frame: nothing behind the program page leads back to
the frame of a program.
-/

namespace BigBrainOS
set_option autoImplicit false

/-! ## Keys -/

/-- A property that each part of the keyboard handler keeps. -/
structure KeyKept (P : Kernel → Prop) : Prop where
  output : ∀ {s s' : Kernel}, P s → Output s s' → P s'
  terminals : ∀ {s : Kernel} (ts : Term → TerminalState), P s → P { s with terminals := ts }
  modifiers : ∀ {s : Kernel} (shift ctrl caps alt : Bool), P s →
    P { s with shiftPressed := shift, controlPressed := ctrl, capsLockOn := caps, altPressed := alt }
  switch : ∀ {s : Kernel} (n : Term), P s → P (switchTerminal n s)

namespace KeyKept
variable {P : Kernel → Prop} {s : Kernel} (kept : KeyKept P)
include kept

theorem backspace (start : P s) : P (backspace s) := by
  unfold BigBrainOS.backspace
  split
  · exact start
  · exact kept.terminals _ (kept.output start (screenBackspace_output s))

theorem upArrow (start : P s) : P (upArrow s) := by
  apply upArrow_rule (P := P) (Q := P) start
  · exact fun s₁ start => kept.backspace start
  · exact fun s₁ start => kept.output (kept.terminals _ start) (puts_output _ _)

theorem characterKey (c : UInt8) (start : P s) : P (characterKey c s) := by
  unfold BigBrainOS.characterKey
  split
  · exact kept.backspace start
  split
  · exact kept.output (kept.terminals _ start) (putc_output _ _)
  split
  · exact start
  · unfold printChar
    split
    · exact start
    · exact kept.output (kept.terminals _ start) (putc_output _ _)

/-- `KB_handler` keeps the property. -/
theorem kbHandler (scancode : UInt8) (start : P s) : P (kbHandler scancode s) := by
  apply kbHandler_rule (P := P) (Q := P) scancode
  case arrow =>
    split
    · exact kept.upArrow start
    · exact start
  case still => exact fun _ start => start
  case modifiers => exact fun s₁ shift control alt caps start => kept.modifiers shift control caps alt start
  case clear => exact fun s₁ start => kept.output start (controlL_output s₁)
  case switch => exact fun s₁ n _ _ start => kept.switch n start
  case character => exact fun s₁ _ start => kept.characterKey _ start

end KeyKept

/-! ## The invariant -/

theorem term_le_two : ∀ t : Term, (t.val : Int) ≤ 2 := by decide

/-- The directory entry behind the program page is that of a page table, whose
one page maps the screen or one of the three buffers behind it. -/
structure VideoBehind (s : Kernel) : Prop where
  small : (s.pageDirectory (userProgramPdIdx + 1)).pageSize = false
  frame : (s.vidmemPageTable 0).address ≤ videoPage + 3
  single : ∀ i, i ≠ 0 → (s.vidmemPageTable i).present = false

namespace VideoBehind
variable {s s' : Kernel}

/-- The two tables decide. -/
theorem of_same (behind : VideoBehind s) (directory : s'.pageDirectory = s.pageDirectory)
    (table : s'.vidmemPageTable = s.vidmemPageTable) : VideoBehind s' :=
  ⟨by rw [directory]; exact behind.small, by rw [table]; exact behind.frame, by rw [table]; exact behind.single⟩

theorem of_output (behind : VideoBehind s) (output : Output s s') : VideoBehind s' := by
  obtain ⟨ts, x, y, c, m, rfl, -⟩ := output
  exact behind.of_same rfl rfl

theorem enableProgramPage (behind : VideoBehind s) (pid : Int) : VideoBehind (enableProgramPage pid s) := by
  refine ⟨?_, behind.frame, behind.single⟩
  simp only [BigBrainOS.enableProgramPage, Function.update_of_ne (show userProgramPdIdx + 1 ≠ userProgramPdIdx by decide)]
  exact behind.small

/-- The screen of a terminal, or the displayed one. -/
theorem changeVidmem (behind : VideoBehind s) {n : Int} (high : n ≤ 2) : VideoBehind (changeVidmem n s) := by
  refine ⟨behind.small, ?_, fun i other => ?_⟩
  · simp only [BigBrainOS.changeVidmem, Function.update_self, videoPage]
    omega
  · simp only [BigBrainOS.changeVidmem, Function.update_of_ne other]
    exact behind.single i other

theorem getVidmem (behind : VideoBehind s) (tableAddr : Nat) : VideoBehind (getVidmem tableAddr s) := by
  refine ⟨?_, ?_, fun i other => ?_⟩
  · simp only [BigBrainOS.getVidmem, Function.update_self]
    exact behind.small
  · simp only [BigBrainOS.getVidmem, Function.update_self]
    omega
  · simp only [BigBrainOS.getVidmem, Function.update_of_ne other]
    exact behind.single i other

/-- Every statement of `sys_execute` and `sys_halt`. -/
theorem kept : Kept VideoBehind where
  launch {l stmt s s'} behind run := by
    cases stmt with
    | enableProgramPage => obtain rfl := Option.some.inj run; exact behind.enableProgramPage l.newPid
    | copy k =>
      obtain ⟨m, rfl⟩ := writeByte_stored run
      exact behind.of_same rfl rfl
    | printf => obtain rfl := Option.some.inj run; exact behind.of_output (puts_output _ _)
    | parPidRoot =>
      obtain rfl := Option.some.inj run
      split <;> exact behind.of_same rfl rfl
    | _ => obtain rfl := Option.some.inj run; exact behind.of_same rfl rfl
  halt {s} h stmt behind := by
    cases stmt with
    | enableProgramPage => exact behind.enableProgramPage _
    | printf => exact behind.of_output (puts_output _ _)
    | close i =>
      obtain ⟨f, a, ps, same, -⟩ := close_reprogrammed h i s
      exact behind.of_same (by rw [same]) (by rw [same])
    | _ => exact behind.of_same rfl rfl
  enable pid behind := behind.enableProgramPage pid
  stored behind stored := by
    obtain ⟨m, rfl⟩ := stored
    exact behind.of_same rfl rfl
  puts text behind := behind.of_output (puts_output text _)

/-- Every part of the keyboard handler. -/
theorem keyKept : KeyKept VideoBehind where
  output := of_output
  terminals ts behind := behind.of_same rfl rfl
  modifiers shift ctrl caps alt behind := behind.of_same rfl rfl
  switch {s} n behind := by
    unfold switchTerminal
    split
    · have swapped : VideoBehind (swapVidMem s.currTer n s) := behind.of_same rfl rfl
      have changed := swapped.changeVidmem (term_le_two s.currTer)
      exact changed.of_same rfl rfl
    · exact behind

theorem switchTo (behind : VideoBehind s) (next : Term) (pid : Int) {vidId : Int} (high : vidId ≤ 2) (r : Regs) :
    VideoBehind (switchTo next pid vidId r s).2 := by
  unfold BigBrainOS.switchTo
  split
  · exact behind
  · have saved : VideoBehind (s.setPcb (getPcbByPid (s.currPid s.currProcess)) fun pcb => { pcb with regs := r }) :=
      behind.of_same rfl rfl
    exact ((saved.enableProgramPage pid).changeVidmem high).of_same rfl rfl

theorem maskKeyboard (behind : VideoBehind s) (next : Term) : VideoBehind (maskKeyboard next s) := by
  obtain ⟨on, mask, masked⟩ := maskKeyboard_quiet next s
  rw [masked]
  exact behind.of_same rfl rfl

theorem prepareTerminal (behind : VideoBehind s) (next : Term) {vidId : Int} (high : vidId ≤ 2) (r : Regs) :
    VideoBehind (prepareTerminal next vidId r s) := by
  have changed := behind.changeVidmem high
  unfold BigBrainOS.prepareTerminal
  dsimp only
  split <;> exact changed.of_same rfl rfl

theorem tick (behind : VideoBehind s) (env : Env) (r : Regs) (fr : ExecFrame) :
    VideoBehind (switchRunningProcess env r fr s).2 := by
  apply switchRunningProcess_rule r behind
  case mask => exact fun _ next behind => behind.maskKeyboard next
  case prepare => exact fun _ next _ high behind => behind.prepareTerminal next high r
  case launch => exact fun _ behind => kept.sysExecute env fr (shellCommand env) behind
  case switch => exact fun _ next pid _ high behind => behind.switchTo next pid high r

end VideoBehind

/-! ## All runs -/

/-- A step of the kernel, a call of `sys_vidmap`, or a page fault of a program. -/
inductive MachineOp where
  | call (op : Op)
  | vidmap (screenStart : BitVec 32)
  | pageFault (exc : ExecFrame)

def MachineOp.run (env : Env) (tableAddr : Nat) (op : MachineOp) (s : Kernel) : Kernel :=
  match op with
  | .call op => op.run env s
  | .vidmap screenStart => (sysVidmap tableAddr screenStart s).2
  | .pageFault exc => (pfHandler env exc s).2

def MachineOp.Allowed (op : MachineOp) (s : Kernel) : Prop :=
  match op with
  | .call op => op.Allowed s
  | _ => True

/-- The kernel with all that changes its page tables; `tableAddr` is the address of `vidmem_page_table`. -/
def machineCalls (env : Env) (tableAddr : Nat) : TransitionSystem Kernel MachineOp where
  ok s op := op.Allowed s
  next s op := op.run env tableAddr s

/-- `sys_vidmap` maps the screen, stores a pointer, or does neither. -/
theorem VideoBehind.sysVidmap {s : Kernel} (behind : VideoBehind s) (tableAddr : Nat) (screenStart : BitVec 32) :
    VideoBehind (sysVidmap tableAddr screenStart s).2 := by
  have stores : ∀ {n s₁ s₂}, VideoBehind s₁ → s₁.storeBytes screenStart.toNat mb132.toNat n = some s₂ → VideoBehind s₂ := by
    intro n
    induction n with
    | zero => intro s₁ s₂ start stored; cases stored; exact start
    | succ n ih =>
      intro s₁ s₂ start stored
      obtain ⟨s₃, first, last⟩ := Option.bind_eq_some_iff.1 stored
      exact VideoBehind.kept.stored (ih start first) (writeByte_stored last)
  have mapped := behind.getVidmem tableAddr
  unfold BigBrainOS.sysVidmap
  split
  · exact behind
  split
  · exact behind
  dsimp only
  split
  · exact mapped
  · next stored => exact stores mapped stored

theorem VideoBehind.step {s : Kernel} (behind : VideoBehind s) (env : Env) (tableAddr : Nat) (op : MachineOp) :
    VideoBehind (op.run env tableAddr s) := by
  cases op with
  | call op =>
    cases op with
    | execute fr exc command => exact kept.executeCall env fr exc command behind
    | halt fr status => exact kept.sysHalt env fr status behind
    | tick r fr => exact behind.tick env r fr
    | putc c => exact behind.of_output (putc_output c s)
    | key scancode => exact keyKept.kbHandler scancode behind
  | vidmap screenStart => exact behind.sysVidmap tableAddr screenStart
  | pageFault exc => exact kept.pfHandler env exc behind

/-- **Nothing behind the program page leads to a program.** -/
theorem videoBehind_of_reach {env : Env} {tableAddr : Nat} {s : Kernel}
    (reach : (machineCalls env tableAddr).Reach AtEntry s) : VideoBehind s := by
  refine reach.invariant (P := VideoBehind) ?_ ?_
  · rintro s₀ ⟨m, rfl⟩
    exact ⟨rfl, Nat.zero_le _, fun _ _ => rfl⟩
  · intro s₀ op behind _
    exact behind.step env tableAddr op

end BigBrainOS
