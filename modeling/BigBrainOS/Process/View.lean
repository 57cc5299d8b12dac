import BigBrainOS.Kernel.Pit
import BigBrainOS.Kernel.Keyboard

/-!
# The process view of the kernel

`ProcView` keeps what decides which process runs where: the pid table, the
links and saved registers of the control blocks, the pids of the terminals, the
program page and `tss.esp0`. Screen output, keys and RTC bookkeeping leave it
alone; each process operation acts on it by a small function given here, so the
invariants are proved about the view and never unfold the operations again.
-/

namespace BigBrainOS
set_option autoImplicit false

/-- The links and saved registers of a control block. -/
structure PcbLinks where
  pid : Int
  parPid : Int
  parPcbPtr : Nat
  parRegs : Regs
  regs : Regs

def Pcb.links (p : Pcb) : PcbLinks := ⟨p.pid, p.parPid, p.parPcbPtr, p.parRegs, p.regs⟩

@[ext] structure ProcView where
  usedPids : Int → Bool
  pcb : Nat → PcbLinks
  /-- `prog_curr_pid` of each terminal. -/
  curr : Term → Int
  /-- `prog_par_pid` of each terminal. -/
  par : Term → Int
  currProcess : Term
  programPage : PageDirEntry
  esp0 : Nat

def Kernel.view (s : Kernel) : ProcView where
  usedPids := s.usedPids
  pcb a := (s.pcbs a).links
  curr t := (s.terminals t).progCurrPid
  par t := (s.terminals t).progParPid
  currProcess := s.currProcess
  programPage := s.pageDirectory userProgramPdIdx
  esp0 := s.tss.esp0

/-! ## Screen output -/

/-- A terminal after its cursor was saved. -/
def SameButCursor (t t' : TerminalState) : Prop :=
  ∃ x y, t' = { t with screenXSave := x, screenYSave := y }

theorem SameButCursor.trans {a b c : TerminalState} (h : SameButCursor a b) (h' : SameButCursor b c) :
    SameButCursor a c := by
  obtain ⟨x, y, rfl⟩ := h
  obtain ⟨x', y', rfl⟩ := h'
  exact ⟨x', y', rfl⟩

/-- `s'` is `s` after screen output: only the cursor, its saved copies and the
contents of memory may differ. -/
def Output (s s' : Kernel) : Prop :=
  ∃ ts x y c m, s' = { s with terminals := ts, screenX := x, screenY := y, vgaCursor := c, phys := m } ∧
    ∀ t, SameButCursor (s.terminals t) (ts t)

theorem Output.refl (s : Kernel) : Output s s := ⟨_, _, _, _, _, rfl, fun _ => ⟨_, _, rfl⟩⟩

theorem Output.trans {a b c : Kernel} (h : Output a b) (h' : Output b c) : Output a c := by
  obtain ⟨ts, x, y, v, m, rfl, same⟩ := h
  obtain ⟨ts', x', y', v', m', rfl, same'⟩ := h'
  exact ⟨ts', x', y', v', m', rfl, fun t => (same t).trans (same' t)⟩

theorem sameButCursor_update (ts : Term → TerminalState) (u : Term) (x y : Int) (t : Term) :
    SameButCursor (ts t) (Function.update ts u { ts u with screenXSave := x, screenYSave := y } t) := by
  revert t
  apply (Function.forall_update_iff ts fun t => SameButCursor (ts t)).2
  exact ⟨⟨x, y, rfl⟩, fun t _ => ⟨_, _, rfl⟩⟩

theorem setCursor_output (s : Kernel) : Output s (setCursor s) := by
  dsimp only [setCursor]
  split
  · exact ⟨_, _, _, _, _, rfl, sameButCursor_update _ _ _ _⟩
  · exact ⟨_, _, _, _, _, rfl, sameButCursor_update _ _ _ _⟩

theorem setScreen_output (s : Kernel) (scr : Screen) : Output s (s.setScreen scr) :=
  ⟨_, _, _, _, _, rfl, fun _ => ⟨_, _, rfl⟩⟩

theorem resetCursor_output (s : Kernel) : Output s (resetCursor s) :=
  ⟨_, _, _, _, _, rfl, sameButCursor_update _ _ _ _⟩

theorem putc_output (c : UInt8) (s : Kernel) : Output s (putc c s) :=
  (setScreen_output s _).trans (setCursor_output _)

theorem puts_output (text : List UInt8) : ∀ s, Output s (puts text s) := by
  induction text with
  | nil => exact Output.refl
  | cons c text ih => intro s; exact (putc_output c s).trans (ih (putc c s))

theorem screenBackspace_output (s : Kernel) : Output s (screenBackspace s) := by
  unfold screenBackspace
  split
  · exact Output.refl s
  · dsimp only
    split
    · exact (setScreen_output s _).trans (setCursor_output _)
    · exact setScreen_output s _

theorem clear_output (s : Kernel) : Output s (clear s) := ⟨_, _, _, _, _, rfl, fun _ => ⟨_, _, rfl⟩⟩

theorem controlL_output (s : Kernel) : Output s (controlL s) :=
  (((clear_output s).trans (resetCursor_output _)).trans (setCursor_output _)).trans (puts_output _ _)

/-- Screen output leaves the process view alone. -/
theorem Output.view {s s' : Kernel} (h : Output s s') : s'.view = s.view := by
  obtain ⟨ts, x, y, c, m, rfl, same⟩ := h
  have curr : (fun t => (ts t).progCurrPid) = fun t => (s.terminals t).progCurrPid := by
    funext t; obtain ⟨p, q, e⟩ := same t; rw [e]
  have par : (fun t => (ts t).progParPid) = fun t => (s.terminals t).progParPid := by
    funext t; obtain ⟨p, q, e⟩ := same t; rw [e]
  ext1 <;> first | rfl | exact curr | exact par

@[simp] theorem puts_view (text : List UInt8) (s : Kernel) : (puts text s).view = s.view := (puts_output text s).view

@[simp] theorem putc_view (c : UInt8) (s : Kernel) : (putc c s).view = s.view := (putc_output c s).view

/-- What the clock bookkeeping reads and writes. -/
structure ClockView where
  usedPids : Int → Bool
  pcbs : Nat → Pcb
  higherFreq : Nat
  rtcRegA : UInt8

def Kernel.clock (s : Kernel) : ClockView := ⟨s.usedPids, s.pcbs, s.higherFreq, s.rtcRegA⟩

/-- Screen output leaves the clock bookkeeping alone. -/
theorem Output.clock {s s' : Kernel} (h : Output s s') : s'.clock = s.clock := by
  obtain ⟨ts, x, y, c, m, rfl, -⟩ := h; rfl

@[simp] theorem puts_clock (text : List UInt8) (s : Kernel) : (puts text s).clock = s.clock :=
  (puts_output text s).clock

/-! ## RTC bookkeeping -/

/-- A control block after its divisor was set. -/
def SameButDivisor (p p' : Pcb) : Prop := ∃ d, p' = { p with divisor := d }

theorem SameButDivisor.trans {a b c : Pcb} (h : SameButDivisor a b) (h' : SameButDivisor b c) : SameButDivisor a c := by
  obtain ⟨d, rfl⟩ := h
  obtain ⟨d', rfl⟩ := h'
  exact ⟨d', rfl⟩

/-- `s'` is `s` after the RTC was reprogrammed: among the control blocks only
divisors may differ. -/
def Reprogrammed (s s' : Kernel) : Prop :=
  ∃ f a ps, s' = { s with higherFreq := f, rtcRegA := a, pcbs := ps } ∧ ∀ k, SameButDivisor (s.pcbs k) (ps k)

theorem Reprogrammed.refl (s : Kernel) : Reprogrammed s s := ⟨_, _, _, rfl, fun _ => ⟨_, rfl⟩⟩

theorem Reprogrammed.trans {a b c : Kernel} (h : Reprogrammed a b) (h' : Reprogrammed b c) : Reprogrammed a c := by
  obtain ⟨f, r, ps, rfl, same⟩ := h
  obtain ⟨f', r', ps', rfl, same'⟩ := h'
  exact ⟨f', r', ps', rfl, fun k => (same k).trans (same' k)⟩

theorem setDivisor_reprogrammed (s : Kernel) (addr : Nat) (d : Pcb → Nat) :
    Reprogrammed s (s.setPcb addr fun pcb => { pcb with divisor := d pcb }) := by
  refine ⟨_, _, _, rfl, fun k => ?_⟩
  by_cases h : k = addr
  · subst h; exact ⟨_, by rw [Function.update_self]⟩
  · exact ⟨_, by rw [Function.update_of_ne h]⟩

theorem updateDivisors_reprogrammed (s : Kernel) : Reprogrammed s (updateDivisors s) := by
  unfold updateDivisors
  induction List.range maxProcesses generalizing s with
  | nil => exact Reprogrammed.refl s
  | cons i is ih =>
    rw [List.foldl_cons]
    split
    · exact (setDivisor_reprogrammed s _ fun pcb => s.higherFreq / pcb.progFreq).trans (ih _)
    · exact ih s

theorem rtcSetFrequency_reprogrammed (freq : Nat) (s : Kernel) : Reprogrammed s (rtcSetFrequency freq s) :=
  ⟨_, _, _, rfl, fun _ => ⟨_, rfl⟩⟩

theorem rtcClose_reprogrammed (s : Kernel) : Reprogrammed s (rtcClose s) := by
  have raised : Reprogrammed s { s with higherFreq := maxRequestedFreq s } := ⟨_, _, _, rfl, fun _ => ⟨_, rfl⟩⟩
  exact (raised.trans (rtcSetFrequency_reprogrammed _ _)).trans (updateDivisors_reprogrammed _)

theorem closeFile_reprogrammed (fot : Option Fot) (s : Kernel) : Reprogrammed s (closeFile fot s) := by
  unfold closeFile
  split
  · exact rtcClose_reprogrammed s
  · exact Reprogrammed.refl s

/-- RTC bookkeeping leaves the process view alone. -/
theorem Reprogrammed.view {s s' : Kernel} (h : Reprogrammed s s') : s'.view = s.view := by
  obtain ⟨f, a, ps, rfl, same⟩ := h
  have links : (fun k => (ps k).links) = fun k => (s.pcbs k).links := by
    funext k; obtain ⟨d, e⟩ := same k; rw [e]; rfl
  ext1 <;> first | rfl | exact links

/-! ## The process operations on the view -/

namespace ProcView

/-- The page directory entry that maps a pid. -/
def mapped (pde : PageDirEntry) (pid : Int) : PageDirEntry :=
  { pde with present := true, pageSize := true, userSupervisor := true, address := programFrame pid }

/-- The program page maps the frame of `pid`. -/
def Maps (v : ProcView) (pid : Int) : Prop :=
  v.programPage.present = true ∧ v.programPage.pageSize = true ∧ v.programPage.userSupervisor = true ∧
    v.programPage.address = programFrame pid

/-- The program page and the kernel stack are those of the running process. -/
structure Placed (v : ProcView) : Prop where
  page : v.Maps (v.curr v.currProcess)
  stack : v.esp0 = kernelStackTop (v.curr v.currProcess)

/-- `enable_program_page`. -/
def enable (v : ProcView) (pid : Int) : ProcView := { v with programPage := mapped v.programPage pid }

/-- The parent that `sys_execute` writes into a new block. -/
def newParent (v : ProcView) (newPid : Int) (r : Regs) : Int :=
  if newPid < 3 then newPid
  else if getCurrPcb r.esp = getPcbByPid newPid then newPid else (v.pcb (getCurrPcb r.esp)).pid

/-- `createStmts`: from the new block to the assignment of `prog_curr_pid`. -/
def create (v : ProcView) (newPid : Int) (r : Regs) : ProcView :=
  { v with
    usedPids := Function.update v.usedPids newPid true
    pcb := Function.update v.pcb (getPcbByPid newPid)
      ⟨newPid, v.newParent newPid r, getCurrPcb r.esp, r, (v.pcb (getPcbByPid newPid)).regs⟩
    curr := Function.update v.curr v.currProcess newPid
    esp0 := kernelStackTop newPid }

/-- `enterStmts`. -/
def enter (v : ProcView) (newPid : Int) : ProcView :=
  { v with
    par := Function.update v.par v.currProcess (v.pcb (getPcbByPid newPid)).parPid
    pcb := Function.update v.pcb (getPcbByPid newPid)
      { v.pcb (getPcbByPid newPid) with regs := ⟨userEsp, userEsp⟩ } }

/-- A complete launch on the running terminal. -/
def launch (v : ProcView) (newPid : Int) (r : Regs) : ProcView := ((v.enable newPid).create newPid r).enter newPid

/-- `sys_halt` up to the closing of the files. -/
def release (v : ProcView) (addr : Nat) (pid : Int) : ProcView :=
  { v with
    usedPids := Function.update v.usedPids pid false
    programPage := mapped v.programPage (v.pcb addr).parPid
    esp0 := kernelStackTop (v.pcb addr).parPid }

/-- The end of `sys_halt`: the parent becomes current and the block is cleared. -/
def return_ (v : ProcView) (addr : Nat) : ProcView :=
  { v with
    curr := Function.update v.curr v.currProcess (v.pcb (v.pcb addr).parPcbPtr).pid
    par := Function.update v.par v.currProcess (v.pcb (v.pcb addr).parPcbPtr).parPid
    pcb := Function.update v.pcb addr Pcb.zero.links }

/-- The registers of a preempted process are saved in its block. -/
def save (v : ProcView) (pid : Int) (r : Regs) : ProcView :=
  { v with pcb := Function.update v.pcb (getPcbByPid pid) { v.pcb (getPcbByPid pid) with regs := r } }

/-- `switch_running_process` before it launches a base shell. -/
def bootSave (v : ProcView) (r : Regs) : ProcView :=
  { (if v.currProcess + 1 ≠ 0 then v.save v.currProcess.val r else v) with currProcess := v.currProcess + 1 }

/-- `switch_running_process` between two processes. -/
def switch (v : ProcView) (r : Regs) : ProcView :=
  { v.save (v.curr v.currProcess) r with
    programPage := mapped v.programPage (v.curr (v.currProcess + 1))
    esp0 := kernelStackTop (v.curr (v.currProcess + 1))
    currProcess := v.currProcess + 1 }

end ProcView

/-! ### Each operation acts on the view by its function -/

namespace Kernel
variable (s : Kernel)

theorem setPcb_setPcb (a : Nat) (f g : Pcb → Pcb) : (s.setPcb a f).setPcb a g = s.setPcb a fun pcb => g (f pcb) := by
  simp [setPcb]

theorem setPcb_view (a : Nat) (f : Pcb → Pcb) :
    (s.setPcb a f).view = { s.view with pcb := Function.update s.view.pcb a (f (s.pcbs a)).links } := by
  ext1
  case pcb =>
    funext k
    by_cases h : k = a
    · subst h; simp [view]
    · simp [view, setPcb, Function.update_of_ne h]
  all_goals rfl

theorem setTerminal_view (u : Term) (f : TerminalState → TerminalState) :
    (s.setTerminal u f).view =
      { s.view with
        curr := Function.update s.view.curr u (f (s.terminals u)).progCurrPid
        par := Function.update s.view.par u (f (s.terminals u)).progParPid } := by
  ext1
  case curr =>
    funext t
    by_cases h : t = u
    · subst h; simp [view]
    · simp [view, setTerminal, Function.update_of_ne h]
  case par =>
    funext t
    by_cases h : t = u
    · subst h; simp [view]
    · simp [view, setTerminal, Function.update_of_ne h]
  all_goals rfl

@[simp] theorem enableProgramPage_view (pid : Int) : (enableProgramPage pid s).view = s.view.enable pid := by
  ext1
  case programPage => simp [view, enableProgramPage, ProcView.enable, ProcView.mapped]
  all_goals rfl

@[simp] theorem changeVidmem_view (n : Int) : (changeVidmem n s).view = s.view := rfl

@[simp] theorem maskKeyboard_view (next : Term) : (maskKeyboard next s).view = s.view := by
  obtain ⟨on, mask, masked⟩ := maskKeyboard_quiet next s
  rw [masked]
  rfl

end Kernel

/-- The new process's block once `createStmts` have run. -/
def Launch.newPcb (l : Launch) (s : Kernel) (pcb : Pcb) : Pcb :=
  { storeArgs l pcb with
    pid := l.newPid
    progFreq := 0
    count := 0
    divisor := 0
    parPid := s.view.newParent l.newPid l.regs
    parPcbPtr := getCurrPcb l.regs.esp
    parRegs := l.regs
    fdt := initFdt }

/-- The first statements of `createStmts` fill the new block. -/
theorem runLaunch_block (l : Launch) (s : Kernel) (rest : List LaunchStmt) :
    runLaunch l (.readEip :: .pid :: .progFreq :: .count :: .divisor :: .parPid :: .parPidRoot :: .parPcbPtr ::
      .args :: .parRegs :: .fdt :: rest) s =
    runLaunch l rest (s.setPcb (getPcbByPid l.newPid) (l.newPcb s)) := by
  let clean : Pcb → Pcb := fun pcb => { pcb with pid := l.newPid, progFreq := 0, count := 0, divisor := 0 }
  have parent : ((s.setPcb (getPcbByPid l.newPid) clean).pcbs (getCurrPcb l.regs.esp)).pid =
      if getCurrPcb l.regs.esp = getPcbByPid l.newPid then l.newPid else (s.pcbs (getCurrPcb l.regs.esp)).pid := by
    split
    · next h => rw [h, Kernel.setPcb_pcbs_self]
    · next h => rw [Kernel.setPcb_pcbs_of_ne _ _ h]
  simp only [clean] at parent
  simp only [runLaunch, LaunchStmt.run, Kernel.setPcb_setPcb, parent]
  by_cases root : l.newPid < 3
  · simp only [if_pos root, Kernel.setPcb_setPcb]
    congr 2
    funext pcb
    simp only [Launch.newPcb, ProcView.newParent, if_pos root, storeArgs]
    split <;> rfl
  · simp only [if_neg root, Kernel.setPcb_setPcb]
    congr 2
    funext pcb
    simp only [Launch.newPcb, ProcView.newParent, if_neg root, storeArgs]
    split <;> rfl

theorem Launch.newPcb_links (l : Launch) (s : Kernel) (pcb : Pcb) :
    (l.newPcb s pcb).links =
      ⟨l.newPid, s.view.newParent l.newPid l.regs, getCurrPcb l.regs.esp, l.regs, pcb.regs⟩ := by
  simp only [newPcb, storeArgs, Pcb.links]
  split <;> rfl

/-- The clock bookkeeping after a launch: a fresh block that asks for no frequency. -/
def ClockView.create (c : ClockView) (newPid : Int) (pcb : Pcb) : ClockView :=
  { c with
    usedPids := Function.update c.usedPids newPid true
    pcbs := Function.update c.pcbs (getPcbByPid newPid) pcb }

/-- The assignments of `used_pids` and `prog_curr_pid`. -/
def Kernel.setRunning (s : Kernel) (pid : Int) : Kernel :=
  ({ s with usedPids := Function.update s.usedPids pid true } : Kernel).setTerminal s.currProcess
    fun t => { t with progCurrPid := pid }

theorem Kernel.setRunning_view (s : Kernel) (pid : Int) :
    (s.setRunning pid).view =
      { s.view with
        usedPids := Function.update s.view.usedPids pid true
        curr := Function.update s.view.curr s.view.currProcess pid } := by
  rw [setRunning, setTerminal_view]
  ext1
  case par => exact Function.update_eq_self s.currProcess s.view.par
  all_goals rfl

/-- `createStmts` never fault, and act on the view as `ProcView.create`. -/
theorem runLaunch_create (l : Launch) (s : Kernel) (rest : List LaunchStmt) :
    ∃ s', runLaunch l (createStmts ++ rest) s = runLaunch l rest s' ∧
      s'.view = s.view.create l.newPid l.regs ∧
      s'.clock = s.clock.create l.newPid (l.newPcb s (s.pcbs (getPcbByPid l.newPid))) := by
  simp only [createStmts, List.cons_append, List.nil_append, runLaunch_block]
  refine ⟨(puts (executingMessage l.newPid s.currProcess)
    { s.setPcb (getPcbByPid l.newPid) (l.newPcb s) with
      tss := ⟨kernelDs, kernelStackTop l.newPid⟩ }).setRunning l.newPid, rfl, ?_, ?_⟩
  · have filled : ({ s.setPcb (getPcbByPid l.newPid) (l.newPcb s) with
        tss := ⟨kernelDs, kernelStackTop l.newPid⟩ } : Kernel).view =
        { (s.setPcb (getPcbByPid l.newPid) (l.newPcb s)).view with esp0 := kernelStackTop l.newPid } := rfl
    rw [Kernel.setRunning_view, puts_view, filled, Kernel.setPcb_view, Launch.newPcb_links]
    rfl
  · refine (congrArg (fun c : ClockView => { c with usedPids := Function.update c.usedPids l.newPid true })
      (puts_clock _ _)).trans ?_
    rfl

/-- `enterStmts` never fault, and act on the view as `ProcView.enter`. -/
theorem runLaunch_enter (l : Launch) (s : Kernel) :
    ∃ s', runLaunch l enterStmts s = .ok s' ∧ s'.view = s.view.enter l.newPid ∧
      s'.clock = { s.clock with
        pcbs := Function.update s.pcbs (getPcbByPid l.newPid)
          { s.pcbs (getPcbByPid l.newPid) with regs := ⟨userEsp, userEsp⟩ } } := by
  refine ⟨_, rfl, ?_, ?_⟩
  · rw [Kernel.setPcb_setPcb, Kernel.setPcb_view, Kernel.setTerminal_view]
    ext1
    case curr => exact Function.update_eq_self s.currProcess s.view.curr
    all_goals rfl
  · rw [Kernel.setPcb_setPcb]
    rfl

/-! ### Loading -/

/-- `s'` is `s` with bytes stored in memory. -/
def Stored (s s' : Kernel) : Prop := ∃ m, s' = { s with phys := m }

theorem Stored.refl (s : Kernel) : Stored s s := ⟨_, rfl⟩

theorem Stored.trans {a b c : Kernel} (h : Stored a b) (h' : Stored b c) : Stored a c := by
  obtain ⟨m, rfl⟩ := h
  obtain ⟨m', rfl⟩ := h'
  exact ⟨m', rfl⟩

theorem Stored.view {s s' : Kernel} (h : Stored s s') : s'.view = s.view := by
  obtain ⟨m, rfl⟩ := h; rfl

theorem Stored.clock {s s' : Kernel} (h : Stored s s') : s'.clock = s.clock := by
  obtain ⟨m, rfl⟩ := h; rfl

/-- Bytes stored in memory leave the page tables alone. -/
theorem Stored.mapsProgram {s s' : Kernel} {pid : Int} (h : Stored s s') (maps : s.MapsProgram pid) :
    s'.MapsProgram pid := by
  obtain ⟨m, rfl⟩ := h; exact maps

theorem writeByte_stored {s s' : Kernel} {lin : Nat} {b : UInt8} (h : s.writeByte lin b = some s') : Stored s s' := by
  obtain ⟨a, -, rfl⟩ := Option.map_eq_some_iff.1 h
  exact ⟨_, rfl⟩

/-- The loader's copies change nothing but memory, up to the fault if there is one. -/
theorem runLaunch_copies (l : Launch) (ks : List Nat) (s : Kernel) :
    ∃ s', Stored s s' ∧
      (runLaunch l (ks.map .copy) s = .error s' ∨ runLaunch l (ks.map .copy) s = .ok s') := by
  induction ks generalizing s with
  | nil => exact ⟨s, .refl s, Or.inr rfl⟩
  | cons k ks ih =>
    simp only [List.map_cons, runLaunch, LaunchStmt.run]
    cases stored : s.writeByte (progLoadAddr + k) (l.program.getD k 0) with
    | none => exact ⟨s, .refl s, Or.inl rfl⟩
    | some s₁ =>
      obtain ⟨s', same, outcome⟩ := ih s₁
      exact ⟨s', (writeByte_stored stored).trans same, outcome⟩

/-- Copies that stay in the mapped program page do not fault. -/
theorem runLaunch_copies_ok (l : Launch) (ks : List Nat) (s : Kernel) (pid : Int) (maps : s.MapsProgram pid)
    (fits : ∀ k ∈ ks, progLoadAddr + k < 0x8400000) :
    ∃ s', Stored s s' ∧ runLaunch l (ks.map .copy) s = .ok s' := by
  induction ks generalizing s with
  | nil => exact ⟨s, .refl s, rfl⟩
  | cons k ks ih =>
    have address := translate_program maps (show 0x8000000 ≤ progLoadAddr + k by simp only [progLoadAddr]; omega)
      (fits k List.mem_cons_self)
    obtain ⟨s₁, stored⟩ : ∃ s₁, s.writeByte (progLoadAddr + k) (l.program.getD k 0) = some s₁ := by
      rw [Kernel.writeByte, address]; exact ⟨_, rfl⟩
    have same₁ := writeByte_stored stored
    obtain ⟨s', same, outcome⟩ := ih s₁ (same₁.mapsProgram maps) fun j hj => fits j (List.mem_cons_of_mem k hj)
    refine ⟨s', same₁.trans same, ?_⟩
    simp only [List.map_cons, runLaunch, LaunchStmt.run, stored, outcome]

end BigBrainOS
