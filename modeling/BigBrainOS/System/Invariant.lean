import BigBrainOS.System.Isolation

/-!
# The invariant of the whole kernel

What was shown of the process tree, the descriptor tables, the real-time clock,
the page tables and the console in systems of their own holds of all of them
together, when any process may make any call, the calls are single steps with interrupts
between them only, and the programs store where they can.
-/

namespace BigBrainOS
set_option autoImplicit false

/-- Every process in use has its standard descriptors, and its open ones have handlers. -/
def Tabled (s : Kernel) : Prop := ∀ p, s.usedPids p = true → TableInv (s.pcb p).fdt

/-- What every state of the machine meets. -/
structure SystemInv (s : Kernel) : Prop where
  /-- The records of the process tree agree, and the running process is in place. -/
  consistent : Consistent s
  tabled : Tabled s
  /-- The virtual clocks divide the hardware's. -/
  clock : ClockInv s.clock
  paged : Paged s
  /-- The console has drawn inside the screen. -/
  screen : ScreenRun s

/-! ## Descriptor tables -/

namespace Tabled
variable {s s' : Kernel}

theorem sameAsks (tabled : Tabled s) (same : SameAsks s s') : Tabled s' := by
  intro p used
  rw [same.used] at used
  rw [Kernel.pcb, same.fdt]
  exact tabled p used

theorem renewed (tabled : Tabled s) {p : Int} (renewed : Renewed p s s') : Tabled s' := by
  intro q used
  by_cases same : q = p
  · rw [same] at used ⊢
    rw [(renewed.fresh used).1]
    exact .initFdt
  · rw [renewed.used q same] at used
    rw [renewed.fdt q same]
    exact tabled q used

/-- A call on the block of a process that keeps its table in order. -/
theorem own (tabled : Tabled s) {p : Int} (valid : ValidPid p) (h : OwnRecords (getPcbByPid p) s s')
    (table : TableInv (s'.pcb p).fdt) : Tabled s' := by
  obtain ⟨ps, ts, f, reg, flags, rfl, -, same, -⟩ := h
  intro q used
  by_cases this : q = p
  · rw [this]
    exact table
  · obtain ⟨d, e⟩ := same _ (getPcbByPid_ne valid this)
    show TableInv (ps (getPcbByPid q)).fdt
    rw [e]
    exact tabled q used

theorem sysHalt (tabled : Tabled s) {env : Env} (loadable : ShellLoadable env) {F : Forest Term Int} (tree : Tree s.view F)
    (fr : ExecFrame) (status : UInt8) : Tabled (sysHalt env fr status s).2 :=
  tabled.renewed (tree.sysHalt_renewed loadable fr status).1

theorem blueScreen (tabled : Tabled s) {env : Env} (loadable : ShellLoadable env) {F : Forest Term Int}
    (tree : Tree s.view F) (exc : ExecFrame) (text : String) : Tabled (blueScreen env exc text s).2 := by
  have printed := puts_output (message "! ERROR " ++ [0xAF] ++ message (" " ++ text ++ " !\n")) s
  apply (tabled.sameAsks (.of_clock printed.clock)).sysHalt loadable (F := F)
  rw [printed.view]
  exact tree

theorem execute (tabled : Tabled s) {env : Env} (loadable : ShellLoadable env) {F : Forest Term Int} (tree : Tree s.view F)
    (fr exc : ExecFrame) (command : Bytes) : Tabled (executeCall env fr exc command s).2 := by
  have executed := sysExecute_executed env fr command s
  have view := sysExecute_view env fr command s
  unfold executeCall
  generalize outcome : sysExecute env fr command s = out at executed view
  cases executed with
  | notExecutable => exact tabled
  | full =>
    dsimp only
    generalize maxProcessesMessage = text
    exact tabled.sameAsks (.of_clock (puts_clock text s))
  | @fault inode newPid s₁ _ _ _ stored =>
    obtain ⟨n, -, enabled⟩ := view
    have same : SameAsks s s₁ := .of_clock stored.clock
    apply (tabled.sameAsks same).blueScreen loadable (F := F)
    rw [enabled]
    exact tree.enable n
  | @launched l s₁ s' eip _ alloc regs stored run =>
    obtain ⟨used, blocks, -, fresh⟩ := sysExecute_renewed outcome
    apply tabled.renewed (p := l.newPid)
    exact ⟨used, fun q other => by rw [blocks q other], fun q other => by rw [blocks q other], fun _ => fresh⟩

end Tabled

/-! ## Every step -/

theorem getVidmem_view (tableAddr : Nat) (s : Kernel) : (getVidmem tableAddr s).view = s.view := by
  ext1
  case programPage => simp [Kernel.view, getVidmem]
  all_goals rfl

/-- `sys_vidmap` maps the screen behind the program page, or refuses. -/
theorem sysVidmap_view (tableAddr : Nat) (screenStart : BitVec 32) (s : Kernel) :
    (sysVidmap tableAddr screenStart s).2.view = s.view := by
  rcases Classical.em (InProgramPage screenStart) with taken | refused
  · exact (sysVidmap_stored taken tableAddr s).view.trans (getVidmem_view tableAddr s)
  · rw [sysVidmap_refused refused]

namespace SystemInv
variable {env : Env} {tableAddr : Nat} {s : Kernel}

theorem pagedKept : Kept Paged where
  launch {l stmt s s'} paged run := by
    cases stmt with
    | enableProgramPage => obtain rfl := Option.some.inj run; exact paged.enableProgramPage l.newPid
    | copy k =>
      obtain ⟨m, rfl⟩ := writeByte_stored run
      exact paged.of_same rfl rfl rfl
    | printf => obtain rfl := Option.some.inj run; exact (puts_drew paged _).paged paged
    | parPidRoot =>
      obtain rfl := Option.some.inj run
      split <;> exact paged.of_same rfl rfl rfl
    | _ => obtain rfl := Option.some.inj run; exact paged.of_same rfl rfl rfl
  halt {s} h stmt paged := by
    cases stmt with
    | enableProgramPage => exact paged.enableProgramPage _
    | printf => exact (puts_drew paged _).paged paged
    | close i =>
      obtain ⟨f, a, ps, same, -⟩ := close_reprogrammed h i s
      exact paged.of_same (by rw [same]) (by rw [same]) (by rw [same])
    | _ => exact paged.of_same rfl rfl rfl
  enable pid paged := paged.enableProgramPage pid
  stored paged stored := by
    obtain ⟨m, rfl⟩ := stored
    exact paged.of_same rfl rfl rfl
  puts text paged := (puts_drew paged text).paged paged

theorem pagedKeys : KeyKept Paged where
  output paged output := by
    obtain ⟨ts, x, y, c, m, rfl, -⟩ := output
    exact paged.of_same rfl rfl rfl
  terminals ts paged := paged.of_same rfl rfl rfl
  modifiers shift ctrl caps alt paged := paged.of_same rfl rfl rfl
  switch n paged := paged.switchTerminal n

theorem pagedTick (paged : Paged s) (env : Env) (r : Regs) (fr : ExecFrame) : Paged (switchRunningProcess env r fr s).2 := by
  obtain ⟨on, mask, masked⟩ := maskKeyboard_quiet (s.currProcess + 1) s
  obtain ⟨low, high⟩ := Paged.vidId_range (s.currProcess + 1) s.currTer
  have quiet : Paged { s with onScreen := on, masterMask := mask } := paged.of_same rfl rfl rfl
  simp only [switchRunningProcess, masked]
  split
  · have executed := pagedKept.sysExecute env fr (shellCommand env) (quiet.prepareTerminal (s.currProcess + 1) low high r)
    split
    · next eq => rw [eq] at executed; exact executed
    · next eq => rw [eq] at executed; exact executed
    · next eq =>
      rw [eq] at executed
      exact executed.switchTo (s.currProcess + 1) _ low high r
  · exact quiet.switchTo (s.currProcess + 1) _ low high r

/-- Screen output keeps everything. -/
theorem drew (inv : SystemInv s) {s' : Kernel} (drew : Drew s s') (screen : ScreenRun s') : SystemInv s' where
  consistent := inv.consistent.of_view drew.output.view
  tabled := inv.tabled.sameAsks (.of_clock drew.output.clock)
  clock := drew.output.clock ▸ inv.clock
  paged := drew.paged inv.paged
  screen := screen

/-- The end of a process, after a message or without one. -/
theorem halt (inv : SystemInv s) (loadable : ShellLoadable env) (fr : ExecFrame) (status : UInt8) :
    SystemInv (sysHalt env fr status s).2 := by
  obtain ⟨⟨F, tree⟩, placed⟩ := inv.consistent
  have ended := tree.toLinks.halt_step loadable fr status
  exact ⟨⟨tree.callStep ended, placed.callStep tree.toLinks ended⟩, inv.tabled.sysHalt loadable tree fr status,
    inv.clock.sysHalt env fr status, pagedKept.sysHalt env fr status inv.paged,
    ScreenRun.printing.kept.sysHalt env fr status inv.screen⟩

theorem exception (inv : SystemInv s) (loadable : ShellLoadable env) (exc : ExecFrame) (text : String) :
    SystemInv (blueScreen env exc text s).2 := by
  have printed := inv.drew (puts_drew inv.paged (message "! ERROR " ++ [0xAF] ++ message (" " ++ text ++ " !\n")))
    (ScreenRun.printing.puts _ inv.screen)
  exact printed.halt loadable exc haltStatusExc

theorem stored (inv : SystemInv s) {s' : Kernel} (stored : Stored s s') : SystemInv s' where
  consistent := inv.consistent.of_view stored.view
  tabled := inv.tabled.sameAsks (.of_clock stored.clock)
  clock := stored.clock ▸ inv.clock
  paged := pagedKept.stored inv.paged stored
  screen := ScreenRun.printing.quiet inv.screen (.of_stored stored)

theorem sysVidmap (inv : SystemInv s) (tableAddr : Nat) (screenStart : BitVec 32) :
    SystemInv (sysVidmap tableAddr screenStart s).2 := by
  by_cases taken : InProgramPage screenStart
  · have mapped : SystemInv (getVidmem tableAddr s) :=
      ⟨inv.consistent.of_view (getVidmem_view tableAddr s), inv.tabled, inv.clock, inv.paged.getVidmem tableAddr,
        ScreenRun.printing.quiet inv.screen ⟨rfl, rfl, fun _ => rfl, fun _ => rfl, rfl, rfl, rfl, rfl⟩⟩
    exact mapped.stored (sysVidmap_stored taken tableAddr s)
  · rw [sysVidmap_refused taken]
    exact inv

theorem machineOp (inv : SystemInv s) (loadable : ShellLoadable env) {op : MachineOp} (allowed : op.Allowed s) :
    SystemInv (op.run env tableAddr s) := by
  cases op with
  | vidmap screenStart => exact inv.sysVidmap tableAddr screenStart
  | pageFault exc => exact inv.exception loadable exc "Page Fault"
  | call op =>
    have consistent := inv.consistent.step loadable allowed
    have screen := inv.screen.machineOp env tableAddr (.call op)
    obtain ⟨⟨F, tree⟩, -⟩ := inv.consistent
    refine ⟨consistent, ?tabled, inv.clock.step env (.call op), ?paged, screen⟩
    case tabled =>
      cases op with
      | execute fr exc command => exact inv.tabled.execute loadable tree fr exc command
      | halt fr status => exact inv.tabled.sysHalt loadable tree fr status
      | tick r fr => exact inv.tabled.sameAsks (tick_sameAsks env r fr (tree.currPid_ne _) (tree.currPid_ne _))
      | putc c => exact inv.tabled.sameAsks (.of_clock (putc_output c s).clock)
      | key scancode => exact inv.tabled.sameAsks (.of_clock (kbHandler_typed scancode s).clock)
    case paged =>
      cases op with
      | execute fr exc command => exact pagedKept.executeCall env fr exc command inv.paged
      | halt fr status => exact pagedKept.sysHalt env fr status inv.paged
      | tick r fr => exact pagedTick inv.paged env r fr
      | putc c => exact (putc_drew inv.paged c).paged inv.paged
      | key scancode => exact pagedKeys.kbHandler scancode inv.paged

/-- A call on the records of the running process. -/
theorem own (inv : SystemInv s) {s' : Kernel} (h : OwnRecords (getPcbByPid s.running) s s')
    (table : TableInv (s'.pcb s.running).fdt) (clock : ClockInv s'.clock) : SystemInv s' := by
  obtain ⟨valid, -, -⟩ := inv.consistent.running
  refine ⟨inv.consistent.of_view h.view, inv.tabled.own valid h table, clock, ?_, ScreenRun.printing.quiet inv.screen h.quiet⟩
  obtain ⟨ps, ts, f, reg, flags, rfl, -⟩ := h
  exact inv.paged.of_same rfl rfl rfl

end SystemInv

/-! ### The clock under descriptor calls -/

section Clock
variable {s : Kernel}

/-- An update of a block that keeps what it asks for. -/
theorem ClockInv.keepsRequest (inv : ClockInv s.clock) (a : Nat) {f : Pcb → Pcb}
    (same : ∀ pcb, (f pcb).progFreq = pcb.progFreq ∧ (f pcb).divisor = pcb.divisor) : ClockInv (s.setPcb a f).clock := by
  have blocks : ∀ b, ((s.setPcb a f).pcbs b).progFreq = (s.pcbs b).progFreq ∧
      ((s.setPcb a f).pcbs b).divisor = (s.pcbs b).divisor := by
    apply s.setPcb_forall (P := fun b pcb => pcb.progFreq = (s.pcbs b).progFreq ∧ pcb.divisor = (s.pcbs b).divisor)
    · exact same _
    · exact fun _ _ => ⟨rfl, rfl⟩
  exact inv.congr rfl rfl rfl blocks

theorem ClockInv.setFd (inv : ClockInv s.clock) (r : Regs) (fd : Fd) (f : FdtEntry → FdtEntry) :
    ClockInv (s.setFd r fd f).clock := by
  apply inv.keepsRequest
  exact fun _ => ⟨rfl, rfl⟩

theorem ClockInv.sysOpen (inv : ClockInv s.clock) (img : Image) (r : Regs) (filename : Bytes) :
    ClockInv (sysOpen img r filename s).2.clock := by
  cases found : img.readDentryByName filename with
  | none => rw [sysOpen_absent found]; exact inv
  | some file =>
  cases free : getNewFd (s.currPcb r) with
  | none => rw [sysOpen_full free]; exact inv
  | some fd =>
    have stored := (((inv.setFd r fd fun e => { e with enabled := true }).setFd r 0 fun _ => ⟨some .stdinFot, 0, 0, true,
      false⟩).setFd r 1 fun _ => ⟨some .stdoutFot, 0, 0, true, false⟩).setFd r fd
        fun _ => ⟨some (openFot filename file), file.inodeNum, 0, true, file.fileType = 2⟩
    simp only [BigBrainOS.sysOpen, found, free, openHandler]
    split
    · exact stored.rtcOpen
    · exact stored

theorem ClockInv.sysClose (inv : ClockInv s.clock) (r : Regs) (fd : Fd) : ClockInv (sysClose r fd s).2.clock := by
  have disabled := inv.setFd r fd fun e => { e with enabled := false }
  unfold BigBrainOS.sysClose
  dsimp only
  split
  · exact inv
  · split
    · exact disabled
    · unfold closeFile
      split
      · exact disabled.rtcClose
      · exact disabled

theorem ClockInv.readCall (inv : ClockInv s.clock) (img : Image) (r : Regs) (fd : Fd) (buf : Option Bytes) (nbytes : Int) :
    ClockInv (readCall img r fd buf nbytes s).clock := by
  unfold BigBrainOS.readCall
  split
  · unfold fileRead
    dsimp only
    split
    · exact inv.setFd r fd fun e => { e with filePosition := (e.filePosition + (2 ^ 32 - 1)) % 2 ^ 32 }
    · next bytes _ => exact inv.setFd r fd fun e => { e with filePosition := (e.filePosition + bytes.length) % 2 ^ 32 }
  · unfold dirRead
    dsimp only
    split
    · exact inv
    · split
      · exact inv
      · exact inv.setFd r fd fun e => { e with filePosition := (e.filePosition + 1) % 2 ^ 32 }
  · exact inv

theorem ClockInv.waitStmt (inv : ClockInv s.clock) (stmt : WaitStmt) : ClockInv (stmt.run s).clock := by
  cases stmt with
  | restoreCount => unfold WaitStmt.run; apply inv.keepsRequest; exact fun _ => ⟨rfl, rfl⟩
  | decrement => unfold WaitStmt.run; apply inv.keepsRequest; exact fun _ => ⟨rfl, rfl⟩
  | _ => exact inv

end Clock

namespace SystemInv
variable {env : Env} {tableAddr : Nat} {s : Kernel}

/-- A descriptor call keeps the table of its process in order. -/
theorem fdStep (inv : SystemInv s) (env : Env) (step : FdStep) (allowed : step.Allowed s.running s) :
    TableInv ((step.run env.img s).pcb s.running).fdt := by
  obtain ⟨valid, used, -⟩ := inv.consistent.running
  exact (inv.tabled _ used).step valid allowed

theorem write (inv : SystemInv s) {r : Regs} (fd : Fd) (buf : Option Bytes) (nbytes : Int) :
    SystemInv (sysWriteCall r fd buf nbytes s).2 := by
  obtain ⟨-, used, -⟩ := inv.consistent.running
  have printed : ∀ (is : List Nat) (b : Bytes) {s : Kernel}, ScreenRun s →
      ScreenRun (is.foldl (fun s i => if b i ≠ 0 then putc (b i) s else s) s) := by
    intro is b
    induction is with
    | nil => exact fun screen => screen
    | cons i is ih =>
      intro s screen
      refine ih ?_
      dsimp only
      split
      · exact ScreenRun.printing.putc screen _
      · exact screen
  unfold sysWriteCall
  split
  · exact inv
  · apply inv.own (rtcWrite_own _ nbytes s)
    · rw [Kernel.pcb, (rtcWrite_elsewhere _ nbytes s).2.2.1]
      exact inv.tabled _ used
    · exact inv.clock.rtcWrite _ nbytes
  · apply inv.drew (terminalWrite_drew inv.paged buf nbytes)
    unfold terminalWrite
    split
    · exact inv.screen
    · split
      · exact ScreenRun.printing.puts _ inv.screen
      · exact printed _ _ inv.screen
  · exact inv

theorem userStore (inv : SystemInv s) (lin : Nat) (b : UInt8) : SystemInv (s.userStore lin b) := by
  apply inv.stored
  unfold Kernel.userStore
  split
  · exact .refl s
  · exact ⟨_, rfl⟩

/-- **Step lemma.** Every step keeps the invariant. -/
theorem step (inv : SystemInv s) (loadable : ShellLoadable env) (tableAddr : Nat) {op : SystemOp} (allowed : op.Allowed s) :
    SystemInv (op.run env tableAddr s) := by
  obtain ⟨valid, used, onStack⟩ := inv.consistent.running
  have top : s.tss.esp0 = kernelStackTop s.running := inv.consistent.2.stack
  have stack : ∀ {r : Regs}, OnStack s.tss.esp0 r.esp → OnStack (kernelStackTop s.running) r.esp := fun h => top ▸ h
  cases op with
  | machine op => exact inv.machineOp loadable allowed
  | exception exc text => exact inv.exception loadable exc text
  | store lin b => exact inv.userStore lin.toNat b
  | write r fd buf nbytes => exact inv.write fd buf nbytes
  | open_ r filename =>
    apply inv.own (sysOpen_own (onStack r.esp allowed) env.img filename)
    · exact inv.fdStep env (.open_ r filename) (stack allowed)
    · exact inv.clock.sysOpen env.img r filename
  | close r fd =>
    apply inv.own (sysClose_own (onStack r.esp allowed) fd)
    · exact inv.fdStep env (.close r fd) (stack allowed)
    · exact inv.clock.sysClose r fd
  | read r fd buf nbytes =>
    apply inv.own (readCall_own (onStack r.esp allowed) env.img fd buf nbytes)
    · exact inv.fdStep env (.read r fd buf nbytes) (stack allowed)
    · exact inv.clock.readCall env.img r fd buf nbytes
  | wait stmt =>
    apply inv.own (waitStmt_own stmt s)
    · exact inv.fdStep env (.wait stmt) trivial
    · exact inv.clock.waitStmt stmt
  | clock =>
    apply inv.own (rtHandler_own _ s)
    · exact inv.tabled _ used
    · exact inv.clock

end SystemInv

/-! ## Boot -/

/-- While shells are started: the records are those of boot, and the blocks in use are fresh. -/
structure Starting (k : Nat) (s : Kernel) : Prop where
  booting : k < 3 → Booting s.view k
  ready : k = 3 → AfterBoot s
  fresh : FreshBlocks s
  clock : ClockInv s.clock
  paged : Paged s
  screen : ScreenRun s

namespace StartUp
variable {env : Env} {k : Nat} {s : Kernel}

theorem starting (loadable : ShellLoadable env) (run : StartUp env k s) : Starting k s := by
  induction run with
  | entry m =>
    have init := entry_init m
    exact ⟨fun _ => init.booting, fun h => (by cases h), fun p used => (by rw [init.free p] at used; cases used), clockInv_entry m, .entry m, .base ⟨m, rfl⟩⟩
  | @tick k s r fr _ early before =>
    have boot := before.booting early
    obtain ⟨s', tick, shells, placed, running⟩ := boot.tick loadable r fr
    refine ⟨fun more => ?_, fun last => ?_, ?_, before.clock.switchRunningProcess env r fr, SystemInv.pagedTick before.paged env r fr,
      before.screen.switchRunningProcess env r fr⟩
    · rw [tick]
      exact boot.next_booting shells placed running more
    · rw [tick]
      exact afterBoot_iff.2 ⟨last ▸ shells, placed⟩
    · rw [tick]
      exact before.fresh.tick boot tick
  | @key k s scancode _ before =>
    have typed := kbHandler_typed scancode s
    have same := SameAsks.of_clock typed.clock
    refine ⟨fun early => ?_, fun last => ?_, fun p used => ?_, typed.clock ▸ before.clock, SystemInv.pagedKeys.kbHandler scancode before.paged,
      before.screen.kbHandler scancode⟩
    · rw [typed.view]
      exact before.booting early
    · rw [afterBoot_iff, typed.view]
      exact afterBoot_iff.1 (before.ready last)
    · rw [same.used] at used
      rw [Kernel.pcb, same.fdt, same.progFreq]
      exact before.fresh p used
  | @clock k s _ before =>
    refine ⟨before.booting, fun last => ?_, before.fresh, before.clock, before.paged.of_same rfl rfl rfl, ?_⟩
    · have records := afterBoot_iff.1 (before.ready last)
      exact afterBoot_iff.2 records
    · exact ScreenRun.printing.quiet before.screen ⟨rfl, rfl, fun _ => rfl, fun _ => rfl, rfl, rfl, rfl, rfl⟩

end StartUp

theorem Booted.inv {env : Env} (loadable : ShellLoadable env) {s : Kernel} (booted : Booted env s) : SystemInv s := by
  have starting := StartUp.starting loadable booted
  have boot := starting.ready rfl
  refine ⟨boot.consistent, fun p used => ?_, starting.clock, starting.paged, starting.screen⟩
  rw [(starting.fresh p used).1]
  exact .initFdt

/-- Every state of every run. -/
theorem SystemInv.of_reach {env : Env} (loadable : ShellLoadable env) {tableAddr : Nat} {s : Kernel}
    (reach : (systemCalls env tableAddr).Reach (Booted env) s) : SystemInv s := by
  apply reach.invariant
  · exact fun _ booted => booted.inv loadable
  · exact fun _ _ inv allowed => inv.step loadable tableAddr allowed

theorem booted_booted : Booted shellEnv booted := by
  unfold booted
  have first : StartUp shellEnv 1 _ := .tick ⟨0, 0⟩ (.blank ⟨0, 0⟩) (.entry ⟨fun _ => 0, fun _ => .zero, 0x26, 0⟩) (by decide)
  have second := first.tick ⟨0, 0⟩ (.blank ⟨0, 0⟩) (by decide)
  exact second.tick ⟨0, 0⟩ (.blank ⟨0, 0⟩) (by decide)

end BigBrainOS
