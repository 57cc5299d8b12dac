import BigBrainOS.Process.Boot
import BigBrainOS.Process.Cursor

/-!
# Context switches

Paging, `tss.esp0`, the cursor and the saved stack registers live in different
places and are written by different calls. Along every run they agree with the
process that runs, and a switch resumes a terminal with the registers it was
preempted with. The run records these registers as it goes.
-/

namespace BigBrainOS
set_option autoImplicit false

/-- A kernel and the stack registers with which each terminal was last preempted. -/
structure Scheduled where
  kernel : Kernel
  preempted : Term → Regs

/-- Only the scheduler preempts. -/
def Scheduled.record (q : Scheduled) : Op → Term → Regs
  | .tick r _ => Function.update q.preempted q.kernel.currProcess r
  | _ => q.preempted

/-- The kernel with atomic calls, and the record of preemptions. -/
def scheduledCalls (env : Env) : TransitionSystem Scheduled Op where
  ok q op := op.Allowed q.kernel
  next q op := ⟨op.run env q.kernel, q.record op⟩

/-- The registers of every suspended terminal are in its control block. -/
def RegsSaved (v : ProcView) (preempted : Term → Regs) : Prop :=
  ∀ t, t ≠ v.currProcess → v.curr t ≠ -1 → (v.pcb (getPcbByPid (v.curr t))).regs = preempted t

/-- The state right after boot. -/
structure Scheduled.Start (q : Scheduled) : Prop where
  boot : AfterBoot q.kernel
  cursor : CursorSaved q.kernel
  regs : RegsSaved q.kernel.view q.preempted

section View
variable {v v' : ProcView} {F : Forest Term Int} {preempted : Term → Regs}

theorem Links.cur_ne (links : Links v F) {t u : Term} (different : t ≠ u) :
    getPcbByPid (F.cur t) ≠ getPcbByPid (F.cur u) :=
  getPcbByPid_ne (links.cur_valid u) fun same => different (F.cur_inj same)

/-- Every terminal has a process, and no two have the same. -/
structure Apart (v : ProcView) : Prop where
  started : ∀ t, v.curr t ≠ -1
  blocks : ∀ t u, t ≠ u → getPcbByPid (v.curr t) ≠ getPcbByPid (v.curr u)

theorem Links.apart (links : Links v F) : Apart v where
  started t := by
    rw [links.curr]
    have low := (links.cur_valid t).1
    omega
  blocks t u different := by
    rw [links.curr, links.curr]
    exact links.cur_ne different

/-- What the running process executes or halts does not touch the registers of
the others. -/
theorem RegsSaved.callStep (saved : RegsSaved v preempted) (links : Links v F) (step : CallStep v F v') :
    RegsSaved v' preempted := by
  cases step with
  | same => exact saved
  | @launch n r valid fresh _ =>
    intro t other started
    have curr : (v.launch n r).curr t = v.curr t := Function.update_of_ne other _ _
    rw [curr] at started ⊢
    rw [ProcView.launch_pcb_other v r]
    · exact saved t other started
    · rw [links.curr]
      exact getPcbByPid_ne valid fun same => fresh (same ▸ F.cur_live t)
  | halt child =>
    intro t other started
    have curr : ((v.release (getPcbByPid (F.cur v.currProcess)) (F.cur v.currProcess)).return_
        (getPcbByPid (F.cur v.currProcess))).curr t = v.curr t := Function.update_of_ne other _ _
    rw [curr] at started ⊢
    refine (congrArg PcbLinks.regs (Function.update_of_ne ?_ _ _)).trans (saved t other started)
    rw [links.curr]
    exact links.cur_ne other
  | @restart r root =>
    intro t other started
    have curr : ((v.release (getPcbByPid (F.cur v.currProcess)) (F.cur v.currProcess)).launch
        (F.cur v.currProcess) r).curr t = v.curr t := Function.update_of_ne other _ _
    rw [curr] at started ⊢
    rw [ProcView.launch_pcb_other]
    · exact saved t other started
    · rw [links.curr]
      exact links.cur_ne other

/-- A switch saves the registers of the terminal it leaves. -/
theorem RegsSaved.switch (saved : RegsSaved v preempted) (apart : Apart v) (r : Regs) :
    RegsSaved (v.switch r) (Function.update preempted v.currProcess r) := by
  intro t other started
  show (Function.update v.pcb (getPcbByPid (v.curr v.currProcess)) _ (getPcbByPid (v.curr t))).regs = _
  by_cases left : t = v.currProcess
  · rw [left, Function.update_self, Function.update_self]
  · rw [Function.update_of_ne left, Function.update_of_ne]
    · exact saved t left started
    · exact apart.blocks _ _ left

/-- The registers that a switch loads. -/
theorem RegsSaved.resumed (saved : RegsSaved v preempted) (apart : Apart v) (r : Regs) :
    ((v.switch r).pcb (getPcbByPid ((v.switch r).curr (v.switch r).currProcess))).regs =
      preempted (v.currProcess + 1) := by
  have next : v.currProcess + 1 ≠ v.currProcess := by
    generalize v.currProcess = t
    revert t
    decide
  show (Function.update v.pcb (getPcbByPid (v.curr v.currProcess)) _
    (getPcbByPid (v.curr (v.currProcess + 1)))).regs = _
  rw [Function.update_of_ne]
  · exact saved _ next (apart.started _)
  · exact apart.blocks _ _ next

end View

/-- The machine is set up for the process that runs. -/
structure InContext (s : Kernel) : Prop where
  page : s.MapsProgram (s.currPid s.currProcess)
  stack : s.tss.esp0 = kernelStackTop (s.currPid s.currProcess)
  cursor : (s.screenX, s.screenY) =
    ((s.terminals s.currProcess).screenXSave, (s.terminals s.currProcess).screenYSave)

/-- What every run keeps. -/
structure Scheduled.Inv (q : Scheduled) : Prop where
  consistent : Consistent q.kernel
  cursor : CursorSaved q.kernel
  regs : RegsSaved q.kernel.view q.preempted

section Runs
variable {env : Env} {q : Scheduled}

/-- Every step keeps the cursor saved. -/
theorem CursorSaved.step {s : Kernel} {op : Op} (saved : CursorSaved s) (consistent : Consistent s)
    (allowed : op.Allowed s) : CursorSaved (op.run env s) := by
  cases op with
  | execute fr exc command => exact cursorSaved_printing.kept.executeCall env fr exc command saved
  | halt fr status => exact cursorSaved_printing.kept.sysHalt env fr status saved
  | tick r fr =>
    obtain ⟨⟨F, tree⟩, -⟩ := consistent
    have started : ∀ t, s.view.curr t ≠ -1 := tree.currPid_ne
    have masked := Kernel.maskKeyboard_view s (s.currProcess + 1)
    simp only [Op.run, switchRunningProcess, if_neg (show s.currPid (s.currProcess + 1) ≠ -1 from started _)]
    apply switchTo_saved
    show (maskKeyboard (s.currProcess + 1) s).view.curr (maskKeyboard (s.currProcess + 1) s).view.currProcess ≠ -1
    rw [masked]
    exact started _
  | putc c => exact putc_saved saved c
  | key scancode => exact kbHandler_saved saved allowed scancode

/-- **Step lemma.** -/
theorem Scheduled.Inv.step (loadable : ShellLoadable env) {op : Op} (inv : q.Inv)
    (ok : (scheduledCalls env).ok q op) : ((scheduledCalls env).next q op).Inv := by
  obtain ⟨consistent, cursor, regs⟩ := inv
  refine ⟨consistent.step loadable ok, cursor.step consistent ok, ?_⟩
  obtain ⟨⟨F, tree⟩, placed⟩ := consistent
  rcases tree.op_step loadable placed ok with ⟨r, fr, rfl, view⟩ | ⟨noTick, step⟩
  · show RegsSaved ((Op.tick r fr).run env q.kernel).view (Function.update q.preempted q.kernel.currProcess r)
    rw [view]
    exact regs.switch tree.apart r
  · have recorded : q.record op = q.preempted := by
      cases op with
      | tick r fr => exact absurd rfl (noTick r fr)
      | _ => rfl
    show RegsSaved (op.run env q.kernel).view (q.record op)
    rw [recorded]
    exact regs.callStep tree.toLinks step

/-- **Context switches agree.** In every state reached after boot the program
page, `tss.esp0` and the cursor are those of the running process, and a clock
tick resumes the next terminal with the registers it was last preempted with. -/
theorem inContext_of_reach (loadable : ShellLoadable env) (reach : (scheduledCalls env).Reach Scheduled.Start q) :
    InContext q.kernel ∧ ∀ r fr, ∃ s', switchRunningProcess env r fr q.kernel =
      (.resumed (q.preempted (q.kernel.currProcess + 1)), s') ∧ s'.currProcess = q.kernel.currProcess + 1 := by
  have inv : q.Inv := reach.invariant (fun _ start => ⟨start.boot.consistent, start.cursor, start.regs⟩)
    fun _ _ inv ok => inv.step loadable ok
  obtain ⟨⟨⟨F, tree⟩, placed⟩, cursor, regs⟩ := inv
  refine ⟨⟨placed.page, placed.stack, Prod.ext cursor.x cursor.y⟩, fun r fr => ?_⟩
  have started : ∀ t, q.kernel.view.curr t ≠ -1 := fun t => by
    rw [tree.curr]
    have low := (tree.cur_valid t).1
    omega
  obtain ⟨s', switched, view⟩ := switchRunningProcess_switch env r fr (started q.kernel.currProcess) (started _)
  refine ⟨s', ?_, congrArg ProcView.currProcess view⟩
  have loaded : (s'.pcb (s'.currPid s'.currProcess)).regs = q.preempted (q.kernel.currProcess + 1) := by
    show (s'.view.pcb (getPcbByPid (s'.view.curr s'.view.currProcess))).regs = _
    rw [view]
    exact regs.resumed tree.apart r
  rw [switched, loaded]

end Runs

/-! ## Boot sets up the start -/

section Boot
variable {env : Env} {s s' : Kernel} {k : Nat}

/-- A base shell starts with the cursor in the corner of its terminal. -/
theorem prepareTerminal_saved (vidId : Int) (r : Regs) (s : Kernel) (next : Term) :
    CursorSaved (prepareTerminal next vidId r (maskKeyboard next s)) := by
  have shown : next = (maskKeyboard next s).currTer → (maskKeyboard next s).onScreen = true := by
    unfold maskKeyboard
    dsimp only
    split
    · intro _; rfl
    · next other => intro same; exact absurd same other
  unfold prepareTerminal
  apply resetCursor_saved
  dsimp only
  split
  · exact shown
  · exact shown

theorem Booting.tick_saved (boot : Booting s.view k) {r : Regs} {fr : ExecFrame} {n : Int}
    (launched : switchRunningProcess env r fr s = (.launched n, s')) : CursorSaved s' := by
  simp only [switchRunningProcess, if_pos boot.next_empty] at launched
  have prepared := prepareTerminal_saved
    (if s.currProcess + 1 = s.currTer then mainVid else ((s.currProcess + 1).val : Int)) r s (s.currProcess + 1)
  have executed := cursorSaved_printing.kept.sysExecute env fr (shellCommand env) prepared
  split at launched
  · next eq =>
    rw [eq] at executed
    cases launched
    exact executed
  · cases launched
  · next failed =>
    simp only [switchTo] at launched
    split at launched <;> cases launched

/-- A tick of the boot saves the registers of the shell it leaves. -/
theorem Booting.tick_regs (boot : Booting s.view k) (loadable : ShellLoadable env) {r : Regs} {fr : ExecFrame} {n : Int}
    (launched : switchRunningProcess env r fr s = (.launched n, s')) {preempted : Term → Regs}
    (saved : RegsSaved s.view preempted) : RegsSaved s'.view (Function.update preempted s.currProcess r) := by
  obtain ⟨s₁, launched₁, view⟩ :=
    switchRunningProcess_boot loadable r fr boot.next_empty (boot.shells.getNewPid boot.early)
  obtain rfl : s₁ = s' := congrArg Prod.snd (launched₁.symm.trans launched)
  intro t other started
  have curr : s₁.view.curr t = s.view.curr t := by
    have moved : t ≠ (s.view.bootSave r).currProcess := by rw [view] at other; exact other
    rw [view]
    refine (Function.update_of_ne moved _ _).trans ?_
    simp only [ProcView.bootSave]
    split <;> rfl
  rw [curr] at started ⊢
  have below : t.val < k := by
    by_contra above
    exact started ((boot.shells.curr t).trans (if_neg above))
  have shell : s.view.curr t = t.val := (boot.shells.curr t).trans (if_pos below)
  have early := boot.early
  have later : s.view.currProcess + 1 ≠ 0 := by
    intro zero
    have next := boot.next
    rw [zero] at next
    simp at next
    omega
  rw [shell, view, ProcView.launch_pcb_other _ _ (getPcbByPid_ne ⟨by omega, by omega⟩ (by omega))]
  simp only [ProcView.bootSave, if_pos later, ProcView.save]
  by_cases left : t = s.currProcess
  · show (Function.update s.view.pcb (getPcbByPid s.currProcess.val) _ (getPcbByPid t.val)).regs = _
    rw [left, Function.update_self, Function.update_self]
  · have different : (t.val : Int) ≠ s.view.currProcess.val := fun same => left (Fin.ext (by exact_mod_cast same))
    have small := s.view.currProcess.isLt
    simp only [numTerminals] at small
    rw [Function.update_of_ne left]
    refine (congrArg PcbLinks.regs (Function.update_of_ne ?_ _ _)).trans ?_
    · exact getPcbByPid_ne ⟨by omega, by omega⟩ different
    · rw [← shell]
      exact saved t left started

/-- One tick of the boot, for all that the start asks for. -/
theorem Booting.tick_scheduled {q : Scheduled} (boot : Booting q.kernel.view k) (loadable : ShellLoadable env)
    (saved : RegsSaved q.kernel.view q.preempted) (r : Regs) (fr : ExecFrame) :
    let q' := (scheduledCalls env).next q (.tick r fr)
    CursorSaved q'.kernel ∧ RegsSaved q'.kernel.view q'.preempted ∧
      (k + 1 < 3 → Booting q'.kernel.view (k + 1)) ∧ (k + 1 = 3 → AfterBoot q'.kernel) := by
  obtain ⟨s', launched, shells, placed, running⟩ := boot.tick loadable r fr
  have kernel : ((scheduledCalls env).next q (.tick r fr)).kernel = s' := by
    simp only [scheduledCalls, Op.run, launched]
  intro q'
  rw [kernel]
  exact ⟨boot.tick_saved launched, boot.tick_regs loadable launched saved,
    boot.next_booting shells placed running, fun last => afterBoot_iff.2 ⟨last ▸ shells, placed⟩⟩

/-- Three ticks lead from the initial state to a start of these runs. -/
theorem boot_start (loadable : ShellLoadable env) {q : Scheduled} (init : Init q.kernel) (r₁ r₂ r₃ : Regs)
    (fr₁ fr₂ fr₃ : ExecFrame) :
    ((scheduledCalls env).exec q [.tick r₁ fr₁, .tick r₂ fr₂, .tick r₃ fr₃]).Start := by
  have none : RegsSaved q.kernel.view q.preempted := fun t _ started => absurd (init.curr t) started
  obtain ⟨-, saved₁, boot₁, -⟩ := init.booting.tick_scheduled loadable none r₁ fr₁
  obtain ⟨-, saved₂, boot₂, -⟩ := (boot₁ (by decide)).tick_scheduled loadable saved₁ r₂ fr₂
  obtain ⟨cursor, saved₃, -, done⟩ := (boot₂ (by decide)).tick_scheduled loadable saved₂ r₃ fr₃
  exact ⟨done rfl, cursor, saved₃⟩

end Boot

/-- A machine with blank memory after boot, with the record of its preemptions. -/
@[irreducible] def bootedScheduled : Scheduled :=
  (scheduledCalls shellEnv).exec ⟨entry ⟨fun _ => 0, fun _ => .zero, 0x26, 0⟩, fun _ => ⟨0, 0⟩⟩
    [.tick ⟨1, 1⟩ (.blank ⟨0, 0⟩), .tick ⟨2, 2⟩ (.blank ⟨0, 0⟩), .tick ⟨3, 3⟩ (.blank ⟨0, 0⟩)]

theorem bootedScheduled_start : bootedScheduled.Start := by
  unfold bootedScheduled
  exact boot_start shellEnv_loadable (entry_init _) _ _ _ _ _ _

open TransitionSystem in
/-- The context after one more tick and an output. -/
theorem inContext_after_tick :
    let q := (scheduledCalls shellEnv).exec bootedScheduled [.tick ⟨4, 4⟩ (.blank ⟨0, 0⟩), .putc 0x41]
    InContext q.kernel ∧ ∀ r fr, ∃ s', switchRunningProcess shellEnv r fr q.kernel =
      (.resumed (q.preempted (q.kernel.currProcess + 1)), s') ∧ s'.currProcess = q.kernel.currProcess + 1 :=
  inContext_of_reach shellEnv_loadable ((Reach.base bootedScheduled_start).exec ⟨trivial, trivial, trivial⟩)

end BigBrainOS
