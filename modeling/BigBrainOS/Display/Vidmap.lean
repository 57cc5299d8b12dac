import BigBrainOS.Display.Refinement
import BigBrainOS.Kernel.UserCalls

/-!
# The screen in a program's address space

`sys_vidmap` maps a page of the program to the screen. The scheduler and the
terminal switch move this mapping together with the kernel's own video page, but
`get_vidmem` writes it anew for the displayed screen, whoever asks. The two pages
stay together in every run in which only programs of the displayed terminal ask.
-/

namespace BigBrainOS
set_option autoImplicit false

/-! ## The system -/

/-- A step of the display, or a call of `sys_vidmap` by the running process. -/
inductive VideoOp where
  | display (op : DisplayOp)
  | vidmap (screenStart : BitVec 32)

/-- A kernel, and whether `sys_vidmap` has succeeded. -/
structure VideoRun where
  kernel : Kernel
  mapped : Bool

def VideoOp.run (env : Env) (tableAddr : Nat) (op : VideoOp) (v : VideoRun) : VideoRun :=
  match op with
  | .display op => { v with kernel := op.run env v.kernel }
  | .vidmap screenStart =>
    let (value, s') := sysVidmap tableAddr screenStart v.kernel
    ⟨s', v.mapped || decide (value = some 0)⟩

/-- Terminal switches are handled while the displayed terminal runs; any running
process may ask for the screen. -/
def VideoOp.Allowed (op : VideoOp) (v : VideoRun) : Prop :=
  match op with
  | .display op => op.Allowed v.kernel
  | .vidmap _ => v.kernel.currPid v.kernel.currProcess ≠ -1

/-- The display with `sys_vidmap`; `tableAddr` is the address of `vidmem_page_table`. -/
def videoCalls (env : Env) (tableAddr : Nat) : TransitionSystem VideoRun VideoOp where
  ok v op := op.Allowed v
  next v op := op.run env tableAddr v

/-- After boot, and before any call of `sys_vidmap`. -/
def VideoRun.Start (env : Env) (v : VideoRun) : Prop :=
  (displayCalls env).Reach AtEntry v.kernel ∧ (∀ t, v.kernel.currPid t ≠ -1) ∧ v.mapped = false

/-- The program's page and the kernel's video page map the same frame, that of
the running terminal. -/
structure VideoTogether (s : Kernel) : Prop where
  present : (s.vidmemPageTable 0).present = true
  same : (s.vidmemPageTable 0).address = (s.pageTable videoPage).address
  frame : (s.pageTable videoPage).address =
    if s.currProcess = s.currTer then videoPage else videoPage + 1 + s.currProcess.val

/-- A pointer that `sys_vidmap` takes. -/
def InProgramPage (screenStart : BitVec 32) : Prop :=
  screenStart ≠ 0 ∧ mb128 ≤ screenStart.toInt ∧ screenStart.toInt ≤ mb132

/-- `sys_vidmap` with a pointer that it takes is called by a process of the displayed terminal. -/
def AsksDisplayed (v : VideoRun) (op : VideoOp) : Prop :=
  match op with
  | .vidmap screenStart => InProgramPage screenStart → v.kernel.currProcess = v.kernel.currTer
  | .display _ => True

/-! ## What the steps do to the two pages -/

/-- The program's page follows the kernel's. -/
def Follows (s : Kernel) : Prop :=
  (s.vidmemPageTable 0).present = true ∧ (s.vidmemPageTable 0).address = s.videoFrame

theorem follows_changeVidmem {s : Kernel} (present : (s.vidmemPageTable 0).present = true) (n : Int) :
    Follows (changeVidmem n s) := by
  refine ⟨?_, ?_⟩
  · simp only [changeVidmem, Function.update_self]; exact present
  · simp only [Kernel.videoFrame, changeVidmem, Function.update_self]

/-- Screen output leaves both pages alone. -/
theorem Follows.of_output {s s' : Kernel} (follows : Follows s) (output : Output s s') : Follows s' := by
  obtain ⟨ts, x, y, c, m, rfl, -⟩ := output
  exact follows

theorem Follows.display {env : Env} {s : Kernel} {op : DisplayOp} (follows : Follows s) (started : ∀ t, s.currPid t ≠ -1)
    (allowed : op.Allowed s) : Follows (op.run env s) := by
  cases op with
  | tick r fr exc =>
    obtain ⟨on, mask, called⟩ := tickCall_started env r fr exc (started (s.currProcess + 1))
    have running : ¬ ({ s with onScreen := on, masterMask := mask } : Kernel).currPid s.currProcess = -1 :=
      started s.currProcess
    rw [DisplayOp.run, called, switchTo, if_neg running]
    exact follows_changeVidmem (s := s) follows.1
      (if s.currProcess + 1 = s.currTer then mainVid else ((s.currProcess + 1).val : Int))
  | putc c => exact follows.of_output (putc_output c s)
  | alt down => rw [DisplayOp.run, kbHandler_alt]; exact follows
  | fn n =>
    rw [DisplayOp.run, kbHandler_fn n allowed.1, switchTerminal]
    split
    · exact follows_changeVidmem (s := s) follows.1 s.currTer.val
    · exact follows

/-- A byte stored in memory. -/
theorem storeBytes_stored {s : Kernel} {lin w : Nat} : ∀ {n : Nat} {s' : Kernel}, s.storeBytes lin w n = some s' →
    Stored s s' := by
  intro n
  induction n with
  | zero =>
    intro s' h
    obtain rfl := Option.some.inj h
    exact .refl s
  | succ n ih =>
    intro s' h
    obtain ⟨s₁, first, last⟩ := Option.bind_eq_some_iff.1 h
    exact (ih first).trans (writeByte_stored last)

theorem sysVidmap_refused {screenStart : BitVec 32} (refused : ¬ InProgramPage screenStart) (tableAddr : Nat) (s : Kernel) :
    sysVidmap tableAddr screenStart s = (some error, s) := by
  unfold sysVidmap
  split
  · rfl
  · next nonzero =>
    rw [if_pos]
    by_contra inside
    rw [not_or] at inside
    exact refused ⟨nonzero, by omega, by omega⟩

/-- With a pointer that it takes, the call maps the screen before it stores. -/
theorem sysVidmap_stored {screenStart : BitVec 32} (taken : InProgramPage screenStart) (tableAddr : Nat) (s : Kernel) :
    Stored (getVidmem tableAddr s) (sysVidmap tableAddr screenStart s).2 := by
  obtain ⟨nonzero, low, high⟩ := taken
  rw [sysVidmap, if_neg nonzero, if_neg (by omega)]
  dsimp only
  split
  · exact .refl _
  · next stored => exact storeBytes_stored stored

/-- After `get_vidmem` the program's page maps the displayed screen. -/
theorem getVidmem_entry (tableAddr : Nat) (s : Kernel) :
    ((getVidmem tableAddr s).vidmemPageTable 0).present = true ∧
      ((getVidmem tableAddr s).vidmemPageTable 0).address = videoPage := by
  simp [getVidmem]

theorem Ready.getVidmem {s : Kernel} (ready : Ready s) (tableAddr : Nat) : Ready (getVidmem tableAddr s) :=
  ⟨ready.mapped, ready.buffers, ready.x, ready.y, ready.inRange⟩

theorem Ready.stored {s s' : Kernel} (ready : Ready s) (stored : Stored s s') : Ready s' := by
  obtain ⟨m, rfl⟩ := stored
  exact ⟨ready.mapped, ready.buffers, ready.x, ready.y, fun t => (ready.inRange t).of_cursor rfl rfl⟩

/-! ## All runs -/

/-- Every terminal has a process, the display is ready, and once `sys_vidmap` has
succeeded the program's page follows. -/
structure VideoInv (v : VideoRun) : Prop where
  ready : Ready v.kernel
  started : ∀ t, v.kernel.currPid t ≠ -1
  follows : v.mapped = true → Follows v.kernel

namespace VideoInv
variable {env : Env} {tableAddr : Nat} {v : VideoRun}

theorem together (inv : VideoInv v) (mapped : v.mapped = true) : VideoTogether v.kernel := by
  obtain ⟨present, same⟩ := inv.follows mapped
  refine ⟨present, same, ?_⟩
  have frame := inv.ready.mapped
  rw [Kernel.videoFrame, Kernel.frameOf] at frame
  rw [frame]
  congr 1
  omega

/-- A call from the displayed terminal brings the program's page to the screen
that the kernel's page maps already. -/
theorem vidmap (inv : VideoInv v) (screenStart : BitVec 32) (asks : AsksDisplayed v (.vidmap screenStart)) :
    VideoInv ((VideoOp.vidmap screenStart).run env tableAddr v) := by
  simp only [VideoOp.run]
  by_cases taken : InProgramPage screenStart
  · have displayed : v.kernel.currProcess = v.kernel.currTer := asks taken
    obtain ⟨m, stored⟩ := sysVidmap_stored taken tableAddr v.kernel
    obtain ⟨present, address⟩ := getVidmem_entry tableAddr v.kernel
    have ready : Ready (sysVidmap tableAddr screenStart v.kernel).2 := (inv.ready.getVidmem tableAddr).stored ⟨m, stored⟩
    refine ⟨ready, ?_, fun _ => ?_⟩
    · dsimp only
      rw [stored]
      exact inv.started
    · dsimp only
      rw [stored]
      refine ⟨present, address.trans ?_⟩
      have frame := inv.ready.mapped
      rw [Kernel.frameOf, if_pos displayed] at frame
      exact frame.symm
  · rw [sysVidmap_refused taken]
    refine ⟨inv.ready, inv.started, fun mapped => inv.follows ?_⟩
    simpa [error] using mapped

/-- **Step lemma.** Every step keeps the two pages together, if it is no call from
a terminal in the background. -/
theorem step (inv : VideoInv v) {op : VideoOp} (allowed : op.Allowed v) (asks : AsksDisplayed v op) :
    VideoInv (op.run env tableAddr v) := by
  cases op with
  | display op =>
    have showing : Showing v.kernel v.kernel.displays := ⟨inv.ready.holds, inv.started⟩
    exact ⟨inv.ready.step allowed, (showing.step env op allowed).2,
      fun mapped => (inv.follows mapped).display inv.started allowed⟩
  | vidmap screenStart => exact inv.vidmap screenStart asks

end VideoInv

/-- **The program's screen follows its terminal** in every run in which
`sys_vidmap` is only called by processes of the displayed terminal. -/
theorem videoTogether_of_reach {env : Env} {tableAddr : Nat} {v : VideoRun}
    (reach : ((videoCalls env tableAddr).restrict AsksDisplayed).Reach (VideoRun.Start env) v)
    (mapped : v.mapped = true) : VideoTogether v.kernel := by
  have inv : VideoInv v := by
    refine reach.invariant ?_ ?_
    · rintro v ⟨run, started, fresh⟩
      exact ⟨ready_of_reach run started, started, fun mapped => by rw [fresh] at mapped; cases mapped⟩
    · intro v op inv ok
      exact inv.step ok.1 ok.2
  exact inv.together mapped

/-! ### A call from the displayed terminal and one from the background -/

theorem storeBytes_ok {s : Kernel} {pid : Int} (maps : s.MapsProgram pid) {lin w : Nat} (low : 0x8000000 ≤ lin) :
    ∀ n, lin + n ≤ 0x8400000 → ∃ s', s.storeBytes lin w n = some s' := by
  intro n
  induction n with
  | zero => intro _; exact ⟨s, rfl⟩
  | succ n ih =>
    intro room
    obtain ⟨s₁, first⟩ := ih (by omega)
    have address := translate_program ((storeBytes_stored first).mapsProgram maps) (show 0x8000000 ≤ lin + n by omega)
      (by omega)
    rw [Kernel.storeBytes, first]
    simp only [Option.bind_some, Kernel.writeByte, address]
    exact ⟨_, rfl⟩

/-- A pointer to the program page is stored through. -/
theorem sysVidmap_ok {s : Kernel} {pid : Int} (maps : s.MapsProgram pid) (tableAddr : Nat) :
    (sysVidmap tableAddr 0x8000000 s).1 = some 0 := by
  have maps' : (getVidmem tableAddr s).MapsProgram pid := maps
  have stores : ∃ s', (getVidmem tableAddr s).storeBytes (0x8000000 : BitVec 32).toNat mb132.toNat 4 = some s' :=
    storeBytes_ok maps' (by decide) 4 (by decide)
  obtain ⟨s', stored⟩ := stores
  rw [sysVidmap, if_neg (by decide), if_neg (by decide)]
  simp only [stored]

theorem inProgramPage_start : InProgramPage 0x8000000 := ⟨by decide, by decide, by decide⟩

/-- The machine after boot as a start of the runs. -/
theorem booted_video : VideoRun.Start shellEnv ⟨booted, false⟩ := by
  refine ⟨booted_reach.1, fun t => ?_, rfl⟩
  rw [booted_afterBoot.curr t]
  omega

/-- The displayed terminal gets its turn, and its process asks for the screen. -/
theorem videoTogether_displayed :
    ∃ v, ((videoCalls shellEnv 0x406000).restrict AsksDisplayed).Reach (VideoRun.Start shellEnv) v ∧
      v.mapped = true ∧ VideoTogether v.kernel := by
  obtain ⟨-, running, shown⟩ := booted_reach
  have started := booted_video.2.1
  obtain ⟨s, switched, view⟩ := switchRunningProcess_switch shellEnv ⟨0, 0⟩ (.blank ⟨0, 0⟩) (started _) (started _)
  have called : tickCall shellEnv ⟨0, 0⟩ (.blank ⟨0, 0⟩) (.blank ⟨0, 0⟩) booted = s := by simp only [tickCall, switched]
  have displayed : s.currProcess = s.currTer := by
    have first : s.currProcess = booted.currProcess + 1 := congrArg ProcView.currProcess view
    rw [first, running, ← called, tickCall_shown, shown]
    decide
  have maps : s.MapsProgram (s.view.curr s.view.currProcess) := by
    have placed : s.view.Placed := by rw [view]; exact ProcView.switch_placed _ _
    exact placed.page
  have tick : ((videoCalls shellEnv 0x406000).restrict AsksDisplayed).Reach (VideoRun.Start shellEnv) ⟨s, false⟩ :=
    TransitionSystem.Reach.step_to (.base booted_video) (.display (.tick ⟨0, 0⟩ (.blank ⟨0, 0⟩) (.blank ⟨0, 0⟩)))
      ⟨trivial, trivial⟩ (congrArg (fun k => VideoRun.mk k false) called)
  have asked := tick.step (VideoOp.vidmap 0x8000000)
    ⟨fun none => absurd ((congrArg (fun v : ProcView => v.curr v.currProcess) view).symm.trans none) (started _),
      fun _ => displayed⟩
  have mapped : ((videoCalls shellEnv 0x406000).next ⟨s, false⟩ (.vidmap 0x8000000)).mapped = true := by
    show (false || decide ((sysVidmap 0x406000 0x8000000 s).1 = some 0)) = true
    rw [sysVidmap_ok maps]
    rfl
  exact ⟨_, asked, mapped, videoTogether_of_reach asked mapped⟩

/-- After boot the third shell runs in the background. It asks for the screen, and
draws on the display of the first. -/
theorem video_apart :
    ∃ v, (videoCalls shellEnv 0x406000).Reach (VideoRun.Start shellEnv) v ∧ v.mapped = true ∧
      (v.kernel.vidmemPageTable 0).address = 0xB8 ∧ (v.kernel.pageTable 0xB8).address = 0xBB ∧
      ¬ VideoTogether v.kernel := by
  obtain ⟨-, running, shown⟩ := booted_reach
  have start : (videoCalls shellEnv 0x406000).Reach (VideoRun.Start shellEnv) ⟨booted, false⟩ := .base booted_video
  have asked := start.step (VideoOp.vidmap 0x8000000) (booted_video.2.1 _)
  have maps : booted.MapsProgram (booted.view.curr booted.view.currProcess) := (afterBoot_iff.1 booted_afterBoot).2.page
  have mapped : ((videoCalls shellEnv 0x406000).next ⟨booted, false⟩ (.vidmap 0x8000000)).mapped = true := by
    show (false || decide ((sysVidmap 0x406000 0x8000000 booted).1 = some 0)) = true
    rw [sysVidmap_ok maps]
    rfl
  obtain ⟨m, stored⟩ := sysVidmap_stored inProgramPage_start 0x406000 booted
  have kernel : ((videoCalls shellEnv 0x406000).next ⟨booted, false⟩ (.vidmap 0x8000000)).kernel =
      { getVidmem 0x406000 booted with phys := m } := stored
  have user : (((videoCalls shellEnv 0x406000).next ⟨booted, false⟩ (.vidmap 0x8000000)).kernel.vidmemPageTable 0).address
      = 0xB8 := by rw [kernel]; exact (getVidmem_entry 0x406000 booted).2
  have own : (((videoCalls shellEnv 0x406000).next ⟨booted, false⟩ (.vidmap 0x8000000)).kernel.pageTable 0xB8).address
      = 0xBB := by
    rw [kernel]
    have frame := (ready_of_reach booted_video.1 booted_video.2.1).mapped
    rw [Kernel.videoFrame, Kernel.frameOf, running, shown] at frame
    exact frame
  refine ⟨_, asked, mapped, user, own, fun together => ?_⟩
  have same := together.same
  rw [user, own] at same
  exact absurd same (by decide)

end BigBrainOS
