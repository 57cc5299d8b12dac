import BigBrainOS.Display.Frames
import BigBrainOS.Process.Boot

/-!
# The display refines three screens

The system whose steps are clock ticks, output of the running process and Alt
with a function key, from the machine's start on. Once boot is over, every run of
it is a run of the three independent screens.
-/

namespace BigBrainOS
set_option autoImplicit false

/-- The effect of a step on the kernel. -/
def DisplayOp.run (env : Env) (op : DisplayOp) (s : Kernel) : Kernel :=
  match op with
  | .tick r fr exc => tickCall env r fr exc s
  | .putc c => BigBrainOS.putc c s
  | .alt down => kbHandler (if down then 0x38 else 0xB8) s
  | .fn n => kbHandler (fnKey n) s

/-- Output needs a process that runs; a terminal switch needs the Alt key, and is
handled only while the displayed terminal runs. -/
def DisplayOp.Allowed (op : DisplayOp) (s : Kernel) : Prop :=
  match op with
  | .putc _ => s.currPid s.currProcess ≠ -1
  | .fn _ => s.altPressed = true ∧ s.currProcess = s.currTer
  | _ => True

/-- The display system. -/
def displayCalls (env : Env) : TransitionSystem Kernel DisplayOp where
  ok s op := op.Allowed s
  next s op := op.run env s

/-! ## Boot -/

/-- No process has been started yet. -/
structure Idle (s : Kernel) : Prop where
  empty : ∀ t, s.currPid t = -1
  apart : s.currProcess ≠ s.currTer
  buffers : ∀ t : Term, (s.pageTable (videoPage + (t.val + 1))).address = videoPage + (t.val + 1)
  inRange : ∀ t, (s.displays.screen t).InRange

theorem entry_idle (m : Machine) : Idle (entry m) where
  empty _ := rfl
  apart := (by decide : (2 : Term) ≠ 0)
  buffers _ := rfl
  inRange _ := .corner rfl rfl

section Steps
variable {env : Env} {s : Kernel} {d : Displays} {op : DisplayOp}

/-- Every step keeps the display ready, boot included. -/
theorem Ready.step (ready : Ready s) (allowed : op.Allowed s) : Ready (op.run env s) := by
  cases op with
  | tick r fr exc => exact ready.tick env r fr exc
  | putc c => exact ready_printing.putc ready c
  | alt down =>
    rw [DisplayOp.run, kbHandler_alt]
    exact ⟨ready.mapped, ready.buffers, ready.x, ready.y, ready.inRange⟩
  | fn n =>
    rw [DisplayOp.run, kbHandler_fn n allowed.1]
    exact (ready.holds.switchTerminal allowed.2 n).ready

/-- The first tick makes the display ready. -/
theorem Idle.step (idle : Idle s) (allowed : op.Allowed s) : Idle (op.run env s) ∨ Ready (op.run env s) := by
  cases op with
  | tick r fr exc => exact Or.inr (bootTick_ready env r fr exc idle.buffers idle.inRange (idle.empty _))
  | putc c => exact absurd (idle.empty s.currProcess) allowed
  | alt down =>
    rw [DisplayOp.run, kbHandler_alt]
    exact Or.inl ⟨idle.empty, idle.apart, idle.buffers, idle.inRange⟩
  | fn n => exact absurd allowed.2 idle.apart

/-- When every terminal has a process, the display is ready. -/
theorem ready_of_reach (run : (displayCalls env).Reach AtEntry s) (started : ∀ t, s.currPid t ≠ -1) : Ready s := by
  have all : Idle s ∨ Ready s := by
    refine run.invariant (P := fun s => Idle s ∨ Ready s) ?_ ?_
    · rintro s ⟨m, rfl⟩
      exact Or.inl (entry_idle m)
    · intro s op before allowed
      rcases before with idle | ready
      · exact idle.step allowed
      · exact Or.inr (ready.step allowed)
  rcases all with idle | ready
  · exact absurd (idle.empty 0) (started 0)
  · exact ready

/-! ## After boot -/

/-- The kernel holds the three screens and every terminal has a process. -/
def Showing (s : Kernel) (d : Displays) : Prop := Holds s d ∧ ∀ t, s.currPid t ≠ -1

theorem kbHandler_currPid (scancode : UInt8) (s : Kernel) (t : Term) : (kbHandler scancode s).currPid t = s.currPid t :=
  congrArg (fun v : ProcView => v.curr t) (kbHandler_typed scancode s).view

/-- **Step lemma.** Every step of the kernel is a step of the three screens. -/
theorem Showing.step (showing : Showing s d) (env : Env) (op : DisplayOp) (allowed : op.Allowed s) :
    Showing (op.run env s) (d.step op) := by
  obtain ⟨holds, started⟩ := showing
  cases op with
  | tick r fr exc =>
    refine ⟨holds.tick env r fr exc started, fun t => ?_⟩
    obtain ⟨s', switched, view⟩ := switchRunningProcess_switch env r fr (started s.currProcess) (started _)
    have called : tickCall env r fr exc s = s' := by simp only [tickCall, switched]
    have curr : s'.currPid t = s.currPid t := congrArg (fun v : ProcView => v.curr t) view
    rw [DisplayOp.run, called, curr]
    exact started t
  | putc c =>
    refine ⟨holds.putc c, fun t => ?_⟩
    have curr : (putc c s).currPid t = s.currPid t := congrArg (fun v : ProcView => v.curr t) (putc_view c s)
    rw [DisplayOp.run, curr]
    exact started t
  | alt down =>
    refine ⟨?_, fun t => by rw [DisplayOp.run, kbHandler_currPid]; exact started t⟩
    rw [DisplayOp.run, kbHandler_alt]
    obtain ⟨ready, running, shown, same⟩ := holds
    exact ⟨⟨ready.mapped, ready.buffers, ready.x, ready.y, ready.inRange⟩, running, shown, same⟩
  | fn n =>
    refine ⟨?_, fun t => by rw [DisplayOp.run, kbHandler_currPid]; exact started t⟩
    rw [DisplayOp.run, kbHandler_fn n allowed.1]
    exact holds.switchTerminal allowed.2 n

end Steps

/-- **Three virtual screens.** After boot, every run of the kernel is a run of three
independent screens: the frame at 0xB8000 holds the displayed one, the frames
behind it the others, and the kernel writes to that of the running terminal. -/
theorem display_refines_screens {env : Env} {s₀ : Kernel} (run : (displayCalls env).Reach AtEntry s₀)
    (started : ∀ t, s₀.currPid t ≠ -1) {ops : List DisplayOp} (allowed : (displayCalls env).Allowed s₀ ops) :
    let s := (displayCalls env).exec s₀ ops
    let d := ops.foldl Displays.step s₀.displays
    s.currTer = d.shown ∧ s.currProcess = d.running ∧
      SamePage (s.frame videoPage) (d.screen s.currTer).video ∧
      (∀ t, t ≠ s.currTer → SamePage (s.frame (videoPage + (t.val + 1))) (d.screen t).video) ∧
      s.videoFrame = (if s.currProcess = s.currTer then videoPage else videoPage + (s.currProcess.val + 1)) ∧
      s.screen.Same (d.screen s.currProcess) := by
  have ready := ready_of_reach run started
  have after : Showing ((displayCalls env).exec s₀ ops) (ops.foldl Displays.step s₀.displays) :=
    TransitionSystem.exec_related (R := Showing) (fun _ _ op showing allowed => showing.step env op allowed)
      ⟨ready.holds, started⟩ allowed
  obtain ⟨⟨ready', running, shown, same⟩, -⟩ := after
  refine ⟨shown, running, ?_, fun t other => ?_, ready'.mapped, ?_⟩
  · have own := (same ((displayCalls env).exec s₀ ops).currTer).video
    simp only [Kernel.displays, Kernel.frameOf, if_true] at own
    exact own
  · have buffer := (same t).video
    simp only [Kernel.displays, Kernel.frameOf, if_neg other] at buffer
    exact buffer
  · rw [ready'.screen]
    exact same _

/-- A machine with blank memory in which the base shells were started. -/
theorem booted_reach : (displayCalls shellEnv).Reach AtEntry booted ∧ booted.currProcess = 2 ∧ booted.currTer = 0 := by
  have start := entry_init ⟨fun _ => 0, fun _ => .zero, 0x26, 0⟩
  have boot₀ := start.booting
  obtain ⟨s₁, tick₁, shells₁, placed₁, running₁⟩ := boot₀.tick shellEnv_loadable ⟨0, 0⟩ (.blank ⟨0, 0⟩)
  have boot₁ := boot₀.next_booting shells₁ placed₁ running₁ (by decide)
  obtain ⟨s₂, tick₂, shells₂, placed₂, running₂⟩ := boot₁.tick shellEnv_loadable ⟨0, 0⟩ (.blank ⟨0, 0⟩)
  have boot₂ := boot₁.next_booting shells₂ placed₂ running₂ (by decide)
  obtain ⟨s₃, tick₃, -, -, running₃⟩ := boot₂.tick shellEnv_loadable ⟨0, 0⟩ (.blank ⟨0, 0⟩)
  have last : booted = s₃ := by
    unfold booted
    simp only [TransitionSystem.exec_cons, TransitionSystem.exec_nil, atomicCalls, Op.run, tick₁, tick₂, tick₃]
  have tick : ∀ {s s' : Kernel} {k : Int}, switchRunningProcess shellEnv ⟨0, 0⟩ (.blank ⟨0, 0⟩) s = (.launched k, s') →
      (displayCalls shellEnv).next s (.tick ⟨0, 0⟩ (.blank ⟨0, 0⟩) (.blank ⟨0, 0⟩)) = s' := by
    intro s s' k launched
    simp only [displayCalls, DisplayOp.run, tickCall, launched]
  have shown : ∀ {s s' : Kernel} {k : Int},
      switchRunningProcess shellEnv ⟨0, 0⟩ (.blank ⟨0, 0⟩) s = (.launched k, s') → s'.currTer = s.currTer := by
    intro s s' k launched
    rw [← tick launched]
    exact tickCall_shown _ _ _ _ s
  refine ⟨?_, ?_, ?_⟩
  · rw [last]
    refine .step_to ?_ (.tick ⟨0, 0⟩ (.blank ⟨0, 0⟩) (.blank ⟨0, 0⟩)) trivial (tick tick₃)
    refine .step_to ?_ (.tick ⟨0, 0⟩ (.blank ⟨0, 0⟩) (.blank ⟨0, 0⟩)) trivial (tick tick₂)
    refine .step_to ?_ (.tick ⟨0, 0⟩ (.blank ⟨0, 0⟩) (.blank ⟨0, 0⟩)) trivial (tick tick₁)
    exact .base ⟨_, rfl⟩
  · rw [last, running₃, running₂, running₁, start.running]
    rfl
  · rw [last, shown tick₃, shown tick₂, shown tick₁]
    rfl

/-- Output, a tick, a terminal switch and output again. -/
theorem display_refines_screens_booted :
    let ops : List DisplayOp :=
      [.putc 0x61, .tick ⟨0, 0⟩ (.blank ⟨0, 0⟩) (.blank ⟨0, 0⟩), .alt true, .fn 1, .putc 0x62]
    SamePage (((displayCalls shellEnv).exec booted ops).frame videoPage)
      ((ops.foldl Displays.step booted.displays).screen 1).video := by
  intro ops
  obtain ⟨run, running, shown⟩ := booted_reach
  have started : ∀ t, booted.currPid t ≠ -1 := by
    intro t
    rw [booted_afterBoot.curr t]
    omega
  have showing : Showing booted booted.displays := ⟨(ready_of_reach run started).holds, started⟩
  have showing₁ := showing.step shellEnv (.putc 0x61) (started _)
  have showing₂ := showing₁.step shellEnv (.tick ⟨0, 0⟩ (.blank ⟨0, 0⟩) (.blank ⟨0, 0⟩)) trivial
  have showing₃ := showing₂.step shellEnv (.alt true) trivial
  have zero : booted.displays.running + 1 = booted.displays.shown := by
    simp only [Kernel.displays, running, shown]
    decide
  have displayed := showing₃.1.running.trans (zero.trans showing₃.1.shown.symm)
  have showing₄ := showing₃.step shellEnv (.fn 1) ⟨congrArg Kernel.altPressed (kbHandler_alt true _), displayed⟩
  have allowed : (displayCalls shellEnv).Allowed booted ops :=
    ⟨started _, trivial, trivial, ⟨congrArg Kernel.altPressed (kbHandler_alt true _), displayed⟩, showing₄.2 _, trivial⟩
  have refined := display_refines_screens run started allowed
  have screen := refined.2.2.1
  rw [refined.1] at screen
  exact screen

end BigBrainOS
