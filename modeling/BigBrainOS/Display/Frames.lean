import BigBrainOS.Display.Screens
import BigBrainOS.Process.Cursor

/-!
# The frames behind the video page

The kernel keeps the displayed screen in the frame at 0xB8000 and the others in
the three frames behind it, and remaps the video page. `Holds` relates these
frames to the three screens. Each step keeps it: a clock tick, output, and a
terminal switch, which copies two pages through the very mapping it changes.
-/

namespace BigBrainOS
set_option autoImplicit false

/-- The frame that is meant to hold the screen of a terminal. -/
def Kernel.frameOf (s : Kernel) (t : Term) : Nat := if t = s.currTer then videoPage else videoPage + (t.val + 1)

/-- The three screens that the frames and the saved cursors hold. -/
def Kernel.displays (s : Kernel) : Displays where
  screen t := ⟨s.frame (s.frameOf t), (s.terminals t).screenXSave, (s.terminals t).screenYSave⟩
  running := s.currProcess
  shown := s.currTer

theorem Kernel.frameOf_ne (s : Kernel) {t u : Term} (different : t ≠ u) : s.frameOf t ≠ s.frameOf u := by
  have values : t.val ≠ u.val := fun e => different (Fin.ext e)
  unfold frameOf
  split <;> split
  · next ht hu => exact absurd (ht.trans hu.symm) different
  · omega
  · omega
  · omega

theorem frameOf_congr {s s' : Kernel} (shown : s'.currTer = s.currTer) (t : Term) : s'.frameOf t = s.frameOf t := by
  unfold Kernel.frameOf; rw [shown]

theorem frame_congr {s s' : Kernel} (phys : s'.phys = s.phys) (n : Nat) : s'.frame n = s.frame n := by
  unfold Kernel.frame; rw [phys]

theorem setFrame_self (s : Kernel) (n : Nat) (v : Bytes) : SamePage ((s.setFrame n v).frame n) v := by
  intro k inside
  have page : (n * pageSize + k) / pageSize = n := by simp only [pageSize] at inside ⊢; omega
  have offset : (n * pageSize + k) % pageSize = k := by simp only [pageSize] at inside ⊢; omega
  simp only [Kernel.frame, Kernel.setFrame, page, offset, if_true]

theorem setFrame_other (s : Kernel) {n m : Nat} (v : Bytes) (other : m ≠ n) :
    SamePage ((s.setFrame n v).frame m) (s.frame m) := by
  intro k inside
  have page : (m * pageSize + k) / pageSize = m := by simp only [pageSize] at inside ⊢; omega
  simp only [Kernel.frame, Kernel.setFrame, page, if_neg other]

/-- `change_vidmem` for a terminal maps the frame of that terminal. -/
theorem changeVidmem_frame (next shown : Term) (s : Kernel) :
    (changeVidmem (if next = shown then mainVid else (next.val : Int)) s).videoFrame =
      if next = shown then videoPage else videoPage + (next.val + 1) := by
  simp only [Kernel.videoFrame, changeVidmem, Function.update_self]
  split
  · rfl
  · simp only [videoPage]; omega

theorem changeVidmem_buffer (n : Int) (s : Kernel) (t : Term) :
    (changeVidmem n s).pageTable (videoPage + (t.val + 1)) = s.pageTable (videoPage + (t.val + 1)) :=
  Function.update_of_ne (by omega) _ _

/-! ## The relation -/

/-- The mapping and the cursor are those of the running terminal. -/
structure Ready (s : Kernel) : Prop where
  /-- The video page maps the frame of the running terminal. -/
  mapped : s.videoFrame = s.frameOf s.currProcess
  /-- The pages of the buffers map the frames behind the screen. -/
  buffers : ∀ t : Term, (s.pageTable (videoPage + (t.val + 1))).address = videoPage + (t.val + 1)
  x : s.screenX = (s.terminals s.currProcess).screenXSave
  y : s.screenY = (s.terminals s.currProcess).screenYSave
  inRange : ∀ t, (s.displays.screen t).InRange

/-- The kernel holds the three screens. -/
structure Holds (s : Kernel) (d : Displays) : Prop where
  ready : Ready s
  running : s.currProcess = d.running
  shown : s.currTer = d.shown
  same : ∀ t, (s.displays.screen t).Same (d.screen t)

theorem Ready.holds {s : Kernel} (ready : Ready s) : Holds s s.displays :=
  ⟨ready, rfl, rfl, fun _ => ⟨.refl _, rfl, rfl⟩⟩

theorem Ready.of_quiet {s s' : Kernel} (ready : Ready s) (quiet : Quiet s s') : Ready s' where
  mapped := by
    rw [frameOf_congr quiet.currTer, quiet.currProcess]
    exact (congrArg (fun table => (table videoPage).address) quiet.pageTable).trans ready.mapped
  buffers t := by rw [quiet.pageTable]; exact ready.buffers t
  x := by rw [quiet.screenX, quiet.xSave, quiet.currProcess]; exact ready.x
  y := by rw [quiet.screenY, quiet.ySave, quiet.currProcess]; exact ready.y
  inRange t := (ready.inRange t).of_cursor (quiet.xSave t) (quiet.ySave t)

/-! ## Output -/

section Steps
variable {s : Kernel} {d : Displays}

/-- `set_cursor` saves the cursor of the running terminal. -/
theorem setCursor_fields (s : Kernel) :
    (setCursor s).phys = s.phys ∧ (setCursor s).pageTable = s.pageTable ∧ (setCursor s).currTer = s.currTer ∧
      (setCursor s).currProcess = s.currProcess ∧ (setCursor s).screenX = s.screenX ∧
      (setCursor s).screenY = s.screenY ∧
      (setCursor s).terminals = (s.setTerminal s.currProcess fun t =>
        { t with screenXSave := s.screenX, screenYSave := s.screenY }).terminals := by
  unfold setCursor
  dsimp only
  split <;> exact ⟨rfl, rfl, rfl, rfl, rfl, rfl, rfl⟩

/-- The screens after a screen was stored through the mapping of the running terminal. -/
theorem setScreen_displays (ready : Ready s) (scr : Screen) (t : Term) :
    ((setCursor (s.setScreen scr)).displays.screen t).Same
      (if t = s.currProcess then scr else s.displays.screen t) := by
  obtain ⟨phys, -, shown, -, -, -, terminals⟩ := setCursor_fields (s.setScreen scr)
  have frame : (setCursor (s.setScreen scr)).frame ((setCursor (s.setScreen scr)).frameOf t) =
      (s.setFrame s.videoFrame scr.video).frame (s.frameOf t) := by
    rw [frame_congr phys, frameOf_congr shown]; rfl
  split
  · next e =>
    subst e
    refine ⟨?_, ?_, ?_⟩
    · simp only [Kernel.displays]
      rw [frame, ← ready.mapped]
      exact setFrame_self _ _ _
    · simp only [Kernel.displays, terminals]
      exact congrArg TerminalState.screenXSave (Kernel.setTerminal_self _ _ _)
    · simp only [Kernel.displays, terminals]
      exact congrArg TerminalState.screenYSave (Kernel.setTerminal_self _ _ _)
  · next e =>
    have other : s.frameOf t ≠ s.videoFrame := by rw [ready.mapped]; exact s.frameOf_ne e
    refine ⟨?_, ?_, ?_⟩
    · simp only [Kernel.displays]
      rw [frame]
      exact setFrame_other _ _ other
    · simp only [Kernel.displays, terminals]
      exact congrArg TerminalState.screenXSave (Kernel.setTerminal_of_ne _ _ e)
    · simp only [Kernel.displays, terminals]
      exact congrArg TerminalState.screenYSave (Kernel.setTerminal_of_ne _ _ e)

theorem Ready.setScreen (ready : Ready s) {scr : Screen} (range : scr.InRange) : Ready (setCursor (s.setScreen scr)) := by
  have screens := setScreen_displays ready scr
  obtain ⟨-, table, shown, running, x, y, terminals⟩ := setCursor_fields (s.setScreen scr)
  refine ⟨?_, fun t => ?_, ?_, ?_, fun t => ?_⟩
  · rw [frameOf_congr shown, running]
    exact (congrArg (fun pages => (pages videoPage).address) table).trans ready.mapped
  · rw [table]; exact ready.buffers t
  · rw [x, running, terminals, Kernel.setTerminal_self]
  · rw [y, running, terminals, Kernel.setTerminal_self]
  · refine Screen.InRange.of_cursor ?_ (screens t).x (screens t).y
    split
    · exact range
    · exact ready.inRange t

theorem Screen.Same.trans {a b c : Screen} (h : a.Same b) (h' : b.Same c) : a.Same c :=
  ⟨h.video.trans h'.video, h.x.trans h'.x, h.y.trans h'.y⟩

/-- What the running process writes to is its own screen. -/
theorem Ready.screen (ready : Ready s) : s.screen = s.displays.screen s.currProcess := by
  rw [Kernel.screen, ready.mapped, ready.x, ready.y]; rfl

/-- Output goes to the screen of the running terminal and to no other. -/
theorem Holds.putc (holds : Holds s d) (c : UInt8) : Holds (putc c s) (d.step (.putc c)) := by
  have written := holds.ready.screen
  have range : (s.screen.putc c).InRange := by rw [written]; exact (holds.ready.inRange _).putc c
  have screens := setScreen_displays holds.ready (s.screen.putc c)
  obtain ⟨-, -, shown, running, -⟩ := setCursor_fields (s.setScreen (s.screen.putc c))
  refine ⟨holds.ready.setScreen range, running.trans holds.running, shown.trans holds.shown, fun t => ?_⟩
  refine (screens t).trans ?_
  simp only [Displays.step, ← holds.running]
  split
  · next e =>
    rw [e, Function.update_self, written]
    exact (holds.same s.currProcess).putc c
  · next e =>
    rw [Function.update_of_ne e]
    exact holds.same t

theorem ready_printing : Printing Ready where
  putc ready c := (ready.holds.putc c).ready
  quiet ready quiet := ready.of_quiet quiet

/-! ## Clock ticks -/

/-- A switch maps the frame of the next terminal and takes its cursor. -/
theorem Holds.switchTo (holds : Holds s d) (next : Term) (pid : Int) (r : Regs) (running : s.currPid s.currProcess ≠ -1) :
    Holds (switchTo next pid (if next = s.currTer then mainVid else next.val) r s).2 { d with running := next } := by
  simp only [BigBrainOS.switchTo, if_neg running]
  refine ⟨⟨changeVidmem_frame next s.currTer _, fun t => ?_, rfl, rfl, holds.ready.inRange⟩, rfl, holds.shown,
    holds.same⟩
  exact (congrArg PageTableEntry.address (changeVidmem_buffer _ _ t)).trans (holds.ready.buffers t)

/-- A cursor in the corner is that of the running terminal. -/
theorem resetCursor_ready (mapped : s.videoFrame = s.frameOf s.currProcess)
    (buffers : ∀ t : Term, (s.pageTable (videoPage + (t.val + 1))).address = videoPage + (t.val + 1))
    (inRange : ∀ t, (s.displays.screen t).InRange) : Ready (resetCursor s) := by
  have own : ((resetCursor s).terminals s.currProcess).screenXSave = 0 ∧
      ((resetCursor s).terminals s.currProcess).screenYSave = 0 := by
    unfold resetCursor
    rw [Kernel.setTerminal_self]
    exact ⟨rfl, rfl⟩
  refine ⟨mapped, buffers, own.1.symm, own.2.symm, fun t => ?_⟩
  by_cases e : t = s.currProcess
  · subst e
    exact .corner own.1 own.2
  · have other : (resetCursor s).terminals t = s.terminals t := by
      unfold resetCursor
      rw [Kernel.setTerminal_of_ne _ _ e]
    exact (inRange t).of_cursor (congrArg TerminalState.screenXSave other) (congrArg TerminalState.screenYSave other)

/-- The boot of a terminal maps its frame and puts its cursor in the corner. -/
theorem prepareTerminal_ready (next : Term) (r : Regs)
    (buffers : ∀ t : Term, (s.pageTable (videoPage + (t.val + 1))).address = videoPage + (t.val + 1))
    (inRange : ∀ t, (s.displays.screen t).InRange) :
    Ready (prepareTerminal next (if next = s.currTer then mainVid else next.val) r s) := by
  have mapped := changeVidmem_frame next s.currTer s
  have table := fun t => (congrArg PageTableEntry.address (changeVidmem_buffer
    (if next = s.currTer then mainVid else (next.val : Int)) s t)).trans (buffers t)
  unfold prepareTerminal
  dsimp only
  apply resetCursor_ready
  · split <;> exact mapped
  · split <;> exact table
  · split <;> exact fun t => (inRange t).of_cursor rfl rfl

/-- The boot of a terminal, whatever the launch of its base shell comes to. -/
theorem bootTick_ready (env : Env) (r : Regs) (fr exc : ExecFrame)
    (buffers : ∀ t : Term, (s.pageTable (videoPage + (t.val + 1))).address = videoPage + (t.val + 1))
    (inRange : ∀ t, (s.displays.screen t).InRange) (empty : s.currPid (s.currProcess + 1) = -1) :
    Ready (tickCall env r fr exc s) := by
  obtain ⟨on, mask, masked⟩ := maskKeyboard_quiet (s.currProcess + 1) s
  have prepared := prepareTerminal_ready (s := { s with onScreen := on, masterMask := mask }) (s.currProcess + 1) r
    buffers inRange
  have executed := ready_printing.kept.sysExecute env fr (shellCommand env) prepared
  simp only [tickCall, switchRunningProcess, masked, if_pos empty]
  have view := prepareTerminal_view (if s.currProcess + 1 = s.currTer then mainVid else (s.currProcess + 1).val) r
    { s with onScreen := on, masterMask := mask }
  generalize prepareTerminal _ _ r { s with onScreen := on, masterMask := mask } = ready at prepared executed view
  have failed := sysExecute_view env fr (shellCommand env) ready
  generalize sysExecute env fr (shellCommand env) ready = out at executed failed
  obtain ⟨outcome, s'⟩ := out
  cases outcome with
  | launched n eip => exact executed
  | fault => exact ready_printing.kept.pfHandler env exc executed
  | failed =>
    have none : s'.currPid s'.currProcess = -1 := by
      have same : s'.view = _ := failed.trans view
      refine (congrArg (fun v : ProcView => v.curr v.currProcess) same).trans ?_
      simp only [ProcView.bootSave]
      split <;> exact empty
    simp only [switchTo, if_pos none]
    exact executed

theorem switchTo_ne_fault (next : Term) (pid vidId : Int) (r : Regs) (s : Kernel) :
    (switchTo next pid vidId r s).1 ≠ .fault := by
  unfold switchTo
  split <;> exact fun h => by cases h

/-- A tick to a terminal that has a process. -/
theorem tickCall_started (env : Env) (r : Regs) (fr exc : ExecFrame) (started : s.currPid (s.currProcess + 1) ≠ -1) :
    ∃ on mask, tickCall env r fr exc s = (switchTo (s.currProcess + 1) (s.currPid (s.currProcess + 1))
      (if s.currProcess + 1 = s.currTer then mainVid else (s.currProcess + 1).val) r
      { s with onScreen := on, masterMask := mask }).2 := by
  obtain ⟨on, mask, masked⟩ := maskKeyboard_quiet (s.currProcess + 1) s
  refine ⟨on, mask, ?_⟩
  simp only [tickCall, switchRunningProcess, masked, if_neg started]
  split
  · next eq => exact absurd (congrArg Prod.fst eq) (switchTo_ne_fault _ _ _ _ _)
  · next eq => rw [eq]

/-- The flag and the mask that a tick sets for the keyboard are no part of the display. -/
theorem Ready.masked (ready : Ready s) (on : Bool) (mask : UInt8) : Ready { s with onScreen := on, masterMask := mask } :=
  ⟨ready.mapped, ready.buffers, ready.x, ready.y, ready.inRange⟩

theorem Ready.tick (ready : Ready s) (env : Env) (r : Regs) (fr exc : ExecFrame) :
    Ready (tickCall env r fr exc s) := by
  by_cases empty : s.currPid (s.currProcess + 1) = -1
  · exact bootTick_ready env r fr exc ready.buffers ready.inRange empty
  · obtain ⟨on, mask, called⟩ := tickCall_started env r fr exc empty
    rw [called]
    by_cases running : s.currPid s.currProcess = -1
    · rw [switchTo, if_pos (show ({ s with onScreen := on, masterMask := mask } : Kernel).currPid _ = -1 from running)]
      exact ready.masked on mask
    · exact ((ready.masked on mask).holds.switchTo _ _ r running).ready

/-- A clock tick between processes passes the processor on and nothing else. -/
theorem Holds.tick (holds : Holds s d) (env : Env) (r : Regs) (fr exc : ExecFrame) (started : ∀ t, s.currPid t ≠ -1) :
    Holds (tickCall env r fr exc s) (d.step (.tick r fr exc)) := by
  obtain ⟨on, mask, called⟩ := tickCall_started env r fr exc (started (s.currProcess + 1))
  have held : Holds { s with onScreen := on, masterMask := mask } d :=
    ⟨holds.ready.masked on mask, holds.running, holds.shown, holds.same⟩
  rw [called, Displays.step, ← holds.running]
  exact held.switchTo _ _ r (started s.currProcess)

theorem shown_printing (n : Term) : Printing fun s => s.currTer = n where
  putc {s} shown c := by
    obtain ⟨ts, x, y, v, m, e, -⟩ := putc_output c s
    rw [e]; exact shown
  quiet shown quiet := quiet.currTer.trans shown

/-- A tick does not change what is displayed. -/
theorem tickCall_shown (env : Env) (r : Regs) (fr exc : ExecFrame) (s : Kernel) :
    (tickCall env r fr exc s).currTer = s.currTer := by
  have switched : ∀ (k : Kernel) next pid vidId, (switchTo next pid vidId r k).2.currTer = k.currTer := by
    intro k next pid vidId
    unfold switchTo
    split <;> rfl
  obtain ⟨on, mask, masked⟩ := maskKeyboard_quiet (s.currProcess + 1) s
  by_cases empty : s.currPid (s.currProcess + 1) = -1
  · have prepared : ∀ vidId, (prepareTerminal (s.currProcess + 1) vidId r
        { s with onScreen := on, masterMask := mask }).currTer = s.currTer := by
      intro vidId
      unfold prepareTerminal
      dsimp only
      split <;> rfl
    have executed := (shown_printing s.currTer).kept.sysExecute env fr (shellCommand env) (prepared
      (if s.currProcess + 1 = s.currTer then mainVid else (s.currProcess + 1).val))
    simp only [tickCall, switchRunningProcess, masked, if_pos empty]
    generalize sysExecute env fr (shellCommand env) _ = out at executed
    obtain ⟨outcome, s'⟩ := out
    cases outcome with
    | launched n eip => exact executed
    | fault => exact (shown_printing s.currTer).kept.pfHandler env exc executed
    | failed =>
      dsimp only
      split
      · next eq => exact absurd (congrArg Prod.fst eq) (switchTo_ne_fault _ _ _ _ _)
      · next s₁ _ eq => rw [← executed, ← switched s' _ _ _, eq]
  · obtain ⟨on, mask, called⟩ := tickCall_started env r fr exc empty
    rw [called, switched]

/-! ## Terminal switches -/

/-- Alt with a function key runs `switch_terminal_or_return`. -/
theorem kbHandler_fn (n : Term) (alt : s.altPressed = true) : kbHandler (fnKey n) s = switchTerminal n s := by
  have down : (59 : UInt8) &&& 128 = 0 ∧ (60 : UInt8) &&& 128 = 0 ∧ (61 : UInt8) &&& 128 = 0 := by decide
  match n with
  | 0 => simp [kbHandler, fnKey, modifierKey, keyDown, alt, down]
  | 1 => simp [kbHandler, fnKey, modifierKey, keyDown, alt, down]
  | 2 => simp [kbHandler, fnKey, modifierKey, keyDown, alt, down]

theorem kbHandler_alt (down : Bool) (s : Kernel) :
    kbHandler (if down then 0x38 else 0xB8) s = { s with altPressed := down } := by
  cases down <;> simp [kbHandler, modifierKey]

/-- The two copies of `swap_vid_mem` go through the mapping of the displayed
terminal: its screen moves to its buffer, and the buffer of the new one to the
frame that is displayed. -/
theorem swapVidMem_eq (ready : Ready s) (displayed : s.currProcess = s.currTer) (n : Term) :
    swapVidMem s.currTer n s =
      ((s.setFrame (videoPage + (s.currTer.val + 1)) (s.frame videoPage)).setFrame videoPage
        ((s.setFrame (videoPage + (s.currTer.val + 1)) (s.frame videoPage)).frame (videoPage + (n.val + 1)))) := by
  have screen : (s.pageTable videoPage).address = videoPage := by
    rw [show (s.pageTable videoPage).address = s.videoFrame from rfl, ready.mapped, Kernel.frameOf, if_pos displayed]
  have first : copyPage (videoPage + (s.currTer.val + 1)) videoPage s =
      s.setFrame (videoPage + (s.currTer.val + 1)) (s.frame videoPage) := by
    rw [copyPage, ready.buffers, screen]
  have table : (s.setFrame (videoPage + (s.currTer.val + 1)) (s.frame videoPage)).pageTable = s.pageTable := rfl
  rw [swapVidMem, first, copyPage, table, ready.buffers, screen]

/-- No screen changes when another one is displayed. -/
theorem switchTer_frame (ready : Ready s) (displayed : s.currProcess = s.currTer) {n : Term} (other : n ≠ s.currTer)
    (t : Term) :
    SamePage ((switchTer s.currTer n s).frame ((switchTer s.currTer n s).frameOf t)) (s.frame (s.frameOf t)) := by
  have shown : (switchTer s.currTer n s).frameOf t = if t = n then videoPage else videoPage + (t.val + 1) := rfl
  have phys : (switchTer s.currTer n s).phys = (swapVidMem s.currTer n s).phys := rfl
  rw [frame_congr phys, shown, swapVidMem_eq ready displayed]
  have apart : ∀ {u v : Term}, u ≠ v → videoPage + (u.val + 1) ≠ videoPage + (v.val + 1) := by
    intro u v different same
    exact different (Fin.ext (by omega))
  by_cases new : t = n
  · subst new
    rw [if_pos rfl, Kernel.frameOf, if_neg other]
    exact (setFrame_self _ _ _).trans (setFrame_other _ _ (apart other))
  · rw [if_neg new]
    refine (setFrame_other _ _ (show videoPage + (t.val + 1) ≠ videoPage by omega)).trans ?_
    by_cases old : t = s.currTer
    · rw [Kernel.frameOf, if_pos old, old]
      exact setFrame_self _ _ _
    · rw [Kernel.frameOf, if_neg old]
      exact setFrame_other _ _ (apart old)

/-- A terminal switch displays another screen and changes none. -/
theorem Holds.switchTerminal (holds : Holds s d) (displayed : s.currProcess = s.currTer) (n : Term) :
    Holds (switchTerminal n s) (d.step (.fn n)) := by
  unfold BigBrainOS.switchTerminal
  split
  · next different =>
    have other : n ≠ s.currTer := fun e => different e.symm
    have frames := switchTer_frame holds.ready displayed other
    refine ⟨⟨?_, fun t => ?_, holds.ready.x, holds.ready.y, fun t => (holds.ready.inRange t).of_cursor rfl rfl⟩,
      holds.running, rfl, fun t => ?_⟩
    · have mapped := changeVidmem_frame s.currTer n (swapVidMem s.currTer n s)
      rw [if_neg different] at mapped
      refine Eq.trans mapped ?_
      exact congrArg (fun u : Term => if u = n then videoPage else videoPage + (u.val + 1)) displayed.symm
    · exact (congrArg PageTableEntry.address (changeVidmem_buffer _ _ t)).trans (holds.ready.buffers t)
    · exact ⟨(frames t).trans (holds.same t).video, (holds.same t).x, (holds.same t).y⟩
  · next same =>
    have stays : s.currTer = n := Decidable.not_not.1 same
    exact ⟨holds.ready, holds.running, stays, holds.same⟩

end Steps

end BigBrainOS
