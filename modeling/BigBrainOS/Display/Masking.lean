import BigBrainOS.Display.Refinement

/-!
# When the keyboard is heard

The scheduler lets keyboard interrupts through only while the displayed terminal
runs, and `on_screen` records the same. A terminal switch in the middle of a time
slice changes the displayed terminal but neither the mask nor the flag, so the
two agree with the displayed terminal in every run without such a switch, and
in no run right after one.
-/

namespace BigBrainOS
set_option autoImplicit false

/-! ## The system -/

/-- `IRQ n` of the master is not masked. -/
def IrqEnabled (irqNum : Nat) (s : Kernel) : Prop := s.masterMask &&& ((1 : UInt8) <<< UInt8.ofNat irqNum) = 0

/-- A key arrives whenever IRQ 1 is let through; a system call runs on the stack that `tss.esp0` gave it. -/
def Op.Heard (op : Op) (s : Kernel) : Prop :=
  match op with
  | .execute fr _ _ => OnStack s.tss.esp0 fr.regs.esp
  | .key _ => IrqEnabled kbIrqNum s
  | _ => True

/-- The kernel with keys at the mercy of the mask. -/
def heardCalls (env : Env) : TransitionSystem Kernel Op where
  ok s op := op.Heard s
  next s op := op.run env s

/-- The clock tick that started the third base shell has just ended. -/
def JustBooted (env : Env) (s : Kernel) : Prop :=
  ∃ s₀ r fr, Booting s₀.view 2 ∧ s = (switchRunningProcess env r fr s₀).2

/-- Keys are heard only by the terminal that runs and is displayed. -/
structure Masked (s : Kernel) : Prop where
  irq : IrqEnabled kbIrqNum s → s.currProcess = s.currTer
  onScreen : s.onScreen = true ↔ s.currProcess = s.currTer

/-- The key is not Alt with the function key of a terminal that is not displayed. -/
def KeepsTerminal (s : Kernel) (op : Op) : Prop :=
  match op with
  | .key scancode => ∀ n, scancode = fnKey n → s.altPressed = true → n = s.currTer
  | _ => True

/-! ## The mask and the flag -/

/-- The mask, the flag and both terminals are the same. -/
structure SameMask (s s' : Kernel) : Prop where
  masterMask : s'.masterMask = s.masterMask
  onScreen : s'.onScreen = s.onScreen
  currProcess : s'.currProcess = s.currProcess
  currTer : s'.currTer = s.currTer

namespace SameMask
variable {s s' : Kernel}

theorem refl (s : Kernel) : SameMask s s := ⟨rfl, rfl, rfl, rfl⟩

theorem trans {a b c : Kernel} (h : SameMask a b) (h' : SameMask b c) : SameMask a c :=
  ⟨h'.masterMask.trans h.masterMask, h'.onScreen.trans h.onScreen, h'.currProcess.trans h.currProcess,
    h'.currTer.trans h.currTer⟩

theorem of_output (h : Output s s') : SameMask s s' := by
  obtain ⟨ts, x, y, c, m, rfl, -⟩ := h
  exact ⟨rfl, rfl, rfl, rfl⟩

theorem of_reprogrammed (h : Reprogrammed s s') : SameMask s s' := by
  obtain ⟨f, a, ps, rfl, -⟩ := h
  exact ⟨rfl, rfl, rfl, rfl⟩

theorem of_stored (h : Stored s s') : SameMask s s' := by
  obtain ⟨m, rfl⟩ := h
  exact ⟨rfl, rfl, rfl, rfl⟩

/-- No statement of `sys_execute` or `sys_halt` touches the mask or the terminals' numbers. -/
theorem kept (s₀ : Kernel) : Kept (SameMask s₀) where
  launch {l stmt s s'} same run := by
    refine same.trans ?_
    cases stmt with
    | copy k => exact of_stored (writeByte_stored run)
    | printf => obtain rfl := Option.some.inj run; exact of_output (puts_output _ _)
    | parPidRoot =>
      obtain rfl := Option.some.inj run
      split <;> exact ⟨rfl, rfl, rfl, rfl⟩
    | _ => obtain rfl := Option.some.inj run; exact ⟨rfl, rfl, rfl, rfl⟩
  halt {s} h stmt same := by
    refine same.trans ?_
    cases stmt with
    | printf => exact of_output (puts_output _ _)
    | close i => exact of_reprogrammed (close_reprogrammed h i s)
    | _ => exact ⟨rfl, rfl, rfl, rfl⟩
  enable pid same := same.trans ⟨rfl, rfl, rfl, rfl⟩
  stored same stored := same.trans (of_stored stored)
  puts text same := same.trans (of_output (puts_output text _))

theorem masked (same : SameMask s s') (h : Masked s) : Masked s' := by
  refine ⟨?_, ?_⟩
  · rw [IrqEnabled, same.masterMask, same.currProcess, same.currTer]
    exact h.irq
  · rw [same.onScreen, same.currProcess, same.currTer]
    exact h.onScreen

end SameMask

/-- `disable_irq` and `enable_irq` on the bit of the keyboard. -/
theorem keyboard_bit (m : UInt8) : ¬ (m ||| 2) &&& 2 = 0 ∧ ((m ||| 2) &&& ~~~2) &&& 2 = 0 := by
  have bits : ∀ m : BitVec 8, ¬ (m ||| 2#8) &&& 2#8 = 0#8 ∧ ((m ||| 2#8) &&& ~~~2#8) &&& 2#8 = 0#8 := by decide
  obtain ⟨set, clear⟩ := bits m.toBitVec
  exact ⟨fun zero => set (congrArg UInt8.toBitVec zero), UInt8.toBitVec_inj.1 clear⟩

/-- The scheduler lets the keyboard through for the displayed terminal. -/
theorem maskKeyboard_spec (next : Term) (s : Kernel) :
    (maskKeyboard next s).onScreen = decide (next = s.currTer) ∧
      (IrqEnabled kbIrqNum (maskKeyboard next s) ↔ next = s.currTer) := by
  obtain ⟨set, clear⟩ := keyboard_bit s.masterMask
  have bit : (1 : UInt8) <<< UInt8.ofNat kbIrqNum = 2 := by decide
  have low : ¬ kbIrqNum > 15 := by decide
  have master : kbIrqNum < 8 := by decide
  unfold IrqEnabled maskKeyboard
  simp only [disableIrq, enableIrq, if_neg low, if_pos master, bit]
  by_cases shown : next = s.currTer
  · rw [if_pos shown]
    exact ⟨by rw [decide_eq_true shown], iff_of_true clear shown⟩
  · rw [if_neg shown]
    exact ⟨by rw [decide_eq_false shown], iff_of_false set shown⟩

theorem maskKeyboard_currTer (next : Term) (s : Kernel) : (maskKeyboard next s).currTer = s.currTer := by
  obtain ⟨on, mask, masked⟩ := maskKeyboard_quiet next s
  rw [masked]

/-- After the scheduler has passed the processor on, only the displayed terminal hears the keyboard. -/
theorem masked_of_next {s s' : Kernel} {next : Term}
    (same : SameMask { maskKeyboard next s with currProcess := next } s') : Masked s' := by
  obtain ⟨flag, irq⟩ := maskKeyboard_spec next s
  have shown := maskKeyboard_currTer next s
  refine same.masked ⟨?_, ?_⟩
  · intro enabled
    exact (irq.1 enabled).trans shown.symm
  · show (maskKeyboard next s).onScreen = true ↔ next = (maskKeyboard next s).currTer
    rw [flag, shown, decide_eq_true_eq]

/-! ## The steps -/

section Steps
variable {env : Env} {s : Kernel}

/-- What a tick between two processes leaves of the mask. -/
theorem tick_mask (env : Env) (r : Regs) (fr : ExecFrame) (running : s.currPid s.currProcess ≠ -1)
    (started : s.currPid (s.currProcess + 1) ≠ -1) :
    SameMask { maskKeyboard (s.currProcess + 1) s with currProcess := s.currProcess + 1 }
      (switchRunningProcess env r fr s).2 := by
  have view := Kernel.maskKeyboard_view s (s.currProcess + 1)
  have running' : (maskKeyboard (s.currProcess + 1) s).currPid (maskKeyboard (s.currProcess + 1) s).currProcess ≠ -1 := by
    have same := congrArg (fun v : ProcView => v.curr v.currProcess) view
    exact fun none => running (same.symm.trans none)
  have flag : decide (s.currProcess + 1 = (maskKeyboard (s.currProcess + 1) s).currTer) =
      (maskKeyboard (s.currProcess + 1) s).onScreen := by
    rw [maskKeyboard_currTer, (maskKeyboard_spec _ s).1]
  simp only [switchRunningProcess, if_neg started, switchTo, if_neg running']
  exact ⟨rfl, flag, rfl, rfl⟩

/-- A tick between two processes. -/
theorem tick_masked (env : Env) (r : Regs) (fr : ExecFrame) (running : s.currPid s.currProcess ≠ -1)
    (started : s.currPid (s.currProcess + 1) ≠ -1) : Masked (switchRunningProcess env r fr s).2 :=
  masked_of_next (tick_mask env r fr running started)

/-- The tick that starts a base shell. -/
theorem boot_masked (env : Env) (r : Regs) (fr : ExecFrame) (empty : s.currPid (s.currProcess + 1) = -1)
    (launches : ∃ n s', switchRunningProcess env r fr s = (.launched n, s')) :
    Masked (switchRunningProcess env r fr s).2 := by
  generalize vid : (if s.currProcess + 1 = s.currTer then mainVid else ((s.currProcess + 1).val : Int)) = vidId
  have prepared : SameMask { maskKeyboard (s.currProcess + 1) s with currProcess := s.currProcess + 1 }
      (prepareTerminal (s.currProcess + 1) vidId r (maskKeyboard (s.currProcess + 1) s)) := by
    unfold prepareTerminal
    refine SameMask.trans ?_ (.of_output (resetCursor_output _))
    dsimp only
    split <;> exact ⟨rfl, rfl, rfl, rfl⟩
  have executed := (SameMask.kept _).sysExecute env fr (shellCommand env) prepared
  have result : (switchRunningProcess env r fr s).2 = (sysExecute env fr (shellCommand env)
      (prepareTerminal (s.currProcess + 1) vidId r (maskKeyboard (s.currProcess + 1) s))).2 := by
    obtain ⟨n, s', launched⟩ := launches
    simp only [switchRunningProcess, if_pos empty, vid] at launched ⊢
    split
    · next eq => rw [eq]
    · next eq => rw [eq]
    · next failed =>
      rw [failed] at launched
      simp only [switchTo] at launched
      split at launched <;> cases launched
  rw [result]
  exact masked_of_next executed

/-! ### Keys -/

theorem backspace_mask (s : Kernel) : SameMask s (backspace s) := by
  unfold backspace
  split
  · exact .refl s
  · exact (SameMask.of_output (screenBackspace_output s)).trans ⟨rfl, rfl, rfl, rfl⟩

theorem upArrow_mask (s : Kernel) : SameMask s (upArrow s) := by
  apply upArrow_rule (P := SameMask s) (Q := SameMask s) (.refl s)
  · exact fun s₁ same => same.trans (backspace_mask s₁)
  · intro s₁ same
    refine SameMask.trans ?_ (.of_output (puts_output _ _))
    exact same.trans ⟨rfl, rfl, rfl, rfl⟩

theorem characterKey_mask (c : UInt8) (s : Kernel) : SameMask s (characterKey c s) := by
  unfold characterKey
  split
  · exact backspace_mask s
  split
  · unfold enterKey
    refine SameMask.trans ?_ (.of_output (putc_output _ _))
    exact ⟨rfl, rfl, rfl, rfl⟩
  split
  · exact .refl s
  · unfold printChar
    split
    · exact .refl s
    · refine SameMask.trans ?_ (.of_output (putc_output _ _))
      exact ⟨rfl, rfl, rfl, rfl⟩

/-- A key that keeps the displayed terminal changes neither mask nor flag. -/
theorem kbHandler_mask {scancode : UInt8} (keeps : KeepsTerminal s (.key scancode)) : SameMask s (kbHandler scancode s) := by
  by_cases switch : ∃ n, scancode = fnKey n ∧ s.altPressed = true
  · obtain ⟨n, rfl, alt⟩ := switch
    have shown : n = s.currTer := keeps n rfl alt
    rw [kbHandler_fn n alt, switchTerminal, if_neg (by simp [shown])]
    exact .refl s
  · have noArrow : ∀ n : Term, fnKey n ≠ 0x48 := by decide
    apply kbHandler_rule (P := fun s₁ => SameMask s s₁ ∧ ∀ n, scancode = fnKey n → ¬ s₁.altPressed = true)
      (Q := SameMask s) scancode
    case arrow =>
      split
      · next up => exact ⟨upArrow_mask s, fun n key => absurd (key.symm.trans up) (noArrow n)⟩
      · exact ⟨.refl s, fun n key alt => switch ⟨n, key, alt⟩⟩
    case still => exact fun _ kept => kept.1
    case modifiers => exact fun s₁ _ _ _ _ kept => kept.1.trans ⟨rfl, rfl, rfl, rfl⟩
    case clear => exact fun s₁ kept => kept.1.trans (.of_output (controlL_output s₁))
    case switch => exact fun s₁ n key alt kept => absurd alt (kept.2 n key)
    case character => exact fun s₁ _ kept => kept.1.trans (characterKey_mask _ s₁)

/-- Another key changes the displayed terminal, and neither mask nor flag. -/
theorem kbHandler_switch {scancode : UInt8} (switches : ¬ KeepsTerminal s (.key scancode)) :
    (kbHandler scancode s).currTer ≠ s.currTer := by
  simp only [KeepsTerminal, not_forall] at switches
  obtain ⟨n, rfl, alt, other⟩ := switches
  have different : s.currTer ≠ n := fun same => other same.symm
  rw [kbHandler_fn n alt, switchTerminal, if_pos different]
  exact other

/-- What a key leaves alone in any case. -/
theorem kbHandler_fields (scancode : UInt8) (s : Kernel) :
    (kbHandler scancode s).masterMask = s.masterMask ∧ (kbHandler scancode s).onScreen = s.onScreen ∧
      (kbHandler scancode s).currProcess = s.currProcess := by
  obtain ⟨ts, ct, x, y, v, m, pt, vt, sh, co, ca, al, typed, -⟩ := kbHandler_typed scancode s
  rw [typed]
  exact ⟨rfl, rfl, rfl⟩

/-! ### All steps -/

/-- While keys are heard by the displayed terminal only, the guards of both systems agree. -/
theorem Masked.allowed (masked : Masked s) {op : Op} (heard : op.Heard s) : op.Allowed s := by
  cases op with
  | key scancode => exact masked.irq heard
  | execute fr exc command => exact heard
  | halt fr status => trivial
  | tick r fr => trivial
  | putc c => trivial

/-- **Step lemma.** A step keeps the mask right exactly if it does not switch the
displayed terminal. -/
theorem Masked.step_iff (masked : Masked s) (started : ∀ t, s.currPid t ≠ -1) {op : Op} (heard : op.Heard s) :
    Masked (op.run env s) ↔ KeepsTerminal s op := by
  cases op with
  | execute fr exc command =>
    exact iff_of_true (((SameMask.kept s).executeCall env fr exc command (.refl s)).masked masked) trivial
  | halt fr status => exact iff_of_true (((SameMask.kept s).sysHalt env fr status (.refl s)).masked masked) trivial
  | tick r fr => exact iff_of_true (tick_masked env r fr (started _) (started _)) trivial
  | putc c => exact iff_of_true ((SameMask.of_output (putc_output c s)).masked masked) trivial
  | key scancode =>
    constructor
    · intro after
      by_contra switches
      obtain ⟨mask, -, running⟩ := kbHandler_fields scancode s
      have irq : IrqEnabled kbIrqNum (kbHandler scancode s) := by
        rw [IrqEnabled, mask]
        exact heard
      have same : (kbHandler scancode s).currProcess = (kbHandler scancode s).currTer := after.irq irq
      exact kbHandler_switch switches (same.symm.trans (running.trans (masked.irq heard)))
    · intro keeps
      exact (kbHandler_mask keeps).masked masked

end Steps

/-! ## All runs -/

theorem JustBooted.afterBoot {env : Env} (loadable : ShellLoadable env) {s : Kernel} (booted : JustBooted env s) :
    AfterBoot s ∧ Masked s := by
  obtain ⟨s₀, r, fr, boot, rfl⟩ := booted
  obtain ⟨s', launched, shells, placed, -⟩ := boot.tick loadable r fr
  refine ⟨?_, boot_masked env r fr boot.next_empty ⟨_, s', launched⟩⟩
  rw [launched]
  exact afterBoot_iff.2 ⟨shells, placed⟩

theorem Consistent.started {s : Kernel} (consistent : Consistent s) (t : Term) : s.currPid t ≠ -1 := by
  obtain ⟨⟨F, tree⟩, -⟩ := consistent
  exact tree.currPid_ne t

/-- **Keys are heard by the displayed terminal only** in every run without a
switch of the displayed terminal; the next step breaks that exactly if it is such
a switch. -/
theorem masked_of_reach {env : Env} (loadable : ShellLoadable env) {s : Kernel}
    (reach : ((heardCalls env).restrict KeepsTerminal).Reach (JustBooted env) s) :
    Masked s ∧ ∀ op : Op, op.Heard s → (Masked (op.run env s) ↔ KeepsTerminal s op) := by
  have inv : Consistent s ∧ Masked s := by
    refine reach.invariant (P := fun s => Consistent s ∧ Masked s) ?_ ?_
    · intro s booted
      obtain ⟨boot, masked⟩ := booted.afterBoot loadable
      exact ⟨boot.consistent, masked⟩
    · rintro s op ⟨consistent, masked⟩ ⟨heard, keeps⟩
      exact ⟨consistent.step loadable (masked.allowed heard), (masked.step_iff consistent.started heard).2 keeps⟩
  exact ⟨inv.2, fun op heard => inv.2.step_iff inv.1.started heard⟩

theorem booted_justBooted : JustBooted shellEnv booted := by
  have boot₀ := (entry_init ⟨fun _ => 0, fun _ => .zero, 0x26, 0⟩).booting
  obtain ⟨s₁, tick₁, shells₁, placed₁, running₁⟩ := boot₀.tick shellEnv_loadable ⟨0, 0⟩ (.blank ⟨0, 0⟩)
  have boot₁ := boot₀.next_booting shells₁ placed₁ running₁ (by decide)
  obtain ⟨s₂, tick₂, shells₂, placed₂, running₂⟩ := boot₁.tick shellEnv_loadable ⟨0, 0⟩ (.blank ⟨0, 0⟩)
  refine ⟨s₂, ⟨0, 0⟩, .blank ⟨0, 0⟩, boot₁.next_booting shells₂ placed₂ running₂ (by decide), ?_⟩
  unfold booted
  simp only [TransitionSystem.exec_cons, TransitionSystem.exec_nil, atomicCalls, Op.run, tick₁, tick₂]

/-- The first tick after boot runs the displayed terminal and lets its keys through. -/
theorem booted_tick : IrqEnabled kbIrqNum (Op.run shellEnv (.tick ⟨0, 0⟩ (.blank ⟨0, 0⟩)) booted) ∧
    (Op.run shellEnv (.tick ⟨0, 0⟩ (.blank ⟨0, 0⟩)) booted).currTer = 0 := by
  obtain ⟨-, running, shown⟩ := booted_reach
  have started : ∀ t, booted.currPid t ≠ -1 := booted_afterBoot.consistent.started
  have same := tick_mask shellEnv ⟨0, 0⟩ (.blank ⟨0, 0⟩) (started _) (started _)
  have next : booted.currProcess + 1 = booted.currTer := by
    rw [running, shown]
    decide
  refine ⟨?_, same.currTer.trans ((maskKeyboard_currTer _ _).trans shown)⟩
  rw [IrqEnabled]
  exact (congrArg (fun m : UInt8 => m &&& ((1 : UInt8) <<< UInt8.ofNat kbIrqNum)) same.masterMask).trans
    ((maskKeyboard_spec _ booted).2.2 next)

/-- A tick, and the Alt key on the displayed terminal. -/
theorem masked_of_reach_alt : Masked ((heardCalls shellEnv).exec booted [.tick ⟨0, 0⟩ (.blank ⟨0, 0⟩), .key 0x38]) := by
  obtain ⟨heard, -⟩ := booted_tick
  have noFn : ∀ n : Term, (0x38 : UInt8) ≠ fnKey n := by decide
  have start : ((heardCalls shellEnv).restrict KeepsTerminal).Reach (JustBooted shellEnv) booted := .base booted_justBooted
  have tick := start.step (Op.tick ⟨0, 0⟩ (.blank ⟨0, 0⟩)) ⟨trivial, trivial⟩
  have alt := tick.step (Op.key 0x38) ⟨heard, fun n key => absurd key (noFn n)⟩
  exact (masked_of_reach shellEnv_loadable alt).1

/-- Alt and F2 inside the time slice of the displayed terminal: the keyboard is heard
while another terminal is displayed than the one that runs. -/
theorem keyboard_heard_elsewhere :
    ∃ s, (heardCalls shellEnv).Reach (JustBooted shellEnv) s ∧ IrqEnabled kbIrqNum s ∧ s.onScreen = true ∧
      s.currProcess ≠ s.currTer ∧ ¬ Masked s := by
  obtain ⟨heard, shown⟩ := booted_tick
  generalize ticked : Op.run shellEnv (.tick ⟨0, 0⟩ (.blank ⟨0, 0⟩)) booted = s at heard shown
  have masked : Masked s := by
    rw [← ticked]
    have started : ∀ t, booted.currPid t ≠ -1 := booted_afterBoot.consistent.started
    exact tick_masked shellEnv _ _ (started _) (started _)
  have start : (heardCalls shellEnv).Reach (JustBooted shellEnv) booted := .base booted_justBooted
  have tick := start.step_to (Op.tick ⟨0, 0⟩ (.blank ⟨0, 0⟩)) trivial ticked
  have pressed := kbHandler_alt true s
  have alt := tick.step_to (Op.key 0x38) heard pressed
  have switch := alt.step (Op.key 0x3C) heard
  have irq : IrqEnabled kbIrqNum (kbHandler 0x3C { s with altPressed := true }) := by
    rw [IrqEnabled, (kbHandler_fields _ _).1]
    exact heard
  have apart : (kbHandler 0x3C { s with altPressed := true }).currProcess
      ≠ (kbHandler 0x3C { s with altPressed := true }).currTer := by
    have switches : ¬ KeepsTerminal { s with altPressed := true } (.key 0x3C) :=
      fun keeps => absurd ((keeps 1 rfl rfl).trans shown) (by decide)
    have moved := kbHandler_switch switches
    rw [(kbHandler_fields _ _).2.2]
    exact fun same => moved (same.symm.trans (masked.irq heard))
  refine ⟨_, switch, irq, ?_, apart, fun after => apart (after.irq irq)⟩
  exact (kbHandler_fields _ _).2.1.trans (masked.onScreen.2 (masked.irq heard))

end BigBrainOS
