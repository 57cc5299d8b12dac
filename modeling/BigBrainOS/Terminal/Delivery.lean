import BigBrainOS.Terminal.Readers

/-!
# Delivery of a line

A process in `terminal_read` waits for Enter on its terminal and then copies the
line. `clear_buffer` erases the line of the displayed terminal, not that of the
terminal whose reader calls it: a line is delivered exactly if no reader of
another terminal comes to `clear_buffer` between Enter and the copy while the
terminal is displayed.
-/

namespace BigBrainOS
set_option autoImplicit false

/-! ## Runs on two terminals -/

section Scenes
variable {s : Kernel}

theorem ReadStage.run_view (stage : ReadStage) (c : ReadCall) (s : Kernel) : (stage.run c s).2.view = s.view := by
  cases stage with
  | reset => exact (Typed.setTerminal s s.currProcess rfl rfl).view
  | wait =>
    simp only [ReadStage.run]
    split <;> rfl
  | clear => exact (Typed.setTerminal s s.currTer rfl rfl).view
  | _ => rfl

/-- The space bar types a blank, whatever modifier keys are down. -/
theorem kbHandler_space (s : Kernel) : kbHandler 0x39 s = printChar 0x20 s := by
  have plain : PlainKey 0x39 0x20 := by decide +kernel
  exact kbHandler_plain s plain (by decide)

/-- A blank on an empty line. -/
theorem space_line (empty : (s.terminals s.currTer).bufLen = 0) :
    (kbHandler 0x39 s).currTer = s.currTer ∧ ((kbHandler 0x39 s).terminals s.currTer).lineText = [0x20] ∧
      ((kbHandler 0x39 s).terminals s.currTer).bufferUpdated = (s.terminals s.currTer).bufferUpdated ∧
      ∀ t, t ≠ s.currTer → SameLine (s.terminals t) ((kbHandler 0x39 s).terminals t) := by
  have room : ¬ (s.terminals s.currTer).bufLen ≥ bufSize - 1 := by rw [empty]; decide
  rw [kbHandler_space]
  simp only [printChar, if_neg room]
  generalize stored : s.setTerminal s.currTer (fun t =>
    { t with typing := Function.update t.typing t.bufLen 0x20, bufLen := t.bufLen + 1 }) = s₁
  have printed := SameLines.of_output (putc_output 0x20 s₁)
  have line := printed.line s.currTer
  rw [← stored, Kernel.setTerminal_self] at line
  refine ⟨?_, ?_, ?_, fun t other => ?_⟩
  · rw [printed.currTer, ← stored]
    rfl
  · rw [TerminalState.lineText, ← stored, line.bufLen, line.typing]
    simp only [empty, Nat.zero_add, List.range_one, List.map_cons, List.map_nil, Function.update_self]
  · rw [← stored]
    exact line.bufferUpdated
  · have line := printed.line t
    rw [← stored, Kernel.setTerminal_of_ne _ _ other] at line
    rw [← stored]
    exact line

/-- A tick hands the processor to the next terminal. -/
theorem tick_consistent (consistent : Consistent s) :
    (Op.run shellEnv (.tick ⟨0, 0⟩ (.blank ⟨0, 0⟩)) s).currProcess = s.currProcess + 1 ∧
      Consistent (Op.run shellEnv (.tick ⟨0, 0⟩ (.blank ⟨0, 0⟩)) s) := by
  obtain ⟨⟨F, tree⟩, -⟩ := id consistent
  obtain ⟨s', switched, view⟩ := switchRunningProcess_switch shellEnv ⟨0, 0⟩ (.blank ⟨0, 0⟩)
    (tree.currPid_ne s.currProcess) (tree.currPid_ne _)
  have run : Op.run shellEnv (.tick ⟨0, 0⟩ (.blank ⟨0, 0⟩)) s = s' := congrArg Prod.snd switched
  refine ⟨?_, consistent.step shellEnv_loadable (by exact trivial)⟩
  rw [run]
  exact congrArg ProcView.currProcess view

/-- Alt with F2 displays the second terminal. -/
theorem altF2 (first : s.currTer = 0) :
    (kbHandler 0x3C (kbHandler 0x38 s)).terminals = s.terminals ∧ (kbHandler 0x3C (kbHandler 0x38 s)).currTer = 1 := by
  have alt : kbHandler 0x38 s = { s with altPressed := true } := by simp [kbHandler, modifierKey]
  have down : (60 : UInt8) &&& 128 = 0 := by decide
  have f2 : kbHandler 0x3C { s with altPressed := true } = switchTerminal 1 { s with altPressed := true } := by
    simp [kbHandler, modifierKey, keyDown, down]
  have other : s.currTer ≠ 1 := by rw [first]; decide
  rw [alt, f2, switchTerminal, if_pos other]
  exact ⟨rfl, rfl⟩

end Scenes

/-! ### Statements in a row -/

section Nexts
variable {env : Env} {q : LineRun} {t : Term}

theorem LineRun.next_view (q : LineRun) : q.next.kernel.view = q.kernel.view := by
  unfold LineRun.next
  split
  · rfl
  · next c stage _ => exact stage.run_view c q.kernel

theorem LineRun.next_currProcess (q : LineRun) : q.next.kernel.currProcess = q.kernel.currProcess :=
  congrArg ProcView.currProcess q.next_view

theorem allowed_nexts (n : Nat) : ∀ q, ((lineCalls env).restrict (SameCall t)).Allowed q (List.replicate n .next) := by
  induction n with
  | zero => exact fun _ => trivial
  | succ n ih => exact fun q => ⟨⟨trivial, trivial⟩, ih _⟩

/-- Statements of the call itself, in a row. -/
theorem nexts_own (env : Env) (n : Nat) : ∀ {q : LineRun}, q.kernel.currProcess = t →
    ownSteps env t q (List.replicate n .next) = n ∧ erasedDuring env t q (List.replicate n .next) = false := by
  induction n with
  | zero => exact fun _ => ⟨rfl, rfl⟩
  | succ n ih =>
    intro q own
    obtain ⟨steps, kept⟩ := ih (q.next_currProcess.trans own)
    constructor
    · show q.own t .next + ownSteps env t q.next (List.replicate n .next) = n + 1
      rw [steps, LineRun.own, if_pos own, Nat.add_comm]
    · show (q.erases t .next || erasedDuring env t q.next (List.replicate n .next)) = false
      rw [kept, LineRun.own_not_erases own]
      rfl

theorem ownSteps_append (env : Env) (t : Term) (ops ops' : List LineOp) :
    ∀ q, ownSteps env t q (ops ++ ops') = ownSteps env t q ops + ownSteps env t ((lineCalls env).exec q ops) ops' := by
  induction ops with
  | nil => exact fun q => (Nat.zero_add _).symm
  | cons op ops ih =>
    intro q
    rw [List.cons_append, ownSteps, ownSteps, ih, Nat.add_assoc]
    rfl

theorem erasedDuring_append (env : Env) (t : Term) (ops ops' : List LineOp) :
    ∀ q, erasedDuring env t q (ops ++ ops') =
      (erasedDuring env t q ops || erasedDuring env t ((lineCalls env).exec q ops) ops') := by
  induction ops with
  | nil => exact fun q => rfl
  | cons op ops ih =>
    intro q
    rw [List.cons_append, erasedDuring, erasedDuring, ih, Bool.or_assoc]
    rfl

theorem allowed_append {M : TransitionSystem LineRun LineOp} {ops ops' : List LineOp} :
    ∀ {q}, M.Allowed q ops → M.Allowed (M.exec q ops) ops' → M.Allowed q (ops ++ ops') := by
  induction ops with
  | nil => exact fun _ rest => rest
  | cons op ops ih => exact fun first rest => ⟨first.1, ih first.2 rest⟩

/-- A reader whose line is there comes to `clear_buffer` without touching the kernel. -/
theorem nexts_clear (env : Env) {c : ReadCall} (reader : q.reader q.kernel.currProcess = some (c, .wait))
    (updated : (q.kernel.terminals q.kernel.currProcess).bufferUpdated = true) :
    ∃ finalBuf, (lineCalls env).exec q (List.replicate 3 .next) =
      ⟨q.kernel, Function.update q.reader q.kernel.currProcess (some (c, .clear finalBuf))⟩ := by
  have first : q.next = ⟨q.kernel, Function.update q.reader q.kernel.currProcess (some (c, .copy))⟩ := by
    simp only [LineRun.next, reader, ReadStage.run, updated, if_true]
  refine ⟨endLine c.count 0 (Function.update
    (memcpy c.old (q.kernel.terminals q.kernel.currProcess).typed c.count) (c.count - 1) 0), ?_⟩
  show q.next.next.next = _
  rw [first]
  simp only [LineRun.next, Function.update_self, Function.update_idem, ReadStage.run]

end Nexts

/-- A state of a run, with the terminal that runs and the one that is displayed. -/
structure Scene (q : LineRun) (cur shown : Term) : Prop where
  reach : (lineCalls shellEnv).Reach LineRun.Start q
  running : q.kernel.currProcess = cur
  displayed : q.kernel.currTer = shown

/-- No line has been begun or completed. -/
def LineRun.Blank (q : LineRun) : Prop :=
  ∀ t, (q.kernel.terminals t).bufLen = 0 ∧ (q.kernel.terminals t).bufferUpdated = false

namespace Scene
variable {q : LineRun} {cur shown : Term}

theorem call (scene : Scene q cur shown) {op : Op} (ok : (lineCalls shellEnv).ok q (.call op)) {s' : Kernel}
    (run : op.run shellEnv q.kernel = s') : (lineCalls shellEnv).Reach LineRun.Start ⟨s', q.reader⟩ := by
  refine scene.reach.step_to (.call op) ok ?_
  rw [← run]
  rfl

/-- The tick that launches the next base shell. -/
theorem boot (scene : Scene q cur shown) {k : Nat} (boot : Booting q.kernel.view k) (blank : q.Blank) :
    ∃ s', Scene ⟨s', q.reader⟩ (cur + 1) shown ∧ LineRun.Blank ⟨s', q.reader⟩ ∧ Shells s'.view (k + 1) ∧ s'.view.Placed ∧
      (k + 1 < 3 → Booting s'.view (k + 1)) := by
  obtain ⟨s', launched, shells, placed, running⟩ := boot.tick shellEnv_loadable ⟨0, 0⟩ (.blank ⟨0, 0⟩)
  have run : Op.run shellEnv (.tick ⟨0, 0⟩ (.blank ⟨0, 0⟩)) q.kernel = s' := congrArg Prod.snd launched
  have same := SameLines.tick shellEnv ⟨0, 0⟩ (.blank ⟨0, 0⟩) q.kernel
  rw [launched] at same
  refine ⟨s', ⟨scene.call (by exact trivial) run, ?_, ?_⟩, fun t => ?_, shells, placed, fun more => ?_⟩
  · rw [← scene.running]
    exact running
  · exact same.currTer.trans scene.displayed
  · exact ⟨(same.line t).bufLen.trans (blank t).1, (same.line t).bufferUpdated.trans (blank t).2⟩
  · exact boot.next_booting shells placed running more

/-- A tick between two processes. -/
theorem tick (scene : Scene q cur shown) (consistent : Consistent q.kernel) :
    ∃ s', Scene ⟨s', q.reader⟩ (cur + 1) shown ∧ Consistent s' ∧ SameLines q.kernel s' := by
  obtain ⟨running, after⟩ := tick_consistent consistent
  have same := SameLines.tick shellEnv ⟨0, 0⟩ (.blank ⟨0, 0⟩) q.kernel
  have ok : (lineCalls shellEnv).ok q (.call (.tick ⟨0, 0⟩ (.blank ⟨0, 0⟩))) := trivial
  refine ⟨_, ⟨scene.call ok rfl, ?_, ?_⟩, after, same⟩
  · rw [← scene.running]
    exact running
  · exact same.currTer.trans scene.displayed

/-- The running process calls `terminal_read` and comes to wait. -/
theorem startRead (scene : Scene q cur shown) (idle : q.reader cur = none) (blank : q.Blank) (c : ReadCall) :
    ∃ q', Scene q' cur shown ∧ q'.Blank ∧ q'.kernel.view = q.kernel.view ∧
      q'.reader = Function.update q.reader cur (some (c, .wait)) := by
  have running := scene.running
  subst running
  have free : q.Idle q.kernel.currProcess := by simp only [LineRun.Idle, idle]
  have called := (scene.reach.step (LineOp.read c) free).step LineOp.next trivial
  have next : (q.read c).next = ⟨resetUpdated q.kernel, Function.update q.reader q.kernel.currProcess (some (c, .wait))⟩ := by
    simp only [LineRun.next, LineRun.read, Function.update_self, ReadStage.run, Function.update_idem]
  refine ⟨(q.read c).next, ⟨called, ?_, ?_⟩, fun t => ?_, ?_, ?_⟩
  · rw [next]; rfl
  · rw [next]; exact scene.displayed
  · rw [next]
    unfold resetUpdated
    by_cases own : t = q.kernel.currProcess
    · rw [own, Kernel.setTerminal_self]; exact ⟨(blank _).1, rfl⟩
    · rw [Kernel.setTerminal_of_ne _ _ own]; exact blank t
  · rw [next]
    exact (Typed.setTerminal q.kernel q.kernel.currProcess rfl rfl).view
  · rw [next]

/-- A key leaves the running process where it is. -/
theorem key (scene : Scene q cur shown) (scancode : UInt8) {shown' : Term}
    (displayed : (kbHandler scancode q.kernel).currTer = shown') :
    Scene ⟨kbHandler scancode q.kernel, q.reader⟩ cur shown' := by
  have ok : (lineCalls shellEnv).ok q (.call (.key scancode)) := trivial
  refine ⟨scene.call ok rfl, ?_, displayed⟩
  rw [← scene.running]
  exact congrArg ProcView.currProcess (kbHandler_typed scancode q.kernel).view

end Scene

/-- A call that asks for the whole line. -/
def wholeLine : ReadCall := ⟨128, fun _ => 0, fun _ => 0, by decide⟩

/-- The start of every run below. -/
def freshLines : LineRun := ⟨entry ⟨fun _ => 0, fun _ => .zero, 0x26, 0⟩, fun _ => none⟩

theorem freshLines_scene : Scene freshLines 2 0 ∧ freshLines.Blank ∧ Booting freshLines.kernel.view 0 :=
  ⟨⟨.base ⟨⟨_, rfl⟩, fun _ => rfl⟩, rfl, rfl⟩, fun _ => ⟨rfl, rfl⟩, (entry_init _).booting⟩

/-- The first two base shells wait for a line, and the first one runs. -/
theorem waiting_readers : ∃ q, Scene q 0 0 ∧ Consistent q.kernel ∧ q.Blank ∧ q.reader 0 = some (wholeLine, .wait) ∧
    q.reader 1 = some (wholeLine, .wait) := by
  obtain ⟨start, blank, booting⟩ := freshLines_scene
  obtain ⟨s₁, scene₁, blank₁, -, -, next₁⟩ := start.boot booting blank
  obtain ⟨q₂, scene₂, blank₂, view₂, reader₂⟩ := scene₁.startRead rfl blank₁ wholeLine
  have booting₂ : Booting q₂.kernel.view 1 := by
    rw [view₂]
    exact next₁ (by decide)
  obtain ⟨s₃, scene₃, blank₃, -, -, next₃⟩ := scene₂.boot booting₂ blank₂
  have idle : q₂.reader 1 = none := by
    rw [reader₂]
    rfl
  obtain ⟨q₄, scene₄, blank₄, view₄, reader₄⟩ := scene₃.startRead idle blank₃ wholeLine
  have booting₄ : Booting q₄.kernel.view 2 := by
    rw [view₄]
    exact next₃ (by decide)
  obtain ⟨s₅, scene₅, blank₅, shells, placed, -⟩ := scene₄.boot booting₄ blank₄
  obtain ⟨s₆, scene₆, consistent₆, same₆⟩ := scene₅.tick (afterBoot_iff.2 ⟨shells, placed⟩).consistent
  refine ⟨⟨s₆, q₄.reader⟩, scene₆, consistent₆, fun t => ?_, ?_, ?_⟩
  · exact ⟨(same₆.line t).bufLen.trans (blank₅ t).1, (same₆.line t).bufferUpdated.trans (blank₅ t).2⟩
  · simp only [reader₄, reader₂]
    rfl
  · simp only [reader₄]
    rfl

/-- Enter for the first shell and the keys that switch to the second terminal arrive
before the first shell runs on, and a blank is typed on the second terminal. -/
theorem two_readers : ∃ q, Scene q 0 1 ∧ Consistent q.kernel ∧ q.reader 0 = some (wholeLine, .wait) ∧
    (q.kernel.terminals 0).bufferUpdated = true ∧ q.reader 1 = some (wholeLine, .wait) ∧
    (q.kernel.terminals 1).bufferUpdated = false ∧ (q.kernel.terminals 1).lineText = [0x20] := by
  obtain ⟨q, scene, consistent, blank, first, second⟩ := waiting_readers
  have shown := scene.displayed
  have lines := enterKey_lines q.kernel
  rw [← kbHandler_enter, shown] at lines
  generalize entered : kbHandler enterScancode q.kernel = s₁ at lines
  have scene₁ : Scene ⟨s₁, q.reader⟩ 0 0 := by
    rw [← entered]
    exact scene.key enterScancode (by rw [entered]; exact lines.currTer.trans shown)
  obtain ⟨terminals, shown₂⟩ := altF2 scene₁.displayed
  have scene₂ := (scene₁.key 0x38 rfl).key 0x3C shown₂
  generalize switched : kbHandler 0x3C (kbHandler 0x38 s₁) = s₂ at terminals scene₂
  have empty : (s₂.terminals s₂.currTer).bufLen = 0 := by
    rw [scene₂.displayed, terminals, (lines.line 1).bufLen, Kernel.setTerminal_of_ne _ _ (by decide)]
    exact (blank 1).1
  obtain ⟨displayed, line, updated, others⟩ := space_line empty
  rw [show s₂.currTer = 1 from scene₂.displayed] at displayed line updated others
  refine ⟨_, scene₂.key 0x39 displayed, ?_, first, ?_, second, ?_, line⟩
  · have view : (kbHandler 0x39 s₂).view = q.kernel.view := by
      rw [(kbHandler_typed 0x39 s₂).view, ← switched, (kbHandler_typed 0x3C _).view, (kbHandler_typed 0x38 s₁).view,
        ← entered, (kbHandler_typed enterScancode q.kernel).view]
    show Consistent (kbHandler 0x39 s₂)
    rw [Consistent, view]
    exact consistent
  · show ((kbHandler 0x39 s₂).terminals 0).bufferUpdated = true
    rw [(others 0 (by decide)).bufferUpdated, terminals, (lines.line 0).bufferUpdated, Kernel.setTerminal_self]
    rfl
  · show ((kbHandler 0x39 s₂).terminals 1).bufferUpdated = false
    rw [updated, terminals, (lines.line 1).bufferUpdated, Kernel.setTerminal_of_ne _ _ (by decide)]
    exact (blank 1).2

/-- From there the first reader clears the line of the second, and the second returns. -/
theorem erasing_run {q : LineRun} (consistent : Consistent q.kernel) (running : q.kernel.currProcess = 0)
    (shown : q.kernel.currTer = 1) (first : q.reader 0 = some (wholeLine, .wait))
    (updated : (q.kernel.terminals 0).bufferUpdated = true) (second : q.reader 1 = some (wholeLine, .wait)) :
    ∃ ops, ((lineCalls shellEnv).restrict (SameCall 1)).Allowed q ops ∧ 6 ≤ ownSteps shellEnv 1 q ops ∧
      erasedDuring shellEnv 1 q ops = true := by
  obtain ⟨finalBuf, cleared⟩ := @nexts_clear q shellEnv wholeLine (by rw [running]; exact first)
    (by rw [running]; exact updated)
  rw [running] at cleared
  generalize atClear : (lineCalls shellEnv).exec q (List.replicate 3 .next) = q₁ at cleared
  have erases : q₁.erases 1 .next = true := by
    rw [cleared]
    simp only [LineRun.erases, running, shown, Function.update_self]
    rw [Function.update_of_ne (by decide), second]
    rfl
  have running₁ : q₁.kernel.currProcess = 0 := by rw [cleared]; exact running
  have consistent₁ : Consistent q₁.next.kernel := by
    rw [Consistent, q₁.next_view, cleared]
    exact consistent
  have running₂ : ((lineCalls shellEnv).exec q₁ [.next, .call (.tick ⟨0, 0⟩ (.blank ⟨0, 0⟩))]).kernel.currProcess = 1 := by
    have next := (tick_consistent consistent₁).1
    rw [q₁.next_currProcess, running₁] at next
    exact next
  obtain ⟨steps, -⟩ := nexts_own shellEnv 6 running₂
  refine ⟨List.replicate 3 .next ++ ([.next, .call (.tick ⟨0, 0⟩ (.blank ⟨0, 0⟩))] ++ List.replicate 6 .next), ?_, ?_, ?_⟩
  · refine allowed_append (allowed_nexts 3 _) (allowed_append ?_ (allowed_nexts 6 _))
    exact ⟨⟨trivial, trivial⟩, ⟨trivial, trivial⟩, trivial⟩
  · rw [ownSteps_append, ownSteps_append, atClear, steps]
    omega
  · rw [erasedDuring_append, atClear, List.cons_append, erasedDuring, erases, Bool.true_or, Bool.or_true]

/-! ## All runs -/

/-- **Line delivery.** Enter completes a line while a process waits for it in `terminal_read`, and
is not pressed again on its terminal. However the run goes on, six further statements of the call complete it,
and when it has returned its buffer holds the line exactly if nothing is left of the line once it is cut or no
`clear_buffer` of another terminal's reader met it between Enter and the copy. -/
theorem delivers_iff_not_erased {env : Env} {q : LineRun} (reach : (lineCalls env).Reach LineRun.Start q) {t : Term}
    {c : ReadCall} (waiting : q.reader t = some (c, .wait)) (shown : q.kernel.currTer = t) {ops : List LineOp}
    (run : ((lineCalls env).restrict (SameCall t)).Allowed ((lineCalls env).next q (.call (.key enterScancode))) ops) :
    let line := (q.kernel.terminals t).lineText
    let q₁ := (lineCalls env).next q (.call (.key enterScancode))
    (6 ≤ ownSteps env t q₁ ops →
      ∃ buf value, ((lineCalls env).exec q₁ ops).reader t = some (c, .returned buf value)) ∧
    ∀ buf value, ((lineCalls env).exec q₁ ops).reader t = some (c, .returned buf value) →
      value = line.length + 1 ∧
        (Delivers c.nbytes buf line ↔ line.take (c.nbytes.toNat - 1) = [] ∨ erasedDuring env t q₁ ops = false) := by
  intro line q₁
  have editable := editable_of_reach reach t
  have isLine : IsLine line := editable.isLine
  obtain ⟨stage, reader, carries, left⟩ :=
    (enter_carries env c shown).run (show q₁.reader t = some (c, .wait) from waiting) isLine run
  constructor
  · intro enough
    have rest : stage.left = 6 - ownSteps env t q₁ ops := left
    have done : stage.left = 0 := by omega
    cases stage with
    | returned buf value => exact ⟨buf, value, reader⟩
    | _ => cases done
  · intro buf value returned
    have same : stage = .returned buf value := by
      rw [reader] at returned
      exact (Prod.mk.inj (Option.some.inj returned)).2
    subst same
    obtain ⟨written, delivers⟩ := carries
    refine ⟨by rw [written]; push_cast; rfl, ?_⟩
    cases erased : erasedDuring env t q₁ ops
    · rw [erased] at delivers
      exact ⟨fun _ => .inr rfl, fun _ => delivers⟩
    · rw [erased] at delivers
      constructor
      · exact fun delivered => .inl (delivered.unique delivers isLine.text)
      · rintro (cut | h)
        · unfold Delivers
          rw [cut]
          simpa [Delivers] using delivers
        · cases h

/-- A base shell reads the line of one blank that is typed while it waits. -/
theorem delivers_blank : ∃ (q : LineRun) (buf : Bytes) (value : Int), (lineCalls shellEnv).Reach LineRun.Start q ∧
    q.reader 0 = some (wholeLine, .wait) ∧ (q.kernel.terminals 0).lineText = [0x20] ∧
    ((lineCalls shellEnv).exec ((lineCalls shellEnv).next q (.call (.key enterScancode)))
      (List.replicate 6 .next)).reader 0 = some (wholeLine, .returned buf value) ∧ Delivers wholeLine.nbytes buf [0x20] := by
  obtain ⟨start, blank, booting⟩ := freshLines_scene
  obtain ⟨s₁, scene₁, blank₁, -⟩ := start.boot booting blank
  obtain ⟨q₂, scene₂, blank₂, -, reader₂⟩ := scene₁.startRead rfl blank₁ wholeLine
  obtain ⟨displayed, line, -⟩ := space_line (blank₂ q₂.kernel.currTer).1
  rw [scene₂.displayed] at displayed line
  have scene := scene₂.key 0x39 displayed
  have waiting : q₂.reader 0 = some (wholeLine, .wait) := by
    rw [reader₂]
    exact Function.update_self _ _ _
  have displayed' : (kbHandler enterScancode (kbHandler 0x39 q₂.kernel)).currTer = 0 := by
    rw [kbHandler_enter]
    exact (enterKey_lines _).currTer.trans displayed
  have entered := scene.key enterScancode displayed'
  have own : ((lineCalls shellEnv).next ⟨kbHandler 0x39 q₂.kernel, q₂.reader⟩ (.call (.key enterScancode))).kernel.currProcess
      = 0 := entered.running
  obtain ⟨steps, kept⟩ := nexts_own shellEnv 6 own
  obtain ⟨done, result⟩ := delivers_iff_not_erased scene.reach waiting displayed (allowed_nexts 6 _)
  obtain ⟨buf, value, returned⟩ := done (Nat.le_of_eq steps.symm)
  have delivers := (result buf value returned).2.2 (.inr kept)
  rw [line] at delivers
  exact ⟨_, buf, value, scene.reach, waiting, line, returned, delivers⟩

/-- Enter on the second terminal, then: the first reader clears the line of the second,
which is displayed, before the second has copied it, and the blank is lost. -/
theorem line_lost : ∃ (q : LineRun) (ops : List LineOp) (buf : Bytes) (value : Int),
    (lineCalls shellEnv).Reach LineRun.Start q ∧ q.reader 1 = some (wholeLine, .wait) ∧
    (q.kernel.terminals 1).bufferUpdated = false ∧ q.kernel.currTer = 1 ∧ (q.kernel.terminals 1).lineText = [0x20] ∧
    ((lineCalls shellEnv).restrict (SameCall 1)).Allowed
      ((lineCalls shellEnv).next q (.call (.key enterScancode))) ops ∧
    ((lineCalls shellEnv).exec ((lineCalls shellEnv).next q (.call (.key enterScancode))) ops).reader 1 =
      some (wholeLine, .returned buf value) ∧ ¬ Delivers wholeLine.nbytes buf [0x20] := by
  obtain ⟨q, scene, consistent, first, updated, second, waiting, line⟩ := two_readers
  have shown := scene.displayed
  have lines := enterKey_lines q.kernel
  rw [← kbHandler_enter, shown] at lines
  generalize entered : (lineCalls shellEnv).next q (.call (.key enterScancode)) = q₁
  have kernel₁ : q₁.kernel = kbHandler enterScancode q.kernel := by rw [← entered]; rfl
  have reader₁ : q₁.reader = q.reader := by rw [← entered]; rfl
  have view₁ : q₁.kernel.view = q.kernel.view := by rw [kernel₁]; exact (kbHandler_typed enterScancode q.kernel).view
  have updated₁ : (q₁.kernel.terminals 0).bufferUpdated = true := by
    rw [kernel₁, (lines.line 0).bufferUpdated, Kernel.setTerminal_of_ne _ _ (by decide)]
    exact updated
  obtain ⟨ops, allowed, enough, erased⟩ := erasing_run (by rw [Consistent, view₁]; exact consistent)
    ((congrArg ProcView.currProcess view₁).trans scene.running) (by rw [kernel₁]; exact lines.currTer.trans shown)
    (by rw [reader₁]; exact first) updated₁ (by rw [reader₁]; exact second)
  have editable := editable_of_reach scene.reach 1
  have carries := enter_carries shellEnv wholeLine shown
  rw [entered] at carries
  obtain ⟨stage, reader, carries', left⟩ := carries.run (by rw [reader₁]; exact second) editable.isLine allowed
  have rest : stage.left = 6 - ownSteps shellEnv 1 q₁ ops := left
  have done : stage.left = 0 := by omega
  rw [erased] at carries'
  cases stage with
  | returned buf value =>
    refine ⟨q, ops, buf, value, scene.reach, second, waiting, shown, line, ?_, ?_, fun delivers => ?_⟩
    · rw [entered]; exact allowed
    · rw [entered]; exact reader
    · rw [← line] at delivers
      have cut := delivers.unique carries'.2 editable.isLine.text
      rw [line] at cut
      exact absurd cut (by decide)
  | _ => cases done

end BigBrainOS
