import BigBrainOS.System.Calls

/-!
# What the calls do besides printing

`OwnRecords` says how far a descriptor call, a store of a waiting handler or a
clock interrupt reaches: one control block, the divisors of the others, the RTC
and the input lines. Everything that concerns memory, mappings, the screen or
the process tree follows from it at once.
-/

namespace BigBrainOS
set_option autoImplicit false

/-- A terminal after a reader took its line. -/
def SameButLine (t t' : TerminalState) : Prop := ∃ typed updated, t' = { t with typed := typed, bufferUpdated := updated }

theorem SameButLine.refl (t : TerminalState) : SameButLine t t := ⟨_, _, rfl⟩

theorem SameButLine.trans {a b c : TerminalState} (h : SameButLine a b) (h' : SameButLine b c) : SameButLine a c := by
  obtain ⟨typed, updated, rfl⟩ := h
  obtain ⟨typed', updated', rfl⟩ := h'
  exact ⟨typed', updated', rfl⟩

/-- `s'` is `s` after a call on the block at `addr`: its links are kept, of the
other blocks only divisors may differ, and of the globals only those of the RTC. -/
def OwnRecords (addr : Nat) (s s' : Kernel) : Prop :=
  ∃ ps ts f reg flags,
    s' = { s with pcbs := ps, terminals := ts, higherFreq := f, rtcRegA := reg, rtcInterruptFlags := flags } ∧
      (∀ a, (ps a).links = (s.pcbs a).links) ∧ (∀ a, a ≠ addr → SameButDivisor (s.pcbs a) (ps a)) ∧
      ∀ t, SameButLine (s.terminals t) (ts t)

theorem SameButDivisor.refl (p : Pcb) : SameButDivisor p p := ⟨_, rfl⟩

theorem SameButDivisor.links {p p' : Pcb} (h : SameButDivisor p p') : p'.links = p.links := by
  obtain ⟨d, rfl⟩ := h
  rfl

namespace OwnRecords
variable {addr : Nat} {s s' s'' : Kernel}

theorem refl (addr : Nat) (s : Kernel) : OwnRecords addr s s :=
  ⟨_, _, _, _, _, rfl, fun _ => rfl, fun _ _ => .refl _, fun _ => .refl _⟩

theorem trans (h : OwnRecords addr s s') (h' : OwnRecords addr s' s'') : OwnRecords addr s s'' := by
  obtain ⟨ps, ts, f, reg, flags, rfl, links, others, lines⟩ := h
  obtain ⟨ps', ts', f', reg', flags', rfl, links', others', lines'⟩ := h'
  refine ⟨ps', ts', f', reg', flags', rfl, fun a => (links' a).trans (links a), fun a other => ?_, fun t => ?_⟩
  · exact (others a other).trans (others' a other)
  · exact (lines t).trans (lines' t)

/-- An update of the block that keeps its links. -/
theorem setPcb (s : Kernel) (addr : Nat) {f : Pcb → Pcb} (links : ∀ pcb, (f pcb).links = pcb.links) :
    OwnRecords addr s (s.setPcb addr f) := by
  refine ⟨_, _, _, _, _, rfl, fun a => ?_, fun a other => ?_, fun _ => .refl _⟩
  · revert a
    apply s.setPcb_forall (P := fun a pcb => pcb.links = (s.pcbs a).links)
    · exact links _
    · exact fun _ _ => rfl
  · rw [Function.update_of_ne other]
    exact .refl _

theorem of_reprogrammed (h : Reprogrammed s s') : OwnRecords addr s s' := by
  obtain ⟨f, reg, ps, rfl, same⟩ := h
  exact ⟨_, _, _, _, _, rfl, fun a => (same a).links, fun a _ => same a, fun _ => .refl _⟩

/-- An update of one input line. -/
theorem setTerminal (s : Kernel) (t : Term) (f : TerminalState → TerminalState)
    (line : SameButLine (s.terminals t) (f (s.terminals t))) : OwnRecords addr s (s.setTerminal t f) := by
  refine ⟨_, _, _, _, _, rfl, fun _ => rfl, fun _ _ => .refl _, ?_⟩
  apply s.setTerminal_forall (P := fun u ts => SameButLine (s.terminals u) ts)
  · exact line
  · exact fun _ _ => .refl _

theorem view (h : OwnRecords addr s s') : s'.view = s.view := by
  obtain ⟨ps, ts, f, reg, flags, rfl, links, -, lines⟩ := h
  have curr : (fun t => (ts t).progCurrPid) = fun t => (s.terminals t).progCurrPid := by
    funext t; obtain ⟨typed, updated, e⟩ := lines t; rw [e]
  have par : (fun t => (ts t).progParPid) = fun t => (s.terminals t).progParPid := by
    funext t; obtain ⟨typed, updated, e⟩ := lines t; rw [e]
  have blocks : (fun a => (ps a).links) = fun a => (s.pcbs a).links := funext links
  ext1 <;> first | rfl | exact curr | exact par | exact blocks

theorem quiet (h : OwnRecords addr s s') : Quiet s s' := by
  obtain ⟨ps, ts, f, reg, flags, rfl, -, -, lines⟩ := h
  refine ⟨rfl, rfl, fun t => ?_, fun t => ?_, rfl, rfl, rfl, rfl⟩
  · obtain ⟨typed, updated, e⟩ := lines t
    simp only [e]
  · obtain ⟨typed, updated, e⟩ := lines t
    simp only [e]

end OwnRecords

/-! ## The calls -/

section Calls
variable {s : Kernel} {r : Regs}

theorem setFd_own (s : Kernel) (r : Regs) (fd : Fd) (f : FdtEntry → FdtEntry) :
    OwnRecords (getCurrPcb r.esp) s (s.setFd r fd f) := by
  apply OwnRecords.setPcb
  exact fun _ => rfl

/-- `sys_open`, on the stack of the running process. -/
theorem sysOpen_own (block : getCurrPcb r.esp = getPcbByPid s.running) (img : Image) (filename : Bytes) :
    OwnRecords (getPcbByPid s.running) s (sysOpen img r filename s).2 := by
  cases found : img.readDentryByName filename with
  | none => rw [sysOpen_absent found]; exact .refl _ _
  | some file =>
  cases free : getNewFd (s.currPcb r) with
  | none => rw [sysOpen_full free]; exact .refl _ _
  | some fd =>
    simp only [sysOpen, found, free]
    have stored : OwnRecords (getPcbByPid s.running) s ((resetStdio r (s.setFd r fd fun e => { e with enabled := true })).setFd
        r fd fun _ => ⟨some (openFot filename file), file.inodeNum, 0, true, file.fileType = 2⟩) := by
      rw [← block]
      exact (((setFd_own _ _ _ _).trans (setFd_own _ _ _ _)).trans (setFd_own _ _ _ _)).trans (setFd_own _ _ _ _)
    have same : Kernel.running _ = s.running := congrArg (fun v : ProcView => v.curr v.currProcess) stored.view
    refine stored.trans ?_
    rw [← same]
    unfold openHandler rtcOpen
    split
    · dsimp only
      split
      · exact .refl _ _
      · refine OwnRecords.trans ?_ (.of_reprogrammed (rtcSetFrequency_reprogrammed _ _))
        apply OwnRecords.setPcb
        exact fun _ => rfl
    · exact .refl _ _

theorem sysClose_own (block : getCurrPcb r.esp = getPcbByPid s.running) (fd : Fd) :
    OwnRecords (getPcbByPid s.running) s (sysClose r fd s).2 := by
  have disabled := setFd_own s r fd fun e => { e with enabled := false }
  rw [block] at disabled
  unfold sysClose
  dsimp only
  split
  · exact .refl _ _
  · split
    · exact disabled
    · exact disabled.trans (.of_reprogrammed (closeFile_reprogrammed _ _))

theorem readCall_own (block : getCurrPcb r.esp = getPcbByPid s.running) (img : Image) (fd : Fd) (buf : Option Bytes)
    (nbytes : Int) : OwnRecords (getPcbByPid s.running) s (readCall img r fd buf nbytes s) := by
  rw [← block]
  unfold readCall
  split
  · unfold fileRead
    dsimp only
    split
    · exact setFd_own s r fd fun e => { e with filePosition := (e.filePosition + (2 ^ 32 - 1)) % 2 ^ 32 }
    · next bytes _ => exact setFd_own s r fd fun e => { e with filePosition := (e.filePosition + bytes.length) % 2 ^ 32 }
  · unfold dirRead
    dsimp only
    split
    · exact .refl _ _
    · split
      · exact .refl _ _
      · exact setFd_own s r fd fun e => { e with filePosition := (e.filePosition + 1) % 2 ^ 32 }
  · exact .refl _ _

theorem rtcWrite_own (buf : Option (BitVec 32)) (nbytes : Int) (s : Kernel) :
    OwnRecords (getPcbByPid s.running) s (rtcWrite buf nbytes s).2 := by
  have request : ∀ freq : Nat, OwnRecords (getPcbByPid s.running) s
      (s.setPcb (getPcbByPid s.running) fun pcb => { pcb with progFreq := freq }) := by
    intro freq
    apply OwnRecords.setPcb
    exact fun _ => rfl
  unfold rtcWrite
  split
  · exact .refl _ _
  split
  · exact .refl _ _
  split
  · exact .refl _ _
  split
  · exact .refl _ _
  dsimp only
  split
  · exact .refl _ _
  · next freq _ _ _ _ =>
    refine OwnRecords.trans ?_ (.of_reprogrammed (rtcSetFrequency_reprogrammed _ _))
    split
    · refine (request freq.toNat).trans (.trans ?_ (.of_reprogrammed (updateDivisors_reprogrammed _)))
      exact .of_reprogrammed ⟨_, _, _, rfl, fun _ => .refl _⟩
    · exact (request freq.toNat).trans (.of_reprogrammed (setDivisor_reprogrammed _ _ _))

theorem waitStmt_own (stmt : WaitStmt) (s : Kernel) : OwnRecords (getPcbByPid s.running) s (stmt.run s) := by
  cases stmt with
  | restoreCount => unfold WaitStmt.run; apply OwnRecords.setPcb; exact fun _ => rfl
  | decrement => unfold WaitStmt.run; apply OwnRecords.setPcb; simp only [Pcb.links, implies_true]
  | resetFlag =>
    exact ⟨s.pcbs, s.terminals, _, _, _, rfl, fun _ => rfl, fun _ _ => .refl _, fun _ => .refl _⟩
  | resetUpdated => exact OwnRecords.setTerminal s s.currProcess (fun t => { t with bufferUpdated := false }) ⟨_, _, rfl⟩
  | clearBuffer =>
    exact OwnRecords.setTerminal s s.currTer (fun t => { t with typed := fun i => if i < bufSize then 0 else t.typed i })
      ⟨_, _, rfl⟩

theorem rtHandler_own (addr : Nat) (s : Kernel) : OwnRecords addr s (rtHandler s) :=
  ⟨_, _, _, _, _, rfl, fun _ => rfl, fun _ _ => .refl _, fun _ => .refl _⟩

/-- `sys_write` prints, or asks for a frequency. -/
theorem sysWriteCall_cases (r : Regs) (fd : Fd) (buf : Option Bytes) (nbytes : Int) (s : Kernel) :
    Output s (sysWriteCall r fd buf nbytes s).2 ∨
      ∃ freq, (sysWriteCall r fd buf nbytes s).2 = (rtcWrite freq nbytes s).2 := by
  have printed : ∀ (is : List Nat) (b : Bytes) (s : Kernel),
      Output s (is.foldl (fun s i => if b i ≠ 0 then putc (b i) s else s) s) := by
    intro is b
    induction is with
    | nil => exact Output.refl
    | cons i is ih =>
      intro s
      refine Output.trans ?_ (ih _)
      dsimp only
      split
      · exact putc_output _ s
      · exact .refl s
  unfold sysWriteCall
  split
  · exact Or.inl (.refl s)
  · exact Or.inr ⟨_, rfl⟩
  · unfold terminalWrite
    split
    · exact Or.inl (.refl s)
    · split
      · exact Or.inl (puts_output _ s)
      · exact Or.inl (printed _ _ s)
  · exact Or.inl (.refl s)

end Calls

end BigBrainOS
