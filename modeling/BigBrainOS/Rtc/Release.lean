import BigBrainOS.Rtc.Requests
import BigBrainOS.Rtc.Wait

/-!
# Release of RTC requests

`sys_halt` and `sys_execute` keep the bookkeeping of `RtcTidy`, and a process that
halts releases its request. So along every run in which no process closes its
last RTC descriptor with a request above the default, each release leaves
the hardware at the highest request of the open descriptors.
-/

namespace BigBrainOS
set_option autoImplicit false

/-! ## Blocks that are cleared or made anew -/

/-- Process `p` was created, or has ended and may have been started again; the others
have the same descriptors and requests. -/
structure Renewed (p : Int) (s s' : Kernel) : Prop where
  used : ∀ q, q ≠ p → s'.usedPids q = s.usedPids q
  fdt : ∀ q, q ≠ p → (s'.pcb q).fdt = (s.pcb q).fdt
  progFreq : ∀ q, q ≠ p → (s'.pcb q).progFreq = (s.pcb q).progFreq
  fresh : s'.usedPids p = true → (s'.pcb p).fdt = initFdt ∧ (s'.pcb p).progFreq = 0

theorem initFdt_noRtc {pcb : Pcb} (fdt : pcb.fdt = initFdt) : ¬ pcb.HasRtc := by
  unfold Pcb.HasRtc
  rw [fdt]
  decide

section Renewed
variable {s s' : Kernel} {p : Int}

theorem RtcTidy.renewed (tidy : RtcTidy s) (renewed : Renewed p s s') (consistent : Consistent s') : RtcTidy s' := by
  refine ⟨consistent, fun q used => ?_, fun q used none => ?_⟩
  · by_cases same : q = p
    · rw [same] at used ⊢
      rw [(renewed.fresh used).1]
      exact .initFdt
    · rw [renewed.used q same] at used
      rw [renewed.fdt q same]
      exact tidy.table q used
  · by_cases same : q = p
    · rw [same] at used ⊢
      rw [(renewed.fresh used).2]
      exact Nat.zero_le _
    · rw [renewed.used q same] at used
      rw [hasRtc_congr (renewed.fdt q same)] at none
      rw [renewed.progFreq q same]
      exact tidy.quiet q used none

theorem Renewed.of_clock {s₁ : Kernel} (renewed : Renewed p s₁ s') (clock : s₁.clock = s.clock) : Renewed p s s' := by
  have used : s₁.usedPids = s.usedPids := congrArg ClockView.usedPids clock
  have pcbs : s₁.pcbs = s.pcbs := congrArg ClockView.pcbs clock
  obtain ⟨used', fdt, progFreq, fresh⟩ := renewed
  simp only [Kernel.pcb, used, pcbs] at used' fdt progFreq
  exact ⟨used', fdt, progFreq, fresh⟩

/-- Only the renewed process can have released a descriptor. -/
theorem Renewed.releases (renewed : Renewed p s s') (releases : ReleasesRtc s s') :
    s.usedPids p = true ∧ (s.pcb p).HasRtc := by
  obtain ⟨q, held, gone⟩ := releases
  by_cases same : q = p
  · rw [← same]
    exact held
  · refine absurd ⟨?_, ?_⟩ gone
    · rw [renewed.used q same]
      exact held.1
    · rw [hasRtc_congr (renewed.fdt q same)]
      exact held.2

/-- After a halt that closed an RTC descriptor the frequency is right. -/
theorem RtcTidy.released_of_renewed (tidy : RtcTidy s) (renewed : Renewed p s s')
    (programmed : s'.higherFreq = maxRequestedFreq s') : RtcReleased s' := by
  have start : rtcStartFreq ≤ openRequests s' := (openRequests_le.1 (Nat.le_refl _)).1
  rw [RtcReleased, programmed, maxRequestedFreq_eq_iff]
  intro i _ used none
  by_cases same : (i : Int) = p
  · rw [same] at used ⊢
    rw [(renewed.fresh used).2]
    exact Nat.zero_le _
  · rw [renewed.used _ same] at used
    rw [hasRtc_congr (renewed.fdt _ same)] at none
    rw [renewed.progFreq _ same]
    exact (tidy.quiet _ used none).trans start

end Renewed

/-! ## `sys_halt` -/

section Halt
variable {env : Env} {s : Kernel} {p : Int}

/-- Closing files other than the RTC does nothing. -/
theorem closes_noRtc (h : Halt) (is : List Fd) (s : Kernel)
    (none : ∀ i ∈ is, ((s.pcbs h.addr).fdt i).enabled = true → ((s.pcbs h.addr).fdt i).fotPtr ≠ some .rtcFot) :
    runHalt h (is.map .close) s = s := by
  induction is with
  | nil => rfl
  | cons i is ih =>
    have first : (HaltStmt.close i).run h s = s := by
      simp only [HaltStmt.run]
      split
      · next enabled =>
        have other := none i List.mem_cons_self enabled
        unfold closeFile
        split
        · next rtc => exact absurd rtc other
        · rfl
      · rfl
    show runHalt h (is.map .close) ((HaltStmt.close i).run h s) = s
    rw [first]
    exact ih fun j member => none j (List.mem_cons_of_mem _ member)

/-- Closing the files of a process: if the RTC is among them, the frequency is set
for the processes in use. -/
theorem closes_higherFreq (h : Halt) (is : List Fd) (s : Kernel)
    (rtc : ∃ i ∈ is, ((s.pcbs h.addr).fdt i).enabled = true ∧ ((s.pcbs h.addr).fdt i).fotPtr = some .rtcFot) :
    (runHalt h (is.map .close) s).higherFreq = maxRequestedFreq s := by
  induction is generalizing s with
  | nil =>
    obtain ⟨i, member, -⟩ := rtc
    cases member
  | cons i is ih =>
    have same := (close_reprogrammed h i s).sameAsks
    show (runHalt h (is.map .close) ((HaltStmt.close i).run h s)).higherFreq = _
    by_cases later : ∃ j ∈ is, ((s.pcbs h.addr).fdt j).enabled = true ∧ ((s.pcbs h.addr).fdt j).fotPtr = some .rtcFot
    · rw [ih _ (by rw [same.fdt]; exact later), same.maxRequestedFreq]
    · obtain ⟨j, member, enabled, fotPtr⟩ := rtc
      have first : j = i := by
        rcases List.mem_cons.1 member with first | rest
        · exact first
        · exact absurd ⟨j, rest, enabled, fotPtr⟩ later
      rw [first] at enabled fotPtr
      have closed : (HaltStmt.close i).run h s = rtcClose s := by
        simp only [HaltStmt.run, if_pos enabled, fotPtr, closeFile]
      rw [closed] at same ⊢
      rw [closes_noRtc h is (rtcClose s)]
      · exact rtcClose_higherFreq s
      · intro k member
        rw [same.fdt]
        exact fun enabled rtc => later ⟨k, member, enabled, rtc⟩

/-- `sys_halt` up to the closing of the files. -/
structure FilesClosed (h : Halt) (s s' : Kernel) : Prop where
  used : s'.usedPids = Function.update s.usedPids h.pid false
  fdt : ∀ a, (s'.pcbs a).fdt = (s.pcbs a).fdt
  progFreq : ∀ a, (s'.pcbs a).progFreq = (s.pcbs a).progFreq
  programmed : (s.pcbs h.addr).HasRtc → s'.higherFreq = maxRequestedFreq s'

theorem filesClosed (h : Halt) (s : Kernel) : FilesClosed h s (runHalt h releaseStmts s) := by
  have list : releaseStmts = [.ss0, .esp0, .usedPids, .printf, .enableProgramPage] ++
    (List.finRange fdtMaxEntries).map .close := rfl
  rw [list, runHalt_append]
  have before : (runHalt h [.ss0, .esp0, .usedPids, .printf, .enableProgramPage] s).clock =
      { s.clock with usedPids := Function.update s.usedPids h.pid false } := by
    simp only [runHalt, List.foldl_cons, List.foldl_nil, HaltStmt.run]
    exact puts_clock (haltingMessage h.pid) _
  generalize runHalt h [.ss0, .esp0, .usedPids, .printf, .enableProgramPage] s = s₁ at before
  have used : s₁.usedPids = _ := congrArg ClockView.usedPids before
  have pcbs : s₁.pcbs = s.pcbs := congrArg ClockView.pcbs before
  have same := (closes_reprogrammed h (List.finRange fdtMaxEntries) s₁).sameAsks
  refine ⟨same.used.trans used, fun a => ?_, fun a => ?_, fun rtc => ?_⟩
  · rw [same.fdt, pcbs]
  · rw [same.progFreq, pcbs]
  · obtain ⟨fd, enabled, fotPtr⟩ := rtc
    rw [same.maxRequestedFreq]
    apply closes_higherFreq
    exact ⟨fd, List.mem_finRange fd, by rw [pcbs]; exact ⟨enabled, fotPtr⟩⟩

/-- The highest request does not depend on a process that asks for nothing. -/
theorem maxRequestedFreq_renewed {s s' : Kernel} (used : ∀ q, q ≠ p → s'.usedPids q = s.usedPids q)
    (progFreq : ∀ q, q ≠ p → (s'.pcb q).progFreq = (s.pcb q).progFreq) (gone : s.usedPids p = false)
    (silent : s'.usedPids p = true → (s'.pcb p).progFreq = 0) : maxRequestedFreq s' = maxRequestedFreq s := by
  have bounds : ∀ b, maxRequestedFreq s' ≤ b ↔ maxRequestedFreq s ≤ b := by
    intro b
    rw [maxRequestedFreq_le, maxRequestedFreq_le]
    refine and_congr_right fun _ => forall_congr' fun i => forall_congr' fun _ => ?_
    by_cases same : (i : Int) = p
    · rw [same, gone]
      refine iff_of_true (fun used' => ?_) (fun used' => by cases used')
      rw [silent used']
      exact Nat.zero_le _
    · rw [used _ same, progFreq _ same]
  exact Nat.le_antisymm ((bounds _).2 (Nat.le_refl _)) ((bounds _).1 (Nat.le_refl _))

/-- What is left of a process whose block was cleared, or made anew. -/
theorem FilesClosed.renewed {s₁ s' : Kernel} (closed : FilesClosed ⟨getPcbByPid p, p⟩ s s₁)
    (used : ∀ q, q ≠ p → s'.usedPids q = s₁.usedPids q) (blocks : ∀ q, q ≠ p → s'.pcb q = s₁.pcb q)
    (higherFreq : s'.higherFreq = s₁.higherFreq)
    (fresh : s'.usedPids p = true → (s'.pcb p).fdt = initFdt ∧ (s'.pcb p).progFreq = 0) :
    Renewed p s s' ∧ ((s.pcb p).HasRtc → s'.higherFreq = maxRequestedFreq s') := by
  refine ⟨⟨fun q other => ?_, fun q other => ?_, fun q other => ?_, fresh⟩, fun rtc => ?_⟩
  · rw [used q other, closed.used, Function.update_of_ne other]
  · rw [blocks q other]
    exact closed.fdt _
  · rw [blocks q other]
    exact closed.progFreq _
  · rw [higherFreq, closed.programmed rtc]
    refine (maxRequestedFreq_renewed used (fun q other => by rw [blocks q other]) ?_ fun h => (fresh h).2).symm
    rw [closed.used, Function.update_self]

/-- A launch makes a block without requests and with the standard descriptors only. -/
theorem sysExecute_renewed {fr : ExecFrame} {command : Bytes} {s' : Kernel} {newPid : Int} {eip : Nat}
    (launched : sysExecute env fr command s = (.launched newPid eip, s')) :
    (∀ q, q ≠ newPid → s'.usedPids q = s.usedPids q) ∧ (∀ q, q ≠ newPid → s'.pcb q = s.pcb q) ∧
      s'.higherFreq = s.higherFreq ∧ (s'.pcb newPid).fdt = initFdt ∧ (s'.pcb newPid).progFreq = 0 := by
  obtain ⟨l, s₁, pcb, -, -, -, -, alloc, clock⟩ := sysExecute_block launched
  obtain ⟨valid, -, -⟩ := getNewPid_eq_some.1 alloc
  have used : s'.usedPids = _ := congrArg ClockView.usedPids clock
  have pcbs : s'.pcbs = _ := congrArg ClockView.pcbs clock
  have block : s'.pcb newPid = ({ l.newPcb s₁ pcb with regs := ⟨userEsp, userEsp⟩ } : Pcb) := by
    rw [Kernel.pcb, pcbs]
    exact Function.update_self _ _ _
  refine ⟨fun q other => ?_, fun q other => ?_, congrArg ClockView.higherFreq clock, ?_, ?_⟩
  · rw [used]
    exact Function.update_of_ne other _ _
  · rw [Kernel.pcb, pcbs]
    exact Function.update_of_ne (getPcbByPid_ne valid other) _ _
  · rw [block]
    rfl
  · rw [block]
    rfl

/-- `sys_halt` renews the running process, and programs the RTC if it had it open. -/
theorem Tree.sysHalt_renewed {F : Forest Term Int} (tree : Tree s.view F) (loadable : ShellLoadable env) (fr : ExecFrame)
    (status : UInt8) :
    Renewed (F.cur s.currProcess) s (sysHalt env fr status s).2 ∧
      ((s.pcb (F.cur s.currProcess)).HasRtc →
        (sysHalt env fr status s).2.higherFreq = maxRequestedFreq (sysHalt env fr status s).2) := by
  have running : s.currPid s.currProcess = F.cur s.currProcess := tree.currPid_eq
  have own : (s.pcbs (getPcbByPid (F.cur s.currProcess))).pid = F.cur s.currProcess := tree.pid _ (F.cur_live _)
  have valid := tree.cur_valid s.currProcess
  have outcome := tree.sysHalt_cases loadable fr status
  generalize F.cur s.currProcess = p at running own valid outcome
  have started : p ≠ -1 := by have := valid.1; omega
  have closed := filesClosed ⟨getPcbByPid p, p⟩ s
  simp only [sysHalt, running, own, if_neg started] at outcome ⊢
  generalize runHalt ⟨getPcbByPid p, p⟩ releaseStmts s = s₁ at closed outcome
  rcases outcome with ⟨s', child, halted, -⟩ | ⟨s', root, halted, -⟩
  · simp only [finishHalt, if_neg (show ¬ p < 3 by omega)]
    refine closed.renewed (fun _ _ => rfl) (fun q other => ?_) rfl fun used => ?_
    · exact Function.update_of_ne (getPcbByPid_ne valid other) _ _
    · have gone : s₁.usedPids p = true := used
      rw [closed.used, Function.update_self] at gone
      cases gone
  · have launched : ∃ eip, sysExecute env fr (shellCommand env) (puts exitedRootMessage s₁) = (.launched p eip, s') := by
      simp only [finishHalt, if_pos root] at halted
      split at halted
      · next newPid eip s'' executed =>
        simp only [Prod.mk.injEq, HaltOutcome.restarted.injEq] at halted
        rw [executed, halted.1, halted.2]
        exact ⟨eip, rfl⟩
      · cases halted
      · cases halted
    obtain ⟨eip, launched⟩ := launched
    obtain ⟨used, blocks, higherFreq, fdt, progFreq⟩ := sysExecute_renewed launched
    have printed := puts_clock exitedRootMessage s₁
    have used₁ : (puts exitedRootMessage s₁).usedPids = s₁.usedPids := congrArg ClockView.usedPids printed
    have pcbs₁ : (puts exitedRootMessage s₁).pcbs = s₁.pcbs := congrArg ClockView.pcbs printed
    rw [halted]
    refine closed.renewed (fun q other => ?_) (fun q other => ?_) ?_ fun _ => ⟨fdt, progFreq⟩
    · rw [used q other, used₁]
    · rw [blocks q other, Kernel.pcb, pcbs₁]
      rfl
    · exact higherFreq.trans (congrArg ClockView.higherFreq printed)

end Halt

/-! ## All steps -/

section Steps
variable {env : Env} {s : Kernel}

/-- Screen output and keys leave descriptors and requests alone. -/
theorem SameAsks.of_clock {s' : Kernel} (clock : s'.clock = s.clock) : SameAsks s s' := by
  have pcbs : s'.pcbs = s.pcbs := congrArg ClockView.pcbs clock
  exact ⟨congrArg ClockView.usedPids clock, fun a => by rw [pcbs], fun a => by rw [pcbs]⟩

theorem SameAsks.not_releases {s' : Kernel} (same : SameAsks s s') : ¬ ReleasesRtc s s' := by
  rintro ⟨p, held, gone⟩
  exact gone ⟨by rw [same.used]; exact held.1, (hasRtc_congr (same.fdt _)).2 held.2⟩

theorem RtcTidy.sameAsks {s' : Kernel} (tidy : RtcTidy s) (same : SameAsks s s') (consistent : Consistent s') :
    RtcTidy s' := by
  refine ⟨consistent, fun p used => ?_, fun p used none => ?_⟩
  · rw [same.used] at used
    rw [Kernel.pcb, same.fdt]
    exact tidy.table p used
  · rw [same.used] at used
    rw [Kernel.pcb, hasRtc_congr (same.fdt _)] at none
    rw [Kernel.pcb, same.progFreq]
    exact tidy.quiet p used none

theorem SameAsks.trans {s₁ s₂ s₃ : Kernel} (first : SameAsks s₁ s₂) (second : SameAsks s₂ s₃) : SameAsks s₁ s₃ :=
  ⟨second.used.trans first.used, fun a => (second.fdt a).trans (first.fdt a),
    fun a => (second.progFreq a).trans (first.progFreq a)⟩

theorem SameAsks.saveRegs (s : Kernel) (addr : Nat) (r : Regs) :
    SameAsks s (s.setPcb addr fun pcb => { pcb with regs := r }) := by
  refine ⟨rfl, fun a => ?_, fun a => ?_⟩
  · apply setPcb_fdt
    exact fun _ => rfl
  · simp only [Kernel.setPcb, Function.update_apply]
    split
    · next same => rw [same]
    · rfl

theorem SameAsks.maskKeyboard (next : Term) (s : Kernel) : SameAsks s (maskKeyboard next s) := by
  apply SameAsks.of_clock
  obtain ⟨on, mask, masked⟩ := maskKeyboard_quiet next s
  rw [masked]
  rfl

/-- A tick between two processes only saves registers. -/
theorem tick_sameAsks (env : Env) (r : Regs) (fr : ExecFrame) (running : s.currPid s.currProcess ≠ -1)
    (started : s.currPid (s.currProcess + 1) ≠ -1) : SameAsks s (switchRunningProcess env r fr s).2 := by
  have masked := SameAsks.maskKeyboard (s.currProcess + 1) s
  have view := Kernel.maskKeyboard_view s (s.currProcess + 1)
  have running' : (maskKeyboard (s.currProcess + 1) s).currPid (maskKeyboard (s.currProcess + 1) s).currProcess ≠ -1 := by
    have same := congrArg (fun v : ProcView => v.curr v.currProcess) view
    exact fun none => running (same.symm.trans none)
  simp only [switchRunningProcess, if_neg started, switchTo, if_neg running']
  generalize maskKeyboard (s.currProcess + 1) s = m at masked
  have saved := masked.trans (.saveRegs m (getPcbByPid (m.currPid m.currProcess)) r)
  exact ⟨saved.used, saved.fdt, saved.progFreq⟩

/-- A call that ends the running process releases its request rightly. -/
theorem RtcTidy.ended {s' : Kernel} {p : Int} (tidy : RtcTidy s) (consistent : Consistent s')
    (ended : Renewed p s s' ∧ ((s.pcb p).HasRtc → s'.higherFreq = maxRequestedFreq s')) :
    RtcTidy s' ∧ (ReleasesRtc s s' → RtcReleased s') := by
  obtain ⟨renewed, programmed⟩ := ended
  refine ⟨tidy.renewed renewed consistent, fun releases => ?_⟩
  exact tidy.released_of_renewed renewed (programmed (renewed.releases releases).2)

theorem RtcTidy.execute (tidy : RtcTidy s) (loadable : ShellLoadable env) (fr exc : ExecFrame) (command : Bytes)
    (consistent : Consistent (executeCall env fr exc command s).2) :
    RtcTidy (executeCall env fr exc command s).2 ∧
      (ReleasesRtc s (executeCall env fr exc command s).2 → RtcReleased (executeCall env fr exc command s).2) := by
  obtain ⟨⟨F, tree⟩, -⟩ := tidy.consistent
  have executed := sysExecute_executed env fr command s
  have view := sysExecute_view env fr command s
  unfold executeCall at consistent ⊢
  generalize outcome : sysExecute env fr command s = out at executed view consistent ⊢
  cases executed with
  | notExecutable => exact ⟨tidy, fun releases => absurd releases (not_releasesRtc_self s)⟩
  | full =>
    dsimp only at consistent ⊢
    generalize maxProcessesMessage = message at consistent ⊢
    have same := SameAsks.of_clock (puts_clock message s)
    exact ⟨tidy.sameAsks same consistent, fun releases => absurd releases same.not_releases⟩
  | @fault inode newPid s₁ _ _ _ stored =>
    obtain ⟨n, -, enabled⟩ := view
    obtain ⟨s₂, printed, handler⟩ := pfHandler_eq env exc s₁
    have clock : s₂.clock = s.clock := by rw [printed.clock, stored.clock]; rfl
    have tree₂ : Tree s₂.view F := by
      rw [printed.view, enabled]
      exact tree.enable n
    obtain ⟨renewed, programmed⟩ := tree₂.sysHalt_renewed loadable exc haltStatusExc
    have pcbs : s₂.pcbs = s.pcbs := congrArg ClockView.pcbs clock
    dsimp only at consistent ⊢
    rw [handler] at consistent ⊢
    refine tidy.ended consistent ⟨renewed.of_clock clock, fun rtc => programmed ?_⟩
    rw [Kernel.pcb, pcbs]
    exact rtc
  | @launched l s₁ s' eip _ alloc regs stored run =>
    obtain ⟨used, blocks, -, fresh⟩ := sysExecute_renewed outcome
    have renewed : Renewed l.newPid s s' :=
      ⟨used, fun q other => by rw [blocks q other], fun q other => by rw [blocks q other], fun _ => fresh⟩
    refine ⟨tidy.renewed renewed consistent, fun releases => ?_⟩
    have busy := (renewed.releases releases).1
    rw [(getNewPid_eq_some.1 alloc).2.1] at busy
    cases busy

/-- **Step lemma.** A step keeps the bookkeeping unless it closes a last RTC descriptor
with a request, and every release is right exactly if its process asks for no
more than the others, or halts. -/
theorem RtcTidy.step (tidy : RtcTidy s) (loadable : ShellLoadable env) {op : ReleaseOp} (ok : (releaseCalls env).ok s op) :
    (ClosesQuietly s op → RtcTidy (op.run env s)) ∧
      (ReleasesRtc s (op.run env s) →
        (∀ r fd, op = .close r fd → (s.pcb (s.currPid s.currProcess)).LastRtc fd) ∧
        (RtcReleased (op.run env s) ↔ ∀ r fd, op = .close r fd → Outbid s (s.currPid s.currProcess))) := by
  have ending : ∀ {s' : Kernel}, (∀ r fd, op ≠ .close r fd) → RtcTidy s' ∧ (ReleasesRtc s s' → RtcReleased s') →
      (ClosesQuietly s op → RtcTidy s') ∧ (ReleasesRtc s s' →
        (∀ r fd, op = .close r fd → (s.pcb (s.currPid s.currProcess)).LastRtc fd) ∧
        (RtcReleased s' ↔ ∀ r fd, op = .close r fd → Outbid s (s.currPid s.currProcess))) := by
    intro s' noClose step
    refine ⟨fun _ => step.1, fun releases => ⟨?_, iff_of_true (step.2 releases) ?_⟩⟩
    · intro r fd close
      exact absurd close (noClose r fd)
    · intro r fd close
      exact absurd close (noClose r fd)
  cases op with
  | open_ r filename =>
    obtain ⟨tidy', kept⟩ := tidy.sysOpen env.img filename ok
    exact ending (fun _ _ h => by cases h) ⟨tidy', fun releases => absurd releases kept⟩
  | write r fd buf nbytes =>
    obtain ⟨tidy', kept⟩ := tidy.writeCall fd buf nbytes ok
    exact ending (fun _ _ h => by cases h) ⟨tidy', fun releases => absurd releases kept⟩
  | close r fd =>
    obtain ⟨kept, released⟩ := tidy.sysClose fd ok
    refine ⟨kept, fun releases => ?_⟩
    obtain ⟨last, iff⟩ := released releases
    constructor
    · intro r' fd' same
      cases same
      exact last
    · refine iff.trans ?_
      exact ⟨fun outbid _ _ _ => outbid, fun outbid => outbid r fd rfl⟩
  | call op =>
    have consistent : Consistent (op.run env s) := tidy.consistent.step loadable ok
    obtain ⟨⟨F, tree⟩, -⟩ := tidy.consistent
    refine ending (fun _ _ h => by cases h) ?_
    have same : SameAsks s (op.run env s) →
        RtcTidy (op.run env s) ∧ (ReleasesRtc s (op.run env s) → RtcReleased (op.run env s)) := fun same =>
      ⟨tidy.sameAsks same consistent, fun releases => absurd releases same.not_releases⟩
    cases op with
    | execute fr exc command => exact tidy.execute loadable fr exc command consistent
    | halt fr status => exact tidy.ended consistent (tree.sysHalt_renewed loadable fr status)
    | tick r fr => exact same (tick_sameAsks env r fr (tree.currPid_ne _) (tree.currPid_ne _))
    | putc c => exact same (.of_clock (putc_output c s).clock)
    | key scancode => exact same (.of_clock (kbHandler_typed scancode s).clock)

end Steps

/-! ## After boot -/

section Boot
variable {env : Env} {s : Kernel}

/-- The blocks in use are as `sys_execute` made them. -/
def FreshBlocks (s : Kernel) : Prop := ∀ p, s.usedPids p = true → (s.pcb p).fdt = initFdt ∧ (s.pcb p).progFreq = 0

/-- What a tick does before it launches a base shell only saves registers. -/
theorem prepareTerminal_sameAsks (next : Term) (vidId : Int) (r : Regs) (s : Kernel) :
    SameAsks s (prepareTerminal next vidId r s) := by
  have saved := SameAsks.saveRegs (changeVidmem vidId s) (getPcbByPid s.currProcess.val) r
  unfold prepareTerminal
  dsimp only
  split
  · exact ⟨saved.used, saved.fdt, saved.progFreq⟩
  · exact ⟨rfl, fun _ => rfl, fun _ => rfl⟩

/-- The tick that launches a base shell keeps the blocks fresh. -/
theorem FreshBlocks.tick (fresh : FreshBlocks s) {k : Nat} (boot : Booting s.view k) {r : Regs} {fr : ExecFrame}
    {s' : Kernel} (launched : switchRunningProcess env r fr s = (.launched k, s')) : FreshBlocks s' := by
  simp only [switchRunningProcess, if_pos boot.next_empty] at launched
  generalize (if s.currProcess + 1 = s.currTer then mainVid else ((s.currProcess + 1).val : Int)) = vidId at launched
  have same := (SameAsks.maskKeyboard (s.currProcess + 1) s).trans (prepareTerminal_sameAsks (s.currProcess + 1) vidId r _)
  generalize prepareTerminal (s.currProcess + 1) vidId r (maskKeyboard (s.currProcess + 1) s) = s₁ at launched same
  have executed : ∃ eip, sysExecute env fr (shellCommand env) s₁ = (.launched k eip, s') := by
    split at launched
    · next newPid eip s'' executed =>
      simp only [Prod.mk.injEq, Resume.launched.injEq] at launched
      rw [executed, launched.1, launched.2]
      exact ⟨eip, rfl⟩
    · cases launched
    · next executed =>
      unfold switchTo at launched
      dsimp only at launched
      split at launched <;> cases launched
  obtain ⟨eip, executed⟩ := executed
  obtain ⟨used, blocks, -, fdt, progFreq⟩ := sysExecute_renewed executed
  intro p live
  by_cases new : p = k
  · rw [new]
    exact ⟨fdt, progFreq⟩
  · rw [used p new, same.used] at live
    rw [blocks p new, Kernel.pcb, same.fdt, same.progFreq]
    exact fresh p live

/-- Three ticks lead from the initial state to base shells as `sys_execute` makes them. -/
theorem boot_fresh (loadable : ShellLoadable env) (init : Init s) (r : Regs) (fr : ExecFrame) :
    FreshBoot ((atomicCalls env).exec s [.tick r fr, .tick r fr, .tick r fr]) := by
  have fresh : FreshBlocks s := fun p used => by
    rw [init.free p] at used
    cases used
  obtain ⟨s₁, tick₁, shells₁, placed₁, running₁⟩ := init.booting.tick loadable r fr
  have boot₁ := init.booting.next_booting shells₁ placed₁ running₁ (by decide)
  obtain ⟨s₂, tick₂, shells₂, placed₂, running₂⟩ := boot₁.tick loadable r fr
  have boot₂ := boot₁.next_booting shells₂ placed₂ running₂ (by decide)
  obtain ⟨s₃, tick₃, shells₃, placed₃, -⟩ := boot₂.tick loadable r fr
  have fresh₃ : FreshBlocks s₃ := ((fresh.tick init.booting tick₁).tick boot₁ tick₂).tick boot₂ tick₃
  simp only [TransitionSystem.exec_cons, TransitionSystem.exec_nil, atomicCalls, Op.run, tick₁, tick₂, tick₃]
  exact ⟨afterBoot_iff.2 ⟨shells₃, placed₃⟩, fresh₃⟩

theorem FreshBoot.tidy {s : Kernel} (start : FreshBoot s) : RtcTidy s := by
  refine ⟨start.boot.consistent, fun p used => ?_, fun p used _ => ?_⟩
  · rw [(start.blocks p used).1]
    exact .initFdt
  · rw [(start.blocks p used).2]
    exact Nat.zero_le _

end Boot

/-! ## A run with the RTC -/

/-- The file system of the shell with the file of the RTC. -/
def rtcImage : Image where
  byte a := if a = 0 then 2 else if 128 ≤ a ∧ a < 131 then (message "rtc").getD (a - 128) 0 else shellImage.byte a

/-- The name of the file. -/
def rtcName : Bytes := literal "rtc" fun _ => 0

@[irreducible] def rtcEnv : Env := ⟨rtcImage, fun _ => 0⟩

theorem rtcEnv_loadable : ShellLoadable rtcEnv := by
  unfold rtcEnv
  refine ⟨rtcImage.dirEntry 0, ?_, by decide, by decide, by decide⟩
  have short : ¬ strlen (literal "shell" fun _ => 0) (fileNameSize + 1) > fileNameSize := by decide
  have first : rtcImage.searchName (literal "shell" fun _ => 0) rtcImage.numDirEntries.toNat 0 = 0 := by decide
  have two : ¬ rtcImage.numDirEntries = (0 : Nat) := by decide
  simp only [Image.readDentryByName, if_neg short, first, if_neg two]

theorem rtcEnv_file : ∃ file, rtcEnv.img.readDentryByName rtcName = some file ∧ openFot rtcName file = .rtcFot := by
  unfold rtcEnv
  refine ⟨rtcImage.dirEntry 1, ?_, by decide⟩
  have short : ¬ strlen rtcName (fileNameSize + 1) > fileNameSize := by decide
  have second : rtcImage.searchName rtcName rtcImage.numDirEntries.toNat 0 = 1 := by decide
  have two : ¬ rtcImage.numDirEntries = (1 : Nat) := by decide
  simp only [Image.readDentryByName, if_neg short, second, if_neg two]

section Run
variable {env : Env} {s : Kernel}

/-- Descriptor 2 of the running process is the only open RTC descriptor of the system. -/
structure OneRtc (s : Kernel) : Prop where
  last : (s.pcb (s.currPid s.currProcess)).LastRtc 2
  others : ∀ q, q ≠ s.currPid s.currProcess → s.usedPids q = true → ¬ (s.pcb q).HasRtc

/-- The stack pointer at the entry of a system call. -/
def Kernel.entryRegs (s : Kernel) : Regs := ⟨s.tss.esp0, 0⟩

theorem entryRegs_onStack (s : Kernel) : OnStack s.tss.esp0 s.entryRegs.esp := ⟨Nat.le_refl _, Nat.le_add_right _ _⟩

/-- A close of that descriptor gives it up. -/
theorem OneRtc.releases (one : OneRtc s) (tidy : RtcTidy s) : ReleasesRtc s (sysClose s.entryRegs 2 s).2 := by
  obtain ⟨valid, used, onStack⟩ := tidy.consistent.running
  have block := onStack _ (entryRegs_onStack s)
  have own := fun s' : Kernel => s'.currPcb_eq block
  obtain ⟨enabled, rtc⟩ := (one.last 2).2 rfl
  obtain ⟨-, -, -, fdt, -⟩ := sysClose_elsewhere valid block (show 2 ≤ (2 : Fd).val by decide)
    (by rw [own]; exact enabled) (by rw [own]; exact rtc)
  rw [own, own] at fdt
  refine ⟨_, ⟨used, 2, enabled, rtc⟩, ?_⟩
  rintro ⟨-, j, still⟩
  rw [fdt] at still
  by_cases closed : j = 2
  · rw [closed, Function.update_self] at still
    cases still.1
  · rw [Function.update_of_ne closed] at still
    exact closed ((one.last j).1 still)

/-- The first `sys_open` of the RTC after boot. -/
theorem FreshBoot.openRtc (start : FreshBoot s) {filename : Bytes} {file : DirEntry}
    (found : env.img.readDentryByName filename = some file) (rtc : openFot filename file = .rtcFot) :
    ∃ s', ReleaseOp.run env (.open_ s.entryRegs filename) s = s' ∧ OneRtc s' ∧
      (s'.pcb (s'.currPid s'.currProcess)).progFreq = 0 := by
  obtain ⟨valid, used, onStack⟩ := start.boot.consistent.running
  have block := onStack _ (entryRegs_onStack s)
  have own := fun s' : Kernel => s'.currPcb_eq block
  obtain ⟨initial, request⟩ := start.blocks _ used
  have free : getNewFd (s.currPcb s.entryRegs) = some 2 := by
    rw [own, getNewFd, initial]
    decide
  obtain ⟨view, elsewhere, -⟩ := sysOpen_elsewhere valid block found free
  obtain ⟨s', opened, fdt⟩ := sysOpen_found (by rw [own, initial]; exact .initFdt) found free
  rw [own, own, initial] at fdt
  have lowered := sysOpen_progFreq_le env.img s.entryRegs filename s (getPcbByPid (s.currPid s.currProcess))
  rw [opened] at view elsewhere lowered
  have current : s'.currPid s'.currProcess = s.currPid s.currProcess :=
    congrArg (fun v : ProcView => v.curr v.currProcess) view
  refine ⟨s', congrArg Prod.snd opened, ⟨fun j => ?_, fun q other live => ?_⟩, ?_⟩
  · rw [current, fdt]
    by_cases new : j = 2
    · rw [new, Function.update_self]
      exact iff_of_true ⟨rfl, congrArg some rtc⟩ rfl
    · rw [Function.update_of_ne new]
      exact iff_of_false (fun h => initFdt_noRtc initial ⟨j, by rw [initial]; exact h⟩) new
  · rw [current] at other
    rw [elsewhere.used] at live
    rw [hasRtc_congr (elsewhere.fdt q other)]
    exact initFdt_noRtc (start.blocks q live).1
  · rw [current]
    exact Nat.le_zero.1 (lowered.trans (Nat.le_of_eq request))

/-- A request through that descriptor. -/
theorem OneRtc.write (one : OneRtc s) (tidy : RtcTidy s) (freq : BitVec 32) (low : ¬ freq.toInt < rtcMinFreq)
    (high : ¬ freq.toInt > rtcMaxFreq) (test : freq &&& (freq - 1) = 0) :
    ∃ s', writeCall s.entryRegs 2 (some freq) 4 s = s' ∧ OneRtc s' ∧
      (s'.pcb (s'.currPid s'.currProcess)).progFreq = freq.toNat := by
  obtain ⟨valid, used, onStack⟩ := tidy.consistent.running
  have block := onStack _ (entryRegs_onStack s)
  obtain ⟨enabled, rtc⟩ := (one.last 2).2 rfl
  have dispatch : sysWrite s.entryRegs 2 false s = .call (some .rtcFot) := by
    simp only [sysWrite, s.currPcb_eq block, enabled, rtc, if_true]
    rfl
  have run : writeCall s.entryRegs 2 (some freq) 4 s = (rtcWrite (some freq) 4 s).2 := by
    simp only [writeCall, Option.isNone_some, dispatch]
  have started : s.currPid s.currProcess ≠ -1 := by
    have := valid.1
    omega
  obtain ⟨s', written, request, -, used', curr, running⟩ := rtcWrite_effect freq low high test started
  obtain ⟨-, -, fdt, -⟩ := rtcWrite_elsewhere (some freq) 4 s
  rw [written] at fdt
  refine ⟨s', run.trans written, ⟨fun j => ?_, fun q other live => ?_⟩, ?_⟩
  · rw [curr, running, Kernel.pcb, fdt]
    exact one.last j
  · rw [curr, running] at other
    rw [used'] at live
    rw [Kernel.pcb, hasRtc_congr (fdt _)]
    exact one.others q other live
  · rw [curr, running]
    exact request

theorem freshBoot_exists : ∃ s, FreshBoot s :=
  ⟨_, boot_fresh rtcEnv_loadable (entry_init ⟨fun _ => 0, fun _ => .zero, 0x26, 0⟩) ⟨0, 0⟩ (.blank ⟨0, 0⟩)⟩

end Run

/-! ## All runs -/

/-- **Release of RTC requests.** In every run after boot in which no process closes
its last RTC descriptor with a request above the default, each step by which a process gives up its
last one leaves `higher_freq` at the highest request of the open descriptors. From every state of such a run a
`sys_close` of a last descriptor does so exactly if the request of its process is no
higher than those of the others. -/
theorem rtcReleased_of_reach {env : Env} (loadable : ShellLoadable env) {s : Kernel}
    (reach : ((releaseCalls env).restrict ClosesQuietly).Reach FreshBoot s) {op : ReleaseOp}
    (ok : (releaseCalls env).ok s op) (releases : ReleasesRtc s (op.run env s)) :
    (ClosesQuietly s op → RtcReleased (op.run env s)) ∧
      (RtcReleased (op.run env s) ↔ ∀ r fd, op = .close r fd → Outbid s (s.currPid s.currProcess)) := by
  have tidy : RtcTidy s := reach.invariant (fun _ start => start.tidy) fun _ _ tidy ok => (tidy.step loadable ok.1).1 ok.2
  obtain ⟨last, exact_⟩ := (tidy.step loadable ok).2 releases
  refine ⟨fun quietly => exact_.2 ?_, exact_⟩
  rintro r fd rfl
  exact .inl (quietly (last r fd rfl))

/-- A base shell opens the RTC after boot and closes it again. -/
theorem rtcReleased_unused : ∃ s, ((releaseCalls rtcEnv).restrict ClosesQuietly).Reach FreshBoot s ∧
    ReleasesRtc s (sysClose s.entryRegs 2 s).2 ∧ RtcReleased (sysClose s.entryRegs 2 s).2 := by
  obtain ⟨s₀, start⟩ := freshBoot_exists
  obtain ⟨file, found, rtc⟩ := rtcEnv_file
  obtain ⟨s, opened, one, request⟩ := start.openRtc found rtc
  have run : ((releaseCalls rtcEnv).restrict ClosesQuietly).Reach FreshBoot s :=
    TransitionSystem.Reach.step_to (.base start) (.open_ s₀.entryRegs rtcName) ⟨entryRegs_onStack s₀, trivial⟩ opened
  have tidy : RtcTidy s := by
    rw [← opened]
    exact (start.tidy.sysOpen rtcEnv.img rtcName (entryRegs_onStack s₀)).1
  have releases := one.releases tidy
  refine ⟨s, run, releases, ?_⟩
  have allowed : (releaseCalls rtcEnv).ok s (.close s.entryRegs 2) := entryRegs_onStack s
  apply (rtcReleased_of_reach rtcEnv_loadable run allowed releases).1
  intro _
  rw [request]
  exact Nat.zero_le _

/-- With a request for 1024 Hz in between, the clock keeps running at that rate for nobody. -/
theorem request_outlives_close : ∃ s, (releaseCalls rtcEnv).Reach FreshBoot s ∧
    ReleasesRtc s (sysClose s.entryRegs 2 s).2 ∧ ¬ RtcReleased (sysClose s.entryRegs 2 s).2 := by
  obtain ⟨s₀, start⟩ := freshBoot_exists
  obtain ⟨file, found, rtc⟩ := rtcEnv_file
  obtain ⟨s₁, opened, one₁, -⟩ := start.openRtc found rtc
  have run₁ : (releaseCalls rtcEnv).Reach FreshBoot s₁ :=
    TransitionSystem.Reach.step_to (.base start) (.open_ s₀.entryRegs rtcName) (entryRegs_onStack s₀) opened
  have tidy₁ : RtcTidy s₁ := by
    rw [← opened]
    exact (start.tidy.sysOpen rtcEnv.img rtcName (entryRegs_onStack s₀)).1
  obtain ⟨s, written, one, request⟩ := one₁.write tidy₁ 1024 (by decide) (by decide) (by decide)
  have run : (releaseCalls rtcEnv).Reach FreshBoot s :=
    run₁.step_to (.write s₁.entryRegs 2 (some 1024) 4) (entryRegs_onStack s₁) written
  have tidy : RtcTidy s := by
    rw [← written]
    exact (tidy₁.writeCall 2 (some 1024) 4 (entryRegs_onStack s₁)).1
  have releases := one.releases tidy
  refine ⟨s, run, releases, fun released => ?_⟩
  obtain fast | ⟨q, other, ⟨live, rtc⟩, -⟩ := ((tidy.sysClose 2 (entryRegs_onStack s)).2 releases).2.1 released
  · rw [request] at fast
    exact absurd fast (by decide)
  · exact one.others q other live rtc

end BigBrainOS
