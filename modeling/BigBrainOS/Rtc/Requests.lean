import BigBrainOS.Rtc.Frequency
import BigBrainOS.Files.Table

/-!
# RTC requests and descriptors

`rtc_close` programs the hardware for the highest request of the processes in
use. A request is kept in the control block, not with the descriptor: `sys_halt`
gives the pid back before it closes the files, but after `sys_close` the process
is still in use and its request still counts. The hardware runs at the highest
request of the open descriptors as long as no process closes its last one with a
request of its own.
-/

namespace BigBrainOS
set_option autoImplicit false

/-! ## The requests that count -/

/-- A descriptor of the RTC is open. -/
def Pcb.HasRtc (pcb : Pcb) : Prop := ∃ fd : Fd, (pcb.fdt fd).enabled = true ∧ (pcb.fdt fd).fotPtr = some .rtcFot

instance (pcb : Pcb) : Decidable pcb.HasRtc :=
  inferInstanceAs (Decidable (∃ fd : Fd, (pcb.fdt fd).enabled = true ∧ (pcb.fdt fd).fotPtr = some .rtcFot))

/-- The highest of 2 and the requests of the live processes that have an RTC descriptor open. -/
def openRequests (s : Kernel) : Nat :=
  (List.range maxProcesses).foldl
    (fun m (i : Nat) => if s.usedPids i = true ∧ (s.pcb i).HasRtc then max m (s.pcb i).progFreq else m) rtcStartFreq

theorem foldl_max_le {P : Nat → Prop} [DecidablePred P] {f : Nat → Nat} {b : Nat} (is : List Nat) (m : Nat) :
    is.foldl (fun m i => if P i then max m (f i) else m) m ≤ b ↔ m ≤ b ∧ ∀ i ∈ is, P i → f i ≤ b := by
  induction is generalizing m with
  | nil => simp
  | cons i is ih =>
    rw [List.foldl_cons, ih, List.forall_mem_cons]
    by_cases member : P i
    · rw [if_pos member, Nat.max_le, and_assoc]
      exact and_congr_right fun _ => and_congr_left fun _ => ⟨fun le _ => le, fun le => le member⟩
    · rw [if_neg member]
      exact and_congr_right fun _ => ⟨fun rest => ⟨fun h => absurd h member, rest⟩, fun h => h.2⟩

section Bounds
variable {s : Kernel} {b : Nat}

theorem maxRequestedFreq_le :
    maxRequestedFreq s ≤ b ↔ rtcStartFreq ≤ b ∧
      ∀ i < maxProcesses, s.usedPids (i : Int) = true → (s.pcb (i : Int)).progFreq ≤ b := by
  have step : (fun m (i : Nat) => if s.usedPids i = true ∧ (s.pcb i).progFreq > m then (s.pcb i).progFreq else m) =
      fun m (i : Nat) => if s.usedPids i = true then max m (s.pcb i).progFreq else m := by
    funext m i
    by_cases used : s.usedPids i = true
    · simp only [used, true_and, if_true]
      split <;> omega
    · rw [if_neg fun h => used h.1, if_neg used]
  rw [maxRequestedFreq, step, foldl_max_le]
  simp only [List.mem_range]

theorem openRequests_le :
    openRequests s ≤ b ↔ rtcStartFreq ≤ b ∧
      ∀ i < maxProcesses, s.usedPids (i : Int) = true ∧ (s.pcb (i : Int)).HasRtc → (s.pcb (i : Int)).progFreq ≤ b := by
  rw [openRequests, foldl_max_le]
  simp only [List.mem_range]

theorem le_openRequests :
    b ≤ openRequests s ↔ b ≤ rtcStartFreq ∨
      ∃ i < maxProcesses, (s.usedPids (i : Int) = true ∧ (s.pcb (i : Int)).HasRtc) ∧ b ≤ (s.pcb (i : Int)).progFreq := by
  cases b with
  | zero => simp
  | succ b =>
    rw [← not_iff_not, Nat.not_le, Nat.lt_succ_iff, openRequests_le]
    simp only [not_or, not_exists, not_and, Nat.not_le, Nat.lt_succ_iff]

/-- `rtc_close` finds the highest open request exactly if no other is higher. -/
theorem maxRequestedFreq_eq_iff :
    maxRequestedFreq s = openRequests s ↔
      ∀ i < maxProcesses, s.usedPids (i : Int) = true → ¬ (s.pcb (i : Int)).HasRtc →
        (s.pcb (i : Int)).progFreq ≤ openRequests s := by
  obtain ⟨start, all⟩ := maxRequestedFreq_le.1 (Nat.le_refl (maxRequestedFreq s))
  obtain ⟨start', open'⟩ := openRequests_le.1 (Nat.le_refl (openRequests s))
  have below : openRequests s ≤ maxRequestedFreq s := openRequests_le.2 ⟨start, fun i bound h => all i bound h.1⟩
  constructor
  · intro same i bound used _
    rw [← same]
    exact all i bound used
  · intro closed
    refine Nat.le_antisymm (maxRequestedFreq_le.2 ⟨start', fun i bound used => ?_⟩) below
    by_cases rtc : (s.pcb (i : Int)).HasRtc
    · exact open' i bound ⟨used, rtc⟩
    · exact closed i bound used rtc

end Bounds

/-- The pid table and what the processes in use have open and ask for are the same. -/
structure SameAsks (s s' : Kernel) : Prop where
  used : s'.usedPids = s.usedPids
  fdt : ∀ a, (s'.pcbs a).fdt = (s.pcbs a).fdt
  progFreq : ∀ a, (s'.pcbs a).progFreq = (s.pcbs a).progFreq

/-- Descriptors and requests of one process only have changed. -/
structure Elsewhere (p : Int) (s s' : Kernel) : Prop where
  used : s'.usedPids = s.usedPids
  fdt : ∀ q, q ≠ p → (s'.pcb q).fdt = (s.pcb q).fdt
  progFreq : ∀ q, q ≠ p → (s'.pcb q).progFreq = (s.pcb q).progFreq

theorem hasRtc_congr {pcb pcb' : Pcb} (fdt : pcb'.fdt = pcb.fdt) : pcb'.HasRtc ↔ pcb.HasRtc := by
  unfold Pcb.HasRtc
  rw [fdt]

theorem SameAsks.maxRequestedFreq {s s' : Kernel} (same : SameAsks s s') : maxRequestedFreq s' = maxRequestedFreq s := by
  have bounds : ∀ b, BigBrainOS.maxRequestedFreq s' ≤ b ↔ BigBrainOS.maxRequestedFreq s ≤ b := by
    intro b
    rw [maxRequestedFreq_le, maxRequestedFreq_le, same.used]
    simp only [Kernel.pcb, same.progFreq]
  exact Nat.le_antisymm ((bounds _).2 (Nat.le_refl _)) ((bounds _).1 (Nat.le_refl _))

theorem Reprogrammed.sameAsks {s s' : Kernel} (h : Reprogrammed s s') : SameAsks s s' := by
  refine ⟨?_, h.fdt, fun a => ?_⟩
  · obtain ⟨f, reg, ps, rfl, -⟩ := h
    rfl
  · obtain ⟨f, reg, ps, rfl, same⟩ := h
    obtain ⟨d, e⟩ := same a
    show (ps a).progFreq = _
    rw [e]

/-- What `rtc_close` programs. -/
theorem rtcClose_higherFreq (s : Kernel) : (rtcClose s).higherFreq = maxRequestedFreq s :=
  (updateDivisors_same _).higherFreq

/-! ## The system -/

/-- `sys_write`. Only the handler of the RTC changes what is modelled here. -/
def writeCall (r : Regs) (fd : Fd) (buf : Option (BitVec 32)) (nbytes : Int) (s : Kernel) : Kernel :=
  match sysWrite r fd buf.isNone s with
  | .call (some .rtcFot) => (rtcWrite buf nbytes s).2
  | _ => s

/-- A call of the kernel, or a descriptor call of the running process. -/
inductive ReleaseOp where
  | call (op : Op)
  | open_ (r : Regs) (filename : Bytes)
  | write (r : Regs) (fd : Fd) (buf : Option (BitVec 32)) (nbytes : Int)
  | close (r : Regs) (fd : Fd)

def ReleaseOp.run (env : Env) (op : ReleaseOp) (s : Kernel) : Kernel :=
  match op with
  | .call op => op.run env s
  | .open_ r filename => (sysOpen env.img r filename s).2
  | .write r fd buf nbytes => writeCall r fd buf nbytes s
  | .close r fd => (sysClose r fd s).2

/-- The calls run on the stack that `tss.esp0` gave them. -/
def ReleaseOp.Allowed (op : ReleaseOp) (s : Kernel) : Prop :=
  match op with
  | .call op => op.Allowed s
  | .open_ r _ => OnStack s.tss.esp0 r.esp
  | .write r _ _ _ => OnStack s.tss.esp0 r.esp
  | .close r _ => OnStack s.tss.esp0 r.esp

def releaseCalls (env : Env) : TransitionSystem Kernel ReleaseOp where
  ok s op := op.Allowed s
  next s op := op.run env s

/-- After boot, with the base shells as `sys_execute` made them. -/
structure FreshBoot (s : Kernel) : Prop where
  boot : AfterBoot s
  blocks : ∀ p, s.usedPids p = true → (s.pcb p).fdt = initFdt ∧ (s.pcb p).progFreq = 0

/-- A process gives up its last RTC descriptor. -/
def ReleasesRtc (s s' : Kernel) : Prop :=
  ∃ p, (s.usedPids p = true ∧ (s.pcb p).HasRtc) ∧ ¬ (s'.usedPids p = true ∧ (s'.pcb p).HasRtc)

theorem not_releasesRtc_self (s : Kernel) : ¬ ReleasesRtc s s := by
  rintro ⟨p, h, gone⟩
  exact gone h

/-- The hardware runs at the highest request of the open descriptors. -/
def RtcReleased (s : Kernel) : Prop := s.higherFreq = openRequests s

/-- The one RTC descriptor that is open. -/
def Pcb.LastRtc (pcb : Pcb) (fd : Fd) : Prop :=
  ∀ j, (pcb.fdt j).enabled = true ∧ (pcb.fdt j).fotPtr = some .rtcFot ↔ j = fd

/-- A process that closes its last RTC descriptor has no request above the default. -/
def ClosesQuietly (s : Kernel) (op : ReleaseOp) : Prop :=
  match op with
  | .close _ fd => (s.pcb (s.currPid s.currProcess)).LastRtc fd →
      (s.pcb (s.currPid s.currProcess)).progFreq ≤ rtcStartFreq
  | _ => True

/-- The request of a process is not above the default, nor above that of every other open descriptor. -/
def Outbid (s : Kernel) (p : Int) : Prop :=
  (s.pcb p).progFreq ≤ rtcStartFreq ∨
    ∃ q, q ≠ p ∧ (s.usedPids q = true ∧ (s.pcb q).HasRtc) ∧ (s.pcb p).progFreq ≤ (s.pcb q).progFreq

/-! ## The invariant -/

/-- A process without an RTC descriptor asks for no more than the default. -/
structure RtcTidy (s : Kernel) : Prop where
  consistent : Consistent s
  table : ∀ p, s.usedPids p = true → TableInv (s.pcb p).fdt
  quiet : ∀ p, s.usedPids p = true → ¬ (s.pcb p).HasRtc → (s.pcb p).progFreq ≤ rtcStartFreq

section Running
variable {s s' : Kernel}

/-- The process that runs: its pid is in use, and a call on its stack finds its block. -/
theorem Consistent.running (consistent : Consistent s) :
    ValidPid (s.currPid s.currProcess) ∧ s.usedPids (s.currPid s.currProcess) = true ∧
      ∀ esp, OnStack s.tss.esp0 esp → getCurrPcb esp = getPcbByPid (s.currPid s.currProcess) := by
  obtain ⟨⟨F, tree⟩, placed⟩ := consistent
  have current := tree.currPid_eq
  rw [current]
  exact ⟨tree.cur_valid _, (tree.used _).2 (F.cur_live _), fun esp stack => tree.onStack placed stack⟩

theorem Consistent.valid (consistent : Consistent s) {p : Int} (used : s.usedPids p = true) : ValidPid p := by
  obtain ⟨⟨F, tree⟩, -⟩ := consistent
  exact tree.valid p ((tree.used p).1 used)

theorem Consistent.of_view (consistent : Consistent s) (view : s'.view = s.view) : Consistent s' := by
  rw [Consistent, view]
  exact consistent

/-- A step that concerns the block of one process. -/
theorem RtcTidy.elsewhere (tidy : RtcTidy s) {p : Int} (other : Elsewhere p s s') (view : s'.view = s.view)
    (table : TableInv (s'.pcb p).fdt)
    (quiet : s.usedPids p = true → ¬ (s'.pcb p).HasRtc → (s'.pcb p).progFreq ≤ rtcStartFreq) : RtcTidy s' := by
  refine ⟨tidy.consistent.of_view view, fun q used => ?_, fun q used none => ?_⟩
  · rw [other.used] at used
    by_cases same : q = p
    · rw [same]
      exact table
    · rw [other.fdt q same]
      exact tidy.table q used
  · rw [other.used] at used
    by_cases same : q = p
    · rw [same] at used none ⊢
      exact quiet used none
    · rw [hasRtc_congr (other.fdt q same)] at none
      rw [other.progFreq q same]
      exact tidy.quiet q used none

/-- A step that keeps the RTC descriptors of its process releases nothing. -/
theorem Elsewhere.not_releases {p : Int} (other : Elsewhere p s s') (kept : (s.pcb p).HasRtc → (s'.pcb p).HasRtc) :
    ¬ ReleasesRtc s s' := by
  rintro ⟨q, ⟨used, rtc⟩, gone⟩
  refine gone ⟨by rw [other.used]; exact used, ?_⟩
  by_cases same : q = p
  · rw [same] at rtc ⊢
    exact kept rtc
  · rw [hasRtc_congr (other.fdt q same)]
    exact rtc

end Running

/-! ## The descriptor calls -/

section Descriptors
variable {s : Kernel} {r : Regs} {p : Int}

theorem setFd_other (s : Kernel) (r : Regs) (fd : Fd) (f : FdtEntry → FdtEntry) {a : Nat} (other : a ≠ getCurrPcb r.esp) :
    (s.setFd r fd f).pcbs a = s.pcbs a := s.setPcb_pcbs_of_ne _ other

theorem setFd_progFreq (s : Kernel) (r : Regs) (fd : Fd) (f : FdtEntry → FdtEntry) (a : Nat) :
    ((s.setFd r fd f).pcbs a).progFreq = (s.pcbs a).progFreq := by
  simp only [Kernel.setFd, Kernel.setPcb, Function.update_apply]
  split
  · next same => rw [same]
  · rfl

theorem setPcb_view_of_links (s : Kernel) (a : Nat) {f : Pcb → Pcb} (links : ∀ pcb, (f pcb).links = pcb.links) :
    (s.setPcb a f).view = s.view := by
  rw [Kernel.setPcb_view, links]
  show { s.view with pcb := Function.update s.view.pcb a (s.view.pcb a) } = s.view
  rw [Function.update_eq_self]

theorem setFd_view (s : Kernel) (r : Regs) (fd : Fd) (f : FdtEntry → FdtEntry) : (s.setFd r fd f).view = s.view :=
  setPcb_view_of_links s _ fun _ => rfl

theorem openHandler_view (fot : Fot) (s : Kernel) : (openHandler fot s).view = s.view := by
  unfold openHandler rtcOpen
  split
  · dsimp only
    split
    · rfl
    · refine (rtcSetFrequency_reprogrammed _ _).view.trans (setPcb_view_of_links s _ ?_)
      exact fun _ => rfl
  · rfl

/-- `open` of the handlers concerns the requests of the running process only, and only for the RTC. -/
theorem openHandler_progFreq (fot : Fot) (s : Kernel) {a : Nat}
    (other : a ≠ getPcbByPid (s.currPid s.currProcess) ∨ fot ≠ .rtcFot) :
    ((openHandler fot s).pcbs a).progFreq = (s.pcbs a).progFreq := by
  unfold openHandler rtcOpen
  split
  · next rtc =>
    dsimp only
    split
    · rfl
    · have block : a ≠ getPcbByPid (s.currPid s.currProcess) := other.resolve_right fun h => h rtc
      simp only [rtcSetFrequency]
      rw [Kernel.setPcb_pcbs_of_ne _ _ block]
  · rfl

theorem openHandler_used (fot : Fot) (s : Kernel) : (openHandler fot s).usedPids = s.usedPids := by
  unfold openHandler rtcOpen
  split
  · dsimp only
    split <;> rfl
  · rfl

/-- `sys_open` with a name and a free descriptor concerns the block of the running process only. -/
theorem sysOpen_elsewhere {img : Image} {filename : Bytes} {file : DirEntry} {fd : Fd}
    (valid : ValidPid (s.currPid s.currProcess)) (block : getCurrPcb r.esp = getPcbByPid (s.currPid s.currProcess))
    (found : img.readDentryByName filename = some file) (free : getNewFd (s.currPcb r) = some fd) :
    (sysOpen img r filename s).2.view = s.view ∧
      Elsewhere (s.currPid s.currProcess) s (sysOpen img r filename s).2 ∧
      (openFot filename file ≠ .rtcFot → ∀ a, ((sysOpen img r filename s).2.pcbs a).progFreq = (s.pcbs a).progFreq) := by
  simp only [sysOpen, found, free]
  generalize stored : (resetStdio r (s.setFd r fd fun e => { e with enabled := true })).setFd r fd
    (fun _ => ⟨some (openFot filename file), file.inodeNum, 0, true, file.fileType = 2⟩) = s₁
  have view : s₁.view = s.view := by
    rw [← stored, setFd_view, resetStdio, setFd_view, setFd_view, setFd_view]
  have current : s₁.currPid s₁.currProcess = s.currPid s.currProcess :=
    congrArg (fun v : ProcView => v.curr v.currProcess) view
  have progFreq : ∀ a, (s₁.pcbs a).progFreq = (s.pcbs a).progFreq := by
    intro a
    rw [← stored, setFd_progFreq, resetStdio, setFd_progFreq, setFd_progFreq, setFd_progFreq]
  have other : ∀ a, a ≠ getCurrPcb r.esp → s₁.pcbs a = s.pcbs a := by
    intro a other
    rw [← stored, setFd_other _ _ _ _ other, resetStdio, setFd_other _ _ _ _ other, setFd_other _ _ _ _ other,
      setFd_other _ _ _ _ other]
  refine ⟨(openHandler_view _ s₁).trans view, ⟨?_, fun q different => ?_, fun q different => ?_⟩, fun notRtc a => ?_⟩
  · rw [openHandler_used, ← stored]
    rfl
  · have apart := getPcbByPid_ne valid different
    rw [Kernel.pcb, openHandler_fdt, other _ (by rw [block]; exact apart)]
    rfl
  · have apart := getPcbByPid_ne valid different
    rw [Kernel.pcb, openHandler_progFreq _ _ (.inl (by rw [current]; exact apart)), progFreq]
    rfl
  · rw [openHandler_progFreq _ _ (.inr notRtc), progFreq]

/-- `sys_open` raises no request. -/
theorem sysOpen_progFreq_le (img : Image) (r : Regs) (filename : Bytes) (s : Kernel) (a : Nat) :
    ((sysOpen img r filename s).2.pcbs a).progFreq ≤ (s.pcbs a).progFreq := by
  have handler : ∀ (fot : Fot) (s : Kernel), ((openHandler fot s).pcbs a).progFreq ≤ (s.pcbs a).progFreq := by
    intro fot s
    unfold openHandler rtcOpen
    dsimp only
    split
    · split
      · exact Nat.le_refl _
      · simp only [rtcSetFrequency, Kernel.setPcb, Function.update_apply]
        split
        · exact Nat.zero_le _
        · exact Nat.le_refl _
    · exact Nat.le_refl _
  unfold sysOpen
  dsimp only
  split
  · exact Nat.le_refl _
  · split
    · exact Nat.le_refl _
    · refine (handler _ _).trans (Nat.le_of_eq ?_)
      rw [setFd_progFreq, resetStdio, setFd_progFreq, setFd_progFreq, setFd_progFreq]

/-- `sys_open` keeps the RTC descriptors of its process, and its request unless the new one is an RTC descriptor. -/
theorem RtcTidy.sysOpen (tidy : RtcTidy s) (img : Image) (filename : Bytes) (stack : OnStack s.tss.esp0 r.esp) :
    RtcTidy (sysOpen img r filename s).2 ∧ ¬ ReleasesRtc s (sysOpen img r filename s).2 := by
  obtain ⟨valid, used, onStack⟩ := tidy.consistent.running
  have block := onStack r.esp stack
  have own := fun s' : Kernel => s'.currPcb_eq block
  have table := tidy.table _ used
  rcases TableInv.sysOpen_cases (by rw [own]; exact table) img filename with ⟨-, failed⟩ | ⟨file, fd, s', found, free, opened, fdt⟩
  · rw [failed]
    exact ⟨tidy, not_releasesRtc_self s⟩
  · obtain ⟨view, elsewhere, progFreq⟩ := sysOpen_elsewhere valid block found free
    obtain ⟨low, closed, -⟩ := getNewFd_eq_some.1 free
    rw [opened] at view elsewhere progFreq ⊢
    rw [own] at closed
    rw [own, own] at fdt
    have kept : (s.pcb (s.currPid s.currProcess)).HasRtc → (s'.pcb (s.currPid s.currProcess)).HasRtc := by
      rintro ⟨j, enabled, rtc⟩
      have other : j ≠ fd := by
        rintro rfl
        rw [closed] at enabled
        cases enabled
      exact ⟨j, by rw [fdt, Function.update_of_ne other]; exact ⟨enabled, rtc⟩⟩
    refine ⟨tidy.elsewhere elsewhere view ?_ fun _ none => ?_, elsewhere.not_releases kept⟩
    · rw [fdt]
      exact table.update low fun _ => rfl
    · -- a process that still has no RTC descriptor did not open one
      have notRtc : openFot filename file ≠ .rtcFot := by
        intro rtc
        refine none ⟨fd, ?_⟩
        rw [fdt, Function.update_self]
        exact ⟨rfl, congrArg some rtc⟩
      rw [Kernel.pcb, progFreq notRtc]
      exact tidy.quiet _ used fun rtc => none (kept rtc)

/-! ### Writing -/

/-- `rtc_write` concerns the request of the running process, and divisors. -/
theorem rtcWrite_elsewhere (buf : Option (BitVec 32)) (nbytes : Int) (s : Kernel) :
    (rtcWrite buf nbytes s).2.view = s.view ∧ (rtcWrite buf nbytes s).2.usedPids = s.usedPids ∧
      (∀ a, ((rtcWrite buf nbytes s).2.pcbs a).fdt = (s.pcbs a).fdt) ∧
      ∀ a, a ≠ getPcbByPid (s.currPid s.currProcess) →
        ((rtcWrite buf nbytes s).2.pcbs a).progFreq = (s.pcbs a).progFreq := by
  rcases rtcWrite_cases buf nbytes s with same | ⟨freq, s₂, -, result, changed⟩
  · rw [same]
    exact ⟨rfl, rfl, fun _ => rfl, fun _ _ => rfl⟩
  · rw [result]
    generalize recorded : recordRequest (s.currPid s.currProcess) freq s = s₁ at changed
    have view : s₁.view = s.view := by
      rw [← recorded]
      apply setPcb_view_of_links
      exact fun _ => rfl
    have used : s₁.usedPids = s.usedPids := by rw [← recorded]; rfl
    have fdt : ∀ a, (s₁.pcbs a).fdt = (s.pcbs a).fdt := by
      intro a
      rw [← recorded]
      apply setPcb_fdt
      exact fun _ => rfl
    have progFreq : ∀ a, a ≠ getPcbByPid (s.currPid s.currProcess) → (s₁.pcbs a).progFreq = (s.pcbs a).progFreq := by
      intro a other
      rw [← recorded, recordRequest, Kernel.setPcb_pcbs_of_ne _ _ other]
    have reprogrammed : Reprogrammed s₁ s₂ := by
      rcases changed with ⟨-, rfl⟩ | ⟨-, rfl⟩
      · have raised : Reprogrammed s₁ { s₁ with higherFreq := freq } := ⟨_, _, _, rfl, fun _ => ⟨_, rfl⟩⟩
        exact raised.trans (updateDivisors_reprogrammed _)
      · exact setDivisor_reprogrammed s₁ _ fun _ => s.higherFreq / freq
    have all := reprogrammed.trans (rtcSetFrequency_reprogrammed s₂.higherFreq s₂)
    have same := all.sameAsks
    exact ⟨all.view.trans view, same.used.trans used, fun a => (same.fdt a).trans (fdt a),
      fun a other => (same.progFreq a).trans (progFreq a other)⟩

theorem RtcTidy.writeCall (tidy : RtcTidy s) (fd : Fd) (buf : Option (BitVec 32)) (nbytes : Int)
    (stack : OnStack s.tss.esp0 r.esp) :
    RtcTidy (writeCall r fd buf nbytes s) ∧ ¬ ReleasesRtc s (writeCall r fd buf nbytes s) := by
  obtain ⟨valid, used, onStack⟩ := tidy.consistent.running
  have block := onStack r.esp stack
  unfold BigBrainOS.writeCall
  split
  · next dispatch =>
    have rtc : (s.pcb (s.currPid s.currProcess)).HasRtc := by
      refine ⟨fd, ?_⟩
      rw [← s.currPcb_eq block]
      unfold sysWrite at dispatch
      dsimp only at dispatch
      split at dispatch
      · cases dispatch
      · split at dispatch
        · next enabled => exact ⟨enabled, Dispatch.call.inj dispatch⟩
        · cases dispatch
    obtain ⟨view, used', fdt, progFreq⟩ := rtcWrite_elsewhere buf nbytes s
    have elsewhere : Elsewhere (s.currPid s.currProcess) s (rtcWrite buf nbytes s).2 :=
      ⟨used', fun q _ => fdt _, fun q other => progFreq _ (getPcbByPid_ne valid other)⟩
    have kept : ((rtcWrite buf nbytes s).2.pcb (s.currPid s.currProcess)).HasRtc := (hasRtc_congr (fdt _)).2 rtc
    refine ⟨tidy.elsewhere elsewhere view ?_ fun _ none => absurd kept none, elsewhere.not_releases fun _ => kept⟩
    rw [Kernel.pcb, fdt]
    exact tidy.table _ used
  · exact ⟨tidy, not_releasesRtc_self s⟩

/-! ### Closing -/

/-- When a process has no RTC descriptor left, the open requests are those of the others. -/
theorem Elsewhere.le_openRequests {s' : Kernel} (elsewhere : Elsewhere p s s') (consistent : Consistent s)
    (none : ¬ (s'.pcb p).HasRtc) : (s.pcb p).progFreq ≤ openRequests s' ↔ Outbid s p := by
  rw [BigBrainOS.le_openRequests]
  refine or_congr_right ⟨?_, ?_⟩
  · rintro ⟨i, -, ⟨used, rtc⟩, le⟩
    have other : (i : Int) ≠ p := by
      rintro rfl
      exact none rtc
    rw [elsewhere.used] at used
    rw [hasRtc_congr (elsewhere.fdt _ other)] at rtc
    rw [elsewhere.progFreq _ other] at le
    exact ⟨i, other, ⟨used, rtc⟩, le⟩
  · rintro ⟨q, other, ⟨used, rtc⟩, le⟩
    obtain ⟨low, high⟩ := consistent.valid used
    refine ⟨q.toNat, by simp only [maxProcesses]; omega, ?_⟩
    rw [Int.toNat_of_nonneg low, elsewhere.used, hasRtc_congr (elsewhere.fdt _ other), elsewhere.progFreq _ other]
    exact ⟨⟨used, rtc⟩, le⟩

/-- After `rtc_close` the frequency is right exactly if the running process, when it
has no RTC descriptor left, asks for no more than the others. -/
theorem RtcTidy.released_iff {s' : Kernel} (tidy : RtcTidy s) (elsewhere : Elsewhere (s.currPid s.currProcess) s s')
    (none : ¬ (s'.pcb (s.currPid s.currProcess)).HasRtc) (programmed : s'.higherFreq = maxRequestedFreq s') :
    RtcReleased s' ↔ (s'.pcb (s.currPid s.currProcess)).progFreq ≤ openRequests s' := by
  obtain ⟨valid, used, -⟩ := tidy.consistent.running
  have start : rtcStartFreq ≤ openRequests s' := (openRequests_le.1 (Nat.le_refl _)).1
  rw [RtcReleased, programmed, maxRequestedFreq_eq_iff]
  constructor
  · intro closed
    obtain ⟨low, high⟩ := valid
    have own := closed (s.currPid s.currProcess).toNat (by simp only [maxProcesses]; omega)
    rw [Int.toNat_of_nonneg low, elsewhere.used] at own
    exact own used none
  · intro own i _ used' none'
    by_cases same : (i : Int) = s.currPid s.currProcess
    · rw [same]
      exact own
    · rw [elsewhere.used] at used'
      rw [hasRtc_congr (elsewhere.fdt _ same)] at none'
      rw [elsewhere.progFreq _ same]
      exact (tidy.quiet _ used' none').trans start

/-- `sys_close` of an open descriptor disables it and concerns the block of the running process only. -/
theorem sysClose_elsewhere {fd : Fd} {fot : Fot} (valid : ValidPid (s.currPid s.currProcess))
    (block : getCurrPcb r.esp = getPcbByPid (s.currPid s.currProcess)) (low : 2 ≤ fd.val)
    (enabled : ((s.currPcb r).fdt fd).enabled = true) (fotPtr : ((s.currPcb r).fdt fd).fotPtr = some fot) :
    (sysClose r fd s).2.view = s.view ∧ Elsewhere (s.currPid s.currProcess) s (sysClose r fd s).2 ∧
      (∀ a, ((sysClose r fd s).2.pcbs a).progFreq = (s.pcbs a).progFreq) ∧
      ((sysClose r fd s).2.currPcb r).fdt =
        Function.update (s.currPcb r).fdt fd { (s.currPcb r).fdt fd with enabled := false } ∧
      (fot = .rtcFot → (sysClose r fd s).2.higherFreq = maxRequestedFreq (sysClose r fd s).2) := by
  have accepted : ¬ (fd.val < 2 ∨ ((s.currPcb r).fdt fd).enabled = false) := by simp [enabled]; omega
  simp only [sysClose, if_neg accepted, fotPtr]
  generalize disabled : s.setFd r fd (fun e => { e with enabled := false }) = s₁
  have reprogrammed : Reprogrammed s₁ (closeFile (some fot) s₁) := closeFile_reprogrammed _ s₁
  have same := reprogrammed.sameAsks
  have progFreq : ∀ a, ((closeFile (some fot) s₁).pcbs a).progFreq = (s.pcbs a).progFreq := by
    intro a
    rw [same.progFreq, ← disabled, setFd_progFreq]
  refine ⟨?view, ⟨?used, fun q other => ?fdt, fun q _ => progFreq _⟩, progFreq, ?table, ?programmed⟩
  case view => rw [reprogrammed.view, ← disabled, setFd_view]
  case used =>
    rw [same.used, ← disabled]
    rfl
  case fdt =>
    have apart := getPcbByPid_ne valid other
    rw [Kernel.pcb, same.fdt, ← disabled, setFd_other _ _ _ _ (by rw [block]; exact apart)]
    rfl
  case table => rw [Kernel.currPcb, same.fdt, ← Kernel.currPcb, ← disabled, setFd_fdt, fotPtr]
  case programmed =>
    rintro rfl
    rw [same.maxRequestedFreq]
    exact rtcClose_higherFreq s₁

/-- A table that has no RTC descriptor once one entry is changed had its last one there. -/
theorem Pcb.lastRtc_of_update {pcb pcb' : Pcb} {fd : Fd} {e : FdtEntry} (fdt : pcb'.fdt = Function.update pcb.fdt fd e)
    (rtc : pcb.HasRtc) (none : ¬ pcb'.HasRtc) : pcb.LastRtc fd := by
  have only : ∀ j, (pcb.fdt j).enabled = true ∧ (pcb.fdt j).fotPtr = some .rtcFot → j = fd := by
    intro j rtc
    by_contra other
    refine none ⟨j, ?_⟩
    rw [fdt, Function.update_of_ne other]
    exact rtc
  obtain ⟨k, rtc⟩ := rtc
  refine fun j => ⟨only j, ?_⟩
  rintro rfl
  rw [← only k rtc]
  exact rtc

/-- `sys_close` releases a last RTC descriptor rightly exactly if its process asks
for no more than the others. -/
theorem RtcTidy.sysClose (tidy : RtcTidy s) (fd : Fd) (stack : OnStack s.tss.esp0 r.esp) :
    (ClosesQuietly s (.close r fd) → RtcTidy (sysClose r fd s).2) ∧
      (ReleasesRtc s (sysClose r fd s).2 → (s.pcb (s.currPid s.currProcess)).LastRtc fd ∧
        (RtcReleased (sysClose r fd s).2 ↔ Outbid s (s.currPid s.currProcess))) := by
  obtain ⟨valid, used, onStack⟩ := tidy.consistent.running
  have block := onStack r.esp stack
  have own := fun s' : Kernel => s'.currPcb_eq block
  have table := tidy.table _ used
  by_cases isOpen : 2 ≤ fd.val ∧ ((s.currPcb r).fdt fd).enabled = true
  · have table' : TableInv (s.currPcb r).fdt := by rw [own]; exact table
    obtain ⟨fot, fotPtr⟩ := Option.isSome_iff_exists.1 (table'.handlers fd isOpen.2)
    obtain ⟨view, elsewhere, progFreq, fdt, programmed⟩ := sysClose_elsewhere valid block isOpen.1 isOpen.2 fotPtr
    rw [own, own] at fdt
    rw [own] at fotPtr
    generalize (BigBrainOS.sysClose r fd s).2 = s' at view elsewhere progFreq fdt programmed ⊢
    refine ⟨fun quietly => tidy.elsewhere elsewhere view ?_ fun _ none => ?_, fun releases => ?_⟩
    · rw [fdt]
      exact table.update isOpen.1 fun enabled => by cases enabled
    · rw [Kernel.pcb, progFreq]
      by_cases rtc : (s.pcb (s.currPid s.currProcess)).HasRtc
      · exact quietly (Pcb.lastRtc_of_update fdt rtc none)
      · exact tidy.quiet _ used rtc
    · have none : ¬ (s'.pcb (s.currPid s.currProcess)).HasRtc := fun rtc => elsewhere.not_releases (fun _ => rtc) releases
      have rtc : (s.pcb (s.currPid s.currProcess)).HasRtc := by
        by_contra noRtc
        exact elsewhere.not_releases (fun rtc => absurd rtc noRtc) releases
      have lastRtc := Pcb.lastRtc_of_update fdt rtc none
      have isRtc : fot = .rtcFot := Option.some.inj (fotPtr.symm.trans ((lastRtc fd).2 rfl).2)
      refine ⟨lastRtc, ?_⟩
      rw [tidy.released_iff elsewhere none (programmed isRtc), ← elsewhere.le_openRequests tidy.consistent none, Kernel.pcb,
        progFreq]
      rfl
  · rw [sysClose_refused isOpen]
    exact ⟨fun _ => tidy, fun releases => absurd releases (not_releasesRtc_self s)⟩

end Descriptors

end BigBrainOS
