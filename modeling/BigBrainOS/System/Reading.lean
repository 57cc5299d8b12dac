import BigBrainOS.Files.Sequential
import BigBrainOS.System.Runs

/-!
# All readers of the machine

Every process opens, reads and closes files on descriptors of its own, and the
clock may take the processor away between any two calls. The run keeps for each
process which files it has opened and what their reads have delivered. On every
descriptor of every process these bytes are the file's content up to the position
in the descriptor, whatever the other processes read, start and end in between.
-/

namespace BigBrainOS
set_option autoImplicit false

/-! ## A descriptor of an open file -/

/-- The entry `e` is that of the file `inode`, of which `delivered` has been read. -/
structure ReadUpTo (img : Image) (e : FdtEntry) (inode : Nat) (delivered : List UInt8) : Prop where
  fot : e.fotPtr = some .fileFot
  enabled : e.enabled = true
  inodeIdx : e.inodeIdx = inode
  valid : inode < img.numInodes
  inside : e.filePosition ≤ img.lengthInBytes inode
  delivered : delivered = (img.fileContent inode).take e.filePosition

section Read
variable {img : Image} {r : Regs} {s : Kernel} {fd : Fd} {inode : Nat} {delivered : List UInt8}

/-- A read of an open file returns the next bytes, as many as are asked for and
left; a negative number, taken as unsigned, asks for all that is left. -/
theorem ReadUpTo.fileRead (upTo : ReadUpTo img ((s.currPcb r).fdt fd) inode delivered) (wf : img.WellFormed) (buf : Bytes)
    (nbytes : Int) :
    let e := (s.currPcb r).fdt fd
    ∃ bytes s', bytes = ((img.fileContent inode).drop e.filePosition).take (nbytes % 2 ^ 32).toNat ∧
      sysReadFile img r fd buf nbytes s = some ((bytes.length : Int), store buf bytes, s') ∧
      readCall img r fd (some buf) nbytes s = s' ∧
      (s'.currPcb r).fdt fd = { e with filePosition := e.filePosition + bytes.length } ∧
      ∀ fd', fd' ≠ fd → (s'.currPcb r).fdt fd' = (s.currPcb r).fdt fd' := by
  intro e
  have dispatch : sysRead r fd false s = .call (some .fileFot) := by
    simp [sysRead, upTo.enabled, upTo.fot]
  have data : img.readData e.inodeIdx e.filePosition (nbytes % 2 ^ 32).toNat =
      some (((img.fileContent inode).drop e.filePosition).take (nbytes % 2 ^ 32).toNat) := by
    rw [upTo.inodeIdx]
    exact Image.readData_eq upTo.valid _ _
  generalize content : ((img.fileContent inode).drop e.filePosition).take (nbytes % 2 ^ 32).toNat = bytes at data
  have left : e.filePosition + bytes.length ≤ img.lengthInBytes inode := by
    have inside : e.filePosition ≤ img.lengthInBytes inode := upTo.inside
    rw [← content, List.length_take, List.length_drop, Image.fileContent_length]
    omega
  have small := wf.lengths inode upTo.valid
  have ran : BigBrainOS.fileRead img r fd buf nbytes s = ((bytes.length : Int), store buf bytes,
      s.setFd r fd fun e => { e with filePosition := (e.filePosition + bytes.length) % 2 ^ 32 }) := by
    simp only [e] at data
    simp only [BigBrainOS.fileRead, data]
  refine ⟨bytes, s.setFd r fd fun e => { e with filePosition := (e.filePosition + bytes.length) % 2 ^ 32 },
    rfl, ?_, ?_, ?_, fun fd' other => setFd_fdt_of_ne _ _ _ other⟩
  · rw [sysReadFile, dispatch]
    exact congrArg some ran
  · simp only [readCall, Option.isNone_some, dispatch, ran]
  · -- the file is shorter than 2 ^ 32 bytes, so the position does not wrap
    have exact_ : (e.filePosition + bytes.length) % 2 ^ 32 = e.filePosition + bytes.length := by
      simp only [dataBlock, blockSizeBytes] at small
      omega
    rw [setFd_fdt_self, exact_]

/-- The entry after such a read is one of the file. -/
theorem ReadUpTo.advance {e : FdtEntry} (upTo : ReadUpTo img e inode delivered) {bytes : List UInt8} {n : Nat}
    (next : bytes = ((img.fileContent inode).drop e.filePosition).take n) :
    ReadUpTo img { e with filePosition := e.filePosition + bytes.length } inode (delivered ++ bytes) := by
  have inside := upTo.inside
  have length : bytes.length = min n (img.lengthInBytes inode - e.filePosition) := by
    rw [next, List.length_take, List.length_drop, Image.fileContent_length]
  refine ⟨upTo.fot, upTo.enabled, upTo.inodeIdx, upTo.valid, ?_, ?_⟩
  · dsimp only
    omega
  · have piece : bytes = ((img.fileContent inode).drop e.filePosition).take bytes.length := by
      refine next.trans ?_
      rw [List.take_eq_take_iff, List.length_drop, Image.fileContent_length, length]
      omega
    rw [upTo.delivered, List.take_add, ← piece]

end Read

/-! ## The run -/

/-- The files that a process has open, and what was delivered on their descriptors. -/
structure Opened where
  file : Fd → Option Nat
  delivered : Fd → List UInt8

namespace Opened

def none : Opened := ⟨fun _ => .none, fun _ => []⟩

def set (o : Opened) (fd : Fd) (file : Option Nat) (delivered : List UInt8) : Opened :=
  ⟨Function.update o.file fd file, Function.update o.delivered fd delivered⟩

theorem fd_lt {value : Int} (h : 0 ≤ value ∧ value < 8) : value.toNat < fdtMaxEntries := by
  simp only [fdtMaxEntries]
  omega

/-- What the running process has open after one of its steps from `s`. -/
def after (env : Env) (op : SystemOp) (s : Kernel) (o : Opened) : Opened :=
  match op with
  | .open_ r filename =>
    let (value, s') := sysOpen env.img r filename s
    if h : 0 ≤ value ∧ value < 8 then
      let fd : Fd := ⟨value.toNat, fd_lt h⟩
      let regular := ((s'.currPcb r).fdt fd).fotPtr = some .fileFot
      o.set fd (if regular then (env.img.readDentryByName filename).map DirEntry.inodeNum else .none) []
    else o
  | .close _ fd => o.set fd .none []
  | .read r fd (some buf) nbytes =>
    match sysReadFile env.img r fd buf nbytes s with
    | .none => o
    | some (value, buf', _) => o.set fd (o.file fd) (o.delivered fd ++ (List.range value.toNat).map buf')
  -- a page fault of the loader ends the caller
  | .machine (.call (.execute fr _ command)) => if (sysExecute env fr command s).1 = .fault then none else o
  | .machine (.call (.halt _ _)) => none
  | .machine (.pageFault _) => none
  | .exception _ _ => none
  | _ => o

theorem after_open {env : Env} {r : Regs} {filename : Bytes} {s s' : Kernel} {file : DirEntry} {fd : Fd}
    (found : env.img.readDentryByName filename = some file) (opened : sysOpen env.img r filename s = ((fd.val : Int), s'))
    (o : Opened) : o.after env (.open_ r filename) s =
      o.set fd (if ((s'.currPcb r).fdt fd).fotPtr = some .fileFot then some file.inodeNum else .none) [] := by
  have small := fd.isLt
  simp only [fdtMaxEntries] at small
  have range : 0 ≤ (fd.val : Int) ∧ (fd.val : Int) < 8 := by omega
  have index : (⟨(fd.val : Int).toNat, by simp only [fdtMaxEntries]; omega⟩ : Fd) = fd := by
    apply Fin.ext
    exact Int.toNat_natCast fd.val
  simp only [after, opened, dif_pos range, index, found, Option.map_some]

end Opened

/-- The machine, with what each process has open. -/
structure Readers where
  kernel : Kernel
  opened : Int → Opened

/-- All steps of the machine, followed for every process. -/
def readers (env : Env) (tableAddr : Nat) : TransitionSystem Readers SystemOp where
  ok q op := op.Allowed q.kernel
  next q op :=
    { kernel := op.run env tableAddr q.kernel
      opened := Function.update q.opened q.kernel.running ((q.opened q.kernel.running).after env op q.kernel) }

/-- After boot nobody has opened a file. -/
def Readers.Start (env : Env) (q : Readers) : Prop := Booted env q.kernel ∧ ∀ p, q.opened p = .none

/-- The files that process `p` has open are in its table, with what was delivered. -/
def Opened.Kept (img : Image) (s : Kernel) (p : Int) (o : Opened) : Prop :=
  ∀ fd inode, o.file fd = some inode →
    s.usedPids p = true ∧ 2 ≤ fd.val ∧ ReadUpTo img ((s.pcb p).fdt fd) inode (o.delivered fd)

namespace Opened.Kept
variable {img : Image} {s s' : Kernel} {p : Int} {o : Opened}

theorem of_none (img : Image) (s : Kernel) (p : Int) : Opened.none.Kept img s p := fun _ _ file => by cases file

/-- A step that leaves the table of the process as it is. -/
theorem congr (kept : o.Kept img s p) (used : s'.usedPids p = s.usedPids p) (fdt : (s'.pcb p).fdt = (s.pcb p).fdt) :
    o.Kept img s' p := by
  intro fd inode file
  rw [used, fdt]
  exact kept fd inode file

theorem sameAsks (kept : o.Kept img s p) (same : SameAsks s s') : o.Kept img s' p :=
  kept.congr (congrFun same.used p) (same.fdt _)

/-- A step of another process. -/
theorem leftAlone (kept : o.Kept img s p) (alone : s.usedPids p = true → LeftAlone p (s.pcb p) s.phys s') :
    o.Kept img s' p := by
  intro fd inode file
  obtain ⟨used, low, upTo⟩ := kept fd inode file
  obtain ⟨live, ⟨d, same⟩⟩ := (alone used).used, (alone used).block
  refine ⟨live, low, ?_⟩
  rw [same]
  exact upTo

/-- A new entry of the table. -/
theorem set (kept : o.Kept img s p) (used : s'.usedPids p = s.usedPids p) {fd : Fd} {file : Option Nat} {delivered : List UInt8}
    (entry : ∀ inode, file = some inode →
      s.usedPids p = true ∧ 2 ≤ fd.val ∧ ReadUpTo img ((s'.pcb p).fdt fd) inode delivered)
    (others : ∀ fd', 2 ≤ fd'.val → fd' ≠ fd → (s'.pcb p).fdt fd' = (s.pcb p).fdt fd') : (o.set fd file delivered).Kept img s' p := by
  intro fd' inode' file'
  rw [used]
  by_cases same : fd' = fd
  · subst same
    simp only [Opened.set, Function.update_self] at file' ⊢
    exact entry inode' file'
  · simp only [Opened.set, Function.update_of_ne same] at file' ⊢
    obtain ⟨live, low, upTo⟩ := kept fd' inode' file'
    rw [others fd' low same]
    exact ⟨live, low, upTo⟩

variable {env : Env} {r : Regs}

theorem open_ (kept : o.Kept env.img s p) (wf : env.img.WellFormed) (live : s.usedPids p = true)
    (block : ∀ s : Kernel, s.currPcb r = s.pcb p) (filename : Bytes) (used : (sysOpen env.img r filename s).2.usedPids = s.usedPids) :
    (o.after env (.open_ r filename) s).Kept env.img (sysOpen env.img r filename s).2 p := by
  rcases sysOpen_cases env.img r filename s with failed | ⟨file, fd, s', found, low, -, opened, entry, others⟩
  · simp only [Opened.after, failed, error]
    exact kept
  · rw [Opened.after_open found opened]
    rw [opened] at used ⊢
    simp only [block] at entry others ⊢
    apply kept.set (congrFun used p) _ others
    intro inode file'
    split at file'
    · next regular =>
      cases file'
      refine ⟨live, low, regular, ?_, ?_, wf.found found, ?_, ?_⟩
      all_goals rw [entry]
      · exact Nat.zero_le _
      · exact List.take_zero.symm
    · cases file'

theorem close (kept : o.Kept env.img s p) (block : ∀ s : Kernel, s.currPcb r = s.pcb p) (inv : TableInv (s.currPcb r).fdt) (fd : Fd)
    (used : (sysClose r fd s).2.usedPids = s.usedPids) :
    (o.after env (.close r fd) s).Kept env.img (sysClose r fd s).2 p := by
  apply kept.set (congrFun used p)
  · exact fun _ file => by cases file
  · intro fd' _ other
    rw [← block, ← block]
    rcases Classical.em (2 ≤ fd.val ∧ ((s.currPcb r).fdt fd).enabled = true) with ⟨low, enabled⟩ | refused
    · obtain ⟨s', closed, fdt⟩ := sysClose_open inv low enabled
      rw [closed, fdt, Function.update_of_ne other]
    · rw [sysClose_refused refused]

theorem read (kept : o.Kept env.img s p) (wf : env.img.WellFormed) (block : ∀ s : Kernel, s.currPcb r = s.pcb p) (fd : Fd)
    (buf : Option Bytes) (nbytes : Int) (used : (readCall env.img r fd buf nbytes s).usedPids = s.usedPids) :
    (o.after env (.read r fd buf nbytes) s).Kept env.img (readCall env.img r fd buf nbytes s) p := by
  have others : ∀ fd', fd' ≠ fd → ((readCall env.img r fd buf nbytes s).pcb p).fdt fd' = (s.pcb p).fdt fd' := by
    intro fd' other
    rw [← block, ← block]
    rcases readCall_fdt env.img r fd buf nbytes s with same | ⟨-, position, moved⟩
    · rw [same]
    · rw [moved, Function.update_of_ne other]
  cases buf with
  | none => exact kept
  | some buf =>
    cases known : o.file fd with
    | some inode =>
      obtain ⟨live, low, upTo⟩ := kept fd inode known
      rw [← block] at upTo
      obtain ⟨bytes, s', content, read, ran, entry, -⟩ := upTo.fileRead wf buf nbytes
      simp only [Opened.after, read, Int.toNat_natCast, store_prefix, known]
      apply kept.set (congrFun used p) _ fun fd' _ => others fd'
      intro inode' same
      obtain rfl := Option.some.inj same
      refine ⟨live, low, ?_⟩
      rw [← block, ran, entry]
      exact upTo.advance content
    | none =>
      simp only [Opened.after]
      split
      · next refused => 
        intro fd' inode file
        obtain ⟨live, low, upTo⟩ := kept fd' inode file
        have other : fd' ≠ fd := by rintro rfl; rw [known] at file; cases file
        rw [used, others fd' other]
        exact ⟨live, low, upTo⟩
      · rw [known]
        apply kept.set (congrFun used p) _ fun fd' _ => others fd'
        exact fun _ file => by cases file

end Opened.Kept

section Steps
variable {env : Env} {tableAddr : Nat} {s : Kernel} {p : Int} {o : Opened}

/-- A step of the process itself. -/
theorem Opened.Kept.own (kept : o.Kept env.img s s.running) (inv : SystemInv s) (wf : env.img.WellFormed)
    {op : SystemOp} (allowed : op.Allowed s) :
    (o.after env op s).Kept env.img (op.run env tableAddr s) s.running := by
  obtain ⟨valid, live, onStack⟩ := inv.consistent.running
  have table := inv.tabled s.running live
  have found : ∀ {r : Regs}, OnStack s.tss.esp0 r.esp → ∀ s' : Kernel, s'.currPcb r = s'.pcb s.running :=
    fun stack s' => s'.currPcb_eq (onStack _ stack)
  have used : ∀ {s'}, OwnRecords (getPcbByPid s.running) s s' → s'.usedPids = s.usedPids :=
    fun own => congrArg ProcView.usedPids own.view
  cases op with
  | open_ r filename =>
    exact kept.open_ wf live (found allowed) filename (used (sysOpen_own (onStack _ allowed) env.img filename))
  | close r fd =>
    rw [← found allowed s] at table
    exact kept.close (found allowed) table fd (used (sysClose_own (onStack _ allowed) fd))
  | read r fd buf nbytes =>
    exact kept.read wf (found allowed) fd buf nbytes (used (readCall_own (onStack _ allowed) env.img fd buf nbytes))
  | write r fd buf nbytes =>
    show o.Kept env.img (sysWriteCall r fd buf nbytes s).2 s.running
    unfold sysWriteCall
    split
    · exact kept
    · apply kept.congr (congrFun (used (rtcWrite_own _ nbytes s)) _)
      rw [Kernel.pcb, (rtcWrite_elsewhere _ nbytes s).2.2.1, Kernel.pcb]
    · exact kept.sameAsks (.of_clock (terminalWrite_drew inv.paged buf nbytes).output.clock)
    · exact kept
  | wait stmt => exact kept.congr (congrFun (used (waitStmt_own stmt s)) _) (stmt.run_fdt s _)
  | clock => exact kept
  | exception exc text => exact .of_none _ _ _
  | store lin b =>
    show o.Kept env.img (s.userStore lin.toNat b) s.running
    unfold Kernel.userStore
    split
    · exact kept
    · exact kept
  | machine op =>
    cases op with
    | pageFault exc => exact .of_none _ _ _
    | vidmap screenStart =>
      show o.Kept env.img (sysVidmap tableAddr screenStart s).2 s.running
      rcases Classical.em (InProgramPage screenStart) with taken | refused
      · exact kept.sameAsks (s := s) (.of_clock (sysVidmap_stored taken tableAddr s).clock)
      · rw [sysVidmap_refused refused]
        exact kept
    | call op =>
      obtain ⟨⟨F, tree⟩, -⟩ := inv.consistent
      cases op with
      | halt fr status => exact .of_none _ _ _
      | tick r fr => exact kept.sameAsks (tick_sameAsks env r fr (tree.currPid_ne _) (tree.currPid_ne _))
      | putc c => exact kept.sameAsks (.of_clock (putc_output c s).clock)
      | key scancode => exact kept.sameAsks (.of_clock (kbHandler_typed scancode s).clock)
      | execute fr exc command =>
        have executed := fun live => (inv.leftAlone (q := s.running) live).sysExecute valid env fr command
        simp only [Opened.after, SystemOp.run, MachineOp.run, Op.run, executeCall]
        generalize sysExecute env fr command s = out at executed
        obtain ⟨outcome, s'⟩ := out
        cases outcome with
        | fault => exact .of_none _ _ _
        | failed => exact kept.leftAlone executed
        | launched n eip => exact kept.leftAlone executed

/-- What holds in every state of the machine and its readers. -/
structure Readers.Inv (env : Env) (q : Readers) : Prop where
  system : SystemInv q.kernel
  kept : ∀ p, (q.opened p).Kept env.img q.kernel p

/-- **Step lemma.** A process's own step moves its records along; any other leaves them alone. -/
theorem Readers.Inv.step {q : Readers} (inv : q.Inv env) (loadable : ShellLoadable env) (wf : env.img.WellFormed)
    {op : SystemOp} (allowed : op.Allowed q.kernel) : ((readers env tableAddr).next q op).Inv env := by
  refine ⟨inv.system.step loadable tableAddr allowed, fun p => ?_⟩
  rcases eq_or_ne p q.kernel.running with rfl | other
  · simp only [readers, Function.update_self]
    exact (inv.kept _).own inv.system wf allowed
  · simp only [readers, Function.update_of_ne other]
    apply (inv.kept p).leftAlone
    intro live
    exact (inv.system.leftAlone live).step (inv.system.consistent.valid live) inv.system.consistent other.symm allowed

theorem Readers.Inv.of_reach (loadable : ShellLoadable env) (wf : env.img.WellFormed) {q : Readers}
    (reach : (readers env tableAddr).Reach (Readers.Start env) q) : q.Inv env := by
  apply reach.invariant
  · rintro q ⟨booted, nothing⟩
    refine ⟨booted.inv loadable, fun p => ?_⟩
    rw [nothing]
    exact .of_none _ _ _
  · exact fun _ _ inv allowed => inv.step loadable wf allowed

end Steps

end BigBrainOS
