import BigBrainOS.System.Privacy
import BigBrainOS.Files.Buffers
import BigBrainOS.Kernel.UserCalls

/-!
# Programs and their memory

A program passes pointers: the names, commands and buffers of its calls are bytes of
its own memory, and what a call delivers is stored there. Here the calls are made the way
programs make them, and the bytes go through the page tables in both directions. Every such
step is a list of steps of `systemCalls`.

As there, a call is one step, its descriptor is one of 0 to 7, and a key arrives while
`curr_process` is `curr_ter`. A pointer has the access of the program that passes it: a
byte that the program could not load counts as 0, and one that it could not store is dropped.
-/

namespace BigBrainOS
set_option autoImplicit false

/-! ## User memory -/

namespace Kernel
variable (s : Kernel)

/-- Both levels let programs in. -/
def userPage (lin : Nat) : Bool :=
  let pde := s.pageDirectory (lin / fourMB)
  let table := if lin / fourMB = 0 then s.pageTable else s.vidmemPageTable
  pde.userSupervisor && (pde.pageSize || (table (lin / pageSize % 1024)).userSupervisor)

/-- The byte that a program loads. -/
def userByte (lin : BitVec 32) : UInt8 := if s.userPage lin.toNat then s.readByte lin.toNat else 0

/-- The bytes from a pointer on. -/
def userBytes (ptr : BitVec 32) : Bytes := fun k => s.userByte (ptr + BitVec.ofNat 32 k)

/-- The bytes at a pointer that may be null. -/
def userBuffer (ptr : BitVec 32) : Option Bytes := if ptr = 0 then none else some (s.userBytes ptr)

end Kernel

/-- A program, or a call for it, only reaches its own frame and the screens. -/
theorem Paged.userPage_cases {s : Kernel} {p : Int} {lin a : Nat} (paged : Paged s) (maps : s.MapsProgram p)
    (page : s.userPage lin = true) (address : s.translate lin = some a) : InFrame p a ∨ InVideo a := by
  have user : (s.pageDirectory (lin / fourMB)).userSupervisor = true := by
    simp only [Kernel.userPage, Bool.and_eq_true] at page
    exact page.1
  have index : lin / fourMB = userProgramPdIdx ∨ lin / fourMB = userProgramPdIdx + 1 := by
    by_contra neither
    rw [not_or] at neither
    rw [paged.users _ neither.1 neither.2] at user
    cases user
  simp only [fourMB, userProgramPdIdx] at index
  exact paged.translate_cases maps (by omega) (by omega) address

/-! ## What the calls deliver -/

/-- The bytes that `sys_read` stores in the buffer, unless its handler waits. -/
def readGives (img : Image) (r : Regs) (fd : Fd) (buf : Option Bytes) (nbytes : Int) (s : Kernel) : List UInt8 :=
  match buf, sysRead r fd buf.isNone s with
  | some b, .call (some .fileFot) =>
    let (value, bytes, _) := fileRead img r fd b nbytes s
    (List.range value.toNat).map bytes
  | some b, .call (some .dirFot) =>
    let dirPos := ((s.currPcb r).fdt fd).filePosition
    if signed dirPos ≥ img.numDirEntries ∨ img.readDentryByIndex dirPos = none then []
    else (List.range fileNameSize).map (dirRead img r fd b s).2.1
  | _, _ => []

/-- The bytes that `terminal_read` stores when it goes on behind its wait; `old` is what its stack held. -/
def lineGives (old : Bytes) (buf : Bytes) (nbytes : Int) (s : Kernel) : Option Int × List UInt8 :=
  match terminalRead (s.terminals s.currProcess) old buf nbytes with
  | none => (none, [])
  | some (value, bytes) => (some value, (List.range (clampRead nbytes).toNat).map bytes)

/-- The bytes that `sys_getargs` stores: the argument, and a zero if the loop "Clear buffer" runs. -/
def getargsGives (r : Regs) (buf : Option Bytes) (nbytes : Int) (s : Kernel) : Option Int × List UInt8 :=
  match sysGetargs r buf nbytes s with
  | (0, some bytes) =>
    let length := (s.currPcb r).argLen.toNat
    (some 0, (List.range (if 0 < nbytes then length + 1 else length)).map bytes)
  | (value, _) => (some value, [])

/-! ## The steps -/

/-- A step of a program, or around it. -/
inductive UserOp where
  | execute (fr exc : ExecFrame) (command : BitVec 32)
  | open_ (r : Regs) (filename : BitVec 32)
  | read (r : Regs) (fd : Fd) (buf : BitVec 32) (nbytes : Int)
  /-- `terminal_read` goes on with a line. -/
  | line (old : Bytes) (buf : BitVec 32) (nbytes : Int)
  | write (r : Regs) (fd : Fd) (buf : BitVec 32) (nbytes : Int)
  | getargs (r : Regs) (buf : BitVec 32) (nbytes : Int)
  | vidmap (screenStart : BitVec 32)
  | load (lin : BitVec 32)
  | store (lin : BitVec 32) (b : UInt8)
  /-- A step without pointers: an interrupt, an exception, `close`, `halt`, or a store of a handler that waits. -/
  | plain (op : SystemOp)

/-- Steps that have no pointer and no bytes. -/
def SystemOp.Plain (op : SystemOp) : Prop :=
  match op with
  | .machine (.call (.execute _ _ _)) | .machine (.vidmap _) => False
  | .open_ _ _ | .read _ _ _ _ | .write _ _ _ _ | .store _ _ => False
  | _ => True

namespace UserOp
variable (env : Env) (tableAddr : Nat) (op : UserOp) (s : Kernel)

/-- The step of the kernel, with the bytes that it finds at the pointers. -/
def call : Option SystemOp :=
  match op with
  | .execute fr exc command => some (.machine (.call (.execute fr exc (s.userBytes command))))
  | .open_ r filename => some (.open_ r (s.userBytes filename))
  | .read r fd buf nbytes => some (.read r fd (s.userBuffer buf) nbytes)
  | .line _ _ _ => some (.wait .clearBuffer)
  | .write r fd buf nbytes => some (.write r fd (s.userBuffer buf) nbytes)
  | .getargs _ _ _ => none
  | .vidmap screenStart => some (.machine (.vidmap screenStart))
  | .load _ => none
  | .store lin b => some (.store lin b)
  | .plain op => some op

/-- The pointer to which a call delivers bytes, and the bytes. -/
def gives : BitVec 32 × List UInt8 :=
  match op with
  | .read r fd buf nbytes => (buf, readGives env.img r fd (s.userBuffer buf) nbytes s)
  | .line old buf nbytes => (buf, (lineGives old (s.userBytes buf) nbytes s).2)
  | .getargs r buf nbytes => (buf, (getargsGives r (s.userBuffer buf) nbytes s).2)
  | _ => (0, [])

/-- The steps of the kernel: the call, then the stores of what it delivers. -/
def steps : List SystemOp :=
  let (ptr, bytes) := op.gives env s
  (op.call s).toList ++ bytes.zipIdx.map fun (b, k) => .store (ptr + BitVec.ofNat 32 k) b

def run : Kernel := (systemCalls env tableAddr).exec s (op.steps env s)

/-- What the program learns: the value that the call returns, and the bytes that it loads or is given. -/
def answer : Option Int × List UInt8 :=
  match op with
  | .load lin => (none, [s.userByte lin])
  | .line old buf nbytes => lineGives old (s.userBytes buf) nbytes s
  | .getargs r buf nbytes => getargsGives r (s.userBuffer buf) nbytes s
  | op => ((op.call s).bind fun call => (call.answer env tableAddr s).1, (op.gives env s).2)

/-- The calls run on the stack that `tss.esp0` gave them. -/
def Allowed : Prop :=
  match op with
  | .getargs r _ _ => OnStack s.tss.esp0 r.esp
  | .plain op => op.Plain ∧ op.Allowed s
  | op => ∀ call ∈ op.call s, call.Allowed s

end UserOp

/-- The kernel and its programs. -/
def programs (env : Env) (tableAddr : Nat) : TransitionSystem Kernel UserOp where
  ok s op := op.Allowed s
  next s op := op.run env tableAddr s

/-- Process `q` takes no step that has to do with its memory. -/
def programsWithout (env : Env) (tableAddr : Nat) (q : Int) : TransitionSystem Kernel UserOp :=
  (programs env tableAddr).restrict fun s op => (∀ plain, op ≠ .plain plain) → s.running ≠ q

section Steps
variable {env : Env} {tableAddr : Nat} {s : Kernel} {op : UserOp}

/-- Stores may follow any step. -/
theorem stores_allowed (stores : List SystemOp) (all : ∀ op ∈ stores, ∃ lin b, op = .store lin b) (s : Kernel) :
    (systemCalls env tableAddr).Allowed s stores := by
  induction stores generalizing s with
  | nil => trivial
  | cons op stores ih =>
    obtain ⟨lin, b, rfl⟩ := all op List.mem_cons_self
    exact ⟨trivial, ih (fun op later => all op (List.mem_cons_of_mem _ later)) _⟩

theorem UserOp.Allowed.call (allowed : op.Allowed s) {call : SystemOp} (made : op.call s = some call) : call.Allowed s := by
  cases op with
  | getargs r buf nbytes => cases made
  | plain op =>
    obtain rfl := Option.some.inj made
    exact allowed.2
  | _ => exact allowed call made

/-- **The steps of a program are steps of the kernel.** -/
theorem UserOp.Allowed.steps (allowed : op.Allowed s) : (systemCalls env tableAddr).Allowed s (op.steps env s) := by
  have stores : ∀ op' ∈ ((op.gives env s).2.zipIdx.map fun (b, k) =>
      SystemOp.store ((op.gives env s).1 + BitVec.ofNat 32 k) b), ∃ lin b, op' = .store lin b := by
    intro op' member
    obtain ⟨⟨b, k⟩, -, rfl⟩ := List.mem_map.1 member
    exact ⟨_, _, rfl⟩
  unfold UserOp.steps
  cases made : op.call s with
  | none => exact stores_allowed _ stores s
  | some call => exact ⟨allowed.call made, stores_allowed _ stores _⟩

/-- So what holds in every run of the kernel holds in every run of the programs. -/
theorem programs_reach (reach : (programs env tableAddr).Reach (Booted env) s) :
    (systemCalls env tableAddr).Reach (Booted env) s := by
  induction reach with
  | base start => exact .base start
  | step op _ allowed ih => exact ih.exec allowed.steps

end Steps

/-! ## Privacy -/

namespace Alike
variable {env : Env} {tableAddr : Nat} {q : Int} {s t : Kernel} {op : UserOp}

section Bytes
variable (valid : ValidPid q) (alike : Alike q s t) (consistent : Consistent s) (other : s.running ≠ q)
include valid alike consistent other

/-- What a program loads does not lie in the frame of another one. -/
theorem userByte (lin : BitVec 32) : t.userByte lin = s.userByte lin := by
  obtain ⟨validRunning, -, -⟩ := consistent.running
  have maps : s.MapsProgram s.running := consistent.2.page
  have page : t.userPage lin.toNat = s.userPage lin.toNat := alike.congr (f := fun s => s.userPage lin.toNat) fun _ _ => rfl
  have place : t.translate lin.toNat = s.translate lin.toNat := alike.congr (f := fun s => s.translate lin.toNat) fun _ _ => rfl
  simp only [Kernel.userByte, Kernel.readByte, page, place]
  split
  · next mapped =>
    cases address : s.translate lin.toNat with
    | none => rfl
    | some a => exact alike.memory a (LeftAlone.outside_of_reach valid other validRunning (alike.paged.userPage_cases maps mapped address))
  · rfl

theorem userBytes (ptr : BitVec 32) : t.userBytes ptr = s.userBytes ptr :=
  funext fun _ => alike.userByte valid consistent other _

theorem userBuffer (ptr : BitVec 32) : t.userBuffer ptr = s.userBuffer ptr := by
  unfold Kernel.userBuffer
  rw [alike.userBytes valid consistent other]

end Bytes

theorem readGives (alike : Alike q s t) (img : Image) (r : Regs) (fd : Fd) (buf : Option Bytes) (nbytes : Int) :
    readGives img r fd buf nbytes t = readGives img r fd buf nbytes s := by
  apply alike.congr
  intro s m
  have dispatch : sysRead r fd buf.isNone (s.withMemory m) = sysRead r fd buf.isNone s := rfl
  have own : (s.withMemory m).currPcb r = s.currPcb r := rfl
  unfold BigBrainOS.readGives
  rw [dispatch, own]
  split
  · rw [fileRead_alike]
  · rw [dirRead_alike]
  · rfl

section Step
variable (valid : ValidPid q) (alike : Alike q s t) (consistent : Consistent s) (allowed : op.Allowed s)
  (other : (∀ plain, op ≠ .plain plain) → s.running ≠ q)
include valid alike consistent other

/-- The kernel finds the same at the pointers. -/
theorem userCall : op.call t = op.call s := by
  cases op with
  | execute fr exc command => simp only [UserOp.call, alike.userBytes valid consistent (other nofun)]
  | open_ r filename => simp only [UserOp.call, alike.userBytes valid consistent (other nofun)]
  | read r fd buf nbytes => simp only [UserOp.call, alike.userBuffer valid consistent (other nofun)]
  | write r fd buf nbytes => simp only [UserOp.call, alike.userBuffer valid consistent (other nofun)]
  | _ => rfl

/-- And it delivers the same. -/
theorem userGives : op.gives env t = op.gives env s := by
  cases op with
  | read r fd buf nbytes => simp only [UserOp.gives, alike.userBuffer valid consistent (other nofun), alike.readGives]
  | line old buf nbytes =>
    simp only [UserOp.gives, alike.userBytes valid consistent (other nofun)]
    exact alike.congr (f := fun s' => (buf, (lineGives old (s.userBytes buf) nbytes s').2)) fun _ _ => rfl
  | getargs r buf nbytes =>
    simp only [UserOp.gives, alike.userBuffer valid consistent (other nofun)]
    exact alike.congr (f := fun s' => (buf, (getargsGives r (s.userBuffer buf) nbytes s').2)) fun _ _ => rfl
  | _ => rfl

include allowed

/-- The program learns the same. -/
theorem userAnswer : op.answer env tableAddr t = op.answer env tableAddr s := by
  have call := alike.userCall valid consistent other
  have gives : op.gives env t = op.gives env s := alike.userGives valid consistent other
  cases op with
  | load lin => simp only [UserOp.answer, alike.userByte valid consistent (other nofun)]
  | line old buf nbytes =>
    simp only [UserOp.answer, alike.userBytes valid consistent (other nofun)]
    exact alike.congr (f := lineGives old (s.userBytes buf) nbytes) fun _ _ => rfl
  | getargs r buf nbytes =>
    simp only [UserOp.answer, alike.userBuffer valid consistent (other nofun)]
    exact alike.congr (f := getargsGives r (s.userBuffer buf) nbytes) fun _ _ => rfl
  | _ =>
    simp only [UserOp.answer, call, gives]
    refine congrArg (fun value => (value, _)) (Option.bind_congr fun call made => ?_)
    exact congrArg Prod.fst (alike.step valid consistent (allowed.call made)).1

theorem userAllowed : op.Allowed t := by
  have call := alike.userCall valid consistent other
  cases op with
  | getargs r buf nbytes =>
    have stack : t.tss = s.tss := alike.congr fun _ _ => rfl
    show OnStack t.tss.esp0 r.esp
    rw [stack]
    exact allowed
  | plain op => exact ⟨allowed.1, alike.allowed allowed.2⟩
  | _ =>
    intro op' made
    exact alike.allowed (allowed op' (call ▸ made))

omit consistent

/-- **Step lemma.** -/
theorem userRun (loadable : ShellLoadable env) (inv : SystemInv s) : Alike q (op.run env tableAddr s) (op.run env tableAddr t) := by
  have steps : op.steps env t = op.steps env s := by
    unfold UserOp.steps
    rw [alike.userCall valid inv.consistent other, alike.userGives valid inv.consistent other]
  unfold UserOp.run
  rw [steps]
  exact alike.run loadable valid inv allowed.steps

end Step

end Alike

/-- What the programs learn in a run. -/
def programAnswers (env : Env) (tableAddr : Nat) : Kernel → List UserOp → List (Option Int × List UInt8)
  | _, [] => []
  | s, op :: ops => op.answer env tableAddr s :: programAnswers env tableAddr (op.run env tableAddr s) ops

section Runs
variable {env : Env} {tableAddr : Nat} {q : Int}

/-- **Run lemma.** -/
theorem Alike.programs (loadable : ShellLoadable env) (valid : ValidPid q) {ops : List UserOp} :
    ∀ {s t : Kernel}, (programs env tableAddr).Reach (Booted env) s → Alike q s t →
      (programsWithout env tableAddr q).Allowed s ops →
        (programsWithout env tableAddr q).Allowed t ops ∧ programAnswers env tableAddr t ops = programAnswers env tableAddr s ops ∧
          Alike q ((programs env tableAddr).exec s ops) ((programs env tableAddr).exec t ops) := by
  induction ops with
  | nil => exact fun _ alike _ => ⟨trivial, rfl, alike⟩
  | cons op ops ih =>
    intro s t reach alike ⟨⟨allowed, other⟩, rest⟩
    have inv := SystemInv.of_reach loadable (programs_reach reach)
    have running : t.running = s.running := alike.congr (f := Kernel.running) fun _ _ => rfl
    have elsewhere : (∀ plain, op ≠ .plain plain) → t.running ≠ q := by
      rw [running]
      exact other
    obtain ⟨allowed', answers, after⟩ := ih (reach.step op allowed) (alike.userRun valid allowed other loadable inv) rest
    refine ⟨⟨⟨alike.userAllowed valid inv.consistent allowed other, elsewhere⟩, allowed'⟩, ?_, after⟩
    rw [programAnswers, programAnswers, alike.userAnswer valid inv.consistent allowed other]
    exact congrArg _ answers

end Runs

end BigBrainOS
