import BigBrainOS.Process.Loader
import BigBrainOS.Process.Mapping

/-!
# What decides a launch

`sys_execute` compares four bytes of `buf_elf` with the magic number and takes the
entry point from the loaded program. `read_data` may deliver fewer bytes than
that: then the comparison sees what the stack held, and the entry point is what
the frame held. With 28 bytes or more, the file alone decides.
-/

namespace BigBrainOS
set_option autoImplicit false

/-! ## The program in its frame -/

/-- The physical address of byte `k` of the program of `pid`. -/
def frameByte (pid : Int) (k : Nat) : Nat := programFrame pid * pageSize + (0x48000 + k)

theorem frameByte_eq {pid : Int} (valid : ValidPid pid) (k : Nat) : (frameByte pid k : Int) = (pid + 2) * 0x400000 + 0x48000 + k := by
  obtain ⟨low, high⟩ := valid
  simp only [frameByte, programFrame, fourMB, pageSize]
  omega

section Copies
variable {s : Kernel} {pid : Int} {l : Launch}

theorem translate_load (maps : s.MapsProgram pid) {k : Nat} (inside : k < programRoom) :
    s.translate (progLoadAddr + k) = some (frameByte pid k) := by
  rw [translate_program maps (by simp only [progLoadAddr]; omega) (by simp only [progLoadAddr, programRoom] at inside ⊢; omega)]
  simp only [frameByte, progLoadAddr, Option.some.injEq]
  omega

/-- Of the 4 MB from the load address on, only byte `k₀` itself goes to its place in the frame. -/
theorem translate_load_iff (valid : ValidPid pid) (maps : s.MapsProgram pid) (behind : VideoBehind s) {k k₀ a : Nat}
    (near : k < fourMB) (inside : k₀ < programRoom) (address : s.translate (progLoadAddr + k) = some a) :
    a = frameByte pid k₀ ↔ k = k₀ := by
  have place := frameByte_eq valid k₀
  obtain ⟨low, -⟩ := valid
  by_cases within : k < programRoom
  · rw [translate_load maps within, Option.some.injEq] at address
    rw [← address]
    simp only [frameByte]
    omega
  · -- behind the page there is at most one page, and it maps a video frame
    have far : a < 0x400000 := by
      have index : (progLoadAddr + k) / fourMB = userProgramPdIdx + 1 := by
        simp only [progLoadAddr, programRoom, fourMB, userProgramPdIdx] at *
        omega
      simp only [Kernel.translate, index, behind.small] at address
      split at address
      · cases address
      rw [if_neg Bool.false_ne_true, if_neg (show ¬ userProgramPdIdx + 1 = 0 by decide)] at address
      split at address
      · cases address
      · next present =>
        have first : (progLoadAddr + k) / pageSize % 1024 = 0 := by
          by_contra other
          exact present (behind.single _ other)
        have frame := behind.frame
        rw [first, Option.some.injEq] at address
        rw [← address]
        simp only [videoPage, pageSize] at frame ⊢
        omega
    constructor
    · intro same
      omega
    · intro same
      omega

/-- After the copies of some bytes, a place in the frame holds its byte if it was among them. -/
theorem copies_byte (valid : ValidPid pid) {k₀ : Nat} (inside : k₀ < programRoom) : ∀ (ks : List Nat) {s s' : Kernel},
    s.MapsProgram pid → VideoBehind s → (∀ k ∈ ks, k < fourMB) → runLaunch l (ks.map .copy) s = .ok s' →
      s'.phys (frameByte pid k₀) = if k₀ ∈ ks then l.program.getD k₀ 0 else s.phys (frameByte pid k₀) := by
  intro ks
  induction ks with
  | nil =>
    intro s s' _ _ _ run
    cases run
    rw [if_neg List.not_mem_nil]
  | cons k ks ih =>
    intro s s' maps behind near run
    simp only [List.map_cons, runLaunch, LaunchStmt.run] at run
    cases stored : s.writeByte (progLoadAddr + k) (l.program.getD k 0) with
    | none => simp only [stored] at run; cases run
    | some s₁ =>
      simp only [stored] at run
      obtain ⟨a, address, rfl⟩ := Option.map_eq_some_iff.1 stored
      have here := translate_load_iff valid maps behind (near k List.mem_cons_self) inside address
      have maps₁ : ({ s with phys := Function.update s.phys a (l.program.getD k 0) } : Kernel).MapsProgram pid := maps
      rw [ih maps₁ (behind.of_same rfl rfl) (fun j later => near j (List.mem_cons_of_mem k later)) run]
      by_cases later : k₀ ∈ ks
      · rw [if_pos later, if_pos (List.mem_cons_of_mem k later)]
      · rw [if_neg later]
        by_cases same : k = k₀
        · rw [if_pos (by rw [same]; exact List.mem_cons_self), here.2 same]
          simp only [Function.update_self, same]
        · rw [if_neg (by rw [List.mem_cons]; exact fun h => h.elim (fun e => same e.symm) later)]
          simp only [Function.update_of_ne (fun e => same (here.1 e.symm))]

/-- The copies succeed exactly if every address is mapped. -/
theorem copies_ok_iff : ∀ (ks : List Nat) {s : Kernel},
    (∃ s', runLaunch l (ks.map .copy) s = .ok s') ↔ ∀ k ∈ ks, (s.translate (progLoadAddr + k)).isSome = true := by
  intro ks
  induction ks with
  | nil =>
    intro s
    exact ⟨fun _ k member => absurd member List.not_mem_nil, fun _ => ⟨s, rfl⟩⟩
  | cons k ks ih =>
    intro s
    simp only [List.map_cons, runLaunch, LaunchStmt.run, List.forall_mem_cons]
    cases address : s.translate (progLoadAddr + k) with
    | none => simp [Kernel.writeByte, address]
    | some a =>
      simp only [Kernel.writeByte, address, Option.map_some, Option.isSome_some, true_and]
      exact ih (s := { s with phys := Function.update s.phys a (l.program.getD k 0) })

end Copies

/-! ## The outcome of the load -/

/-- Every byte of the program has a mapped address. -/
def LoadMapped (l : Launch) (s : Kernel) : Prop :=
  ∀ k < l.program.length, ((enableProgramPage l.newPid s).translate (progLoadAddr + k)).isSome = true

/-- Byte `k` behind the load address after the load: of the file, or else what the frame held. -/
def loadedByte (l : Launch) (phys : Nat → UInt8) (k : Nat) : UInt8 :=
  if k < l.program.length then l.program.getD k 0 else phys (frameByte l.newPid k)

section Outcome
variable {l : Launch} {s : Kernel}

theorem loadStmts_eq (l : Launch) (s : Kernel) :
    runLaunch l (loadStmts l) s = runLaunch l ((List.range l.program.length).map .copy) (enableProgramPage l.newPid s) := rfl

theorem loadProgram_fault (unmapped : ¬ LoadMapped l s) : (loadProgram l s).1 = .fault := by
  have stops : ¬ ∃ s', runLaunch l (loadStmts l) s = .ok s' := by
    rw [loadStmts_eq, copies_ok_iff]
    intro mapped
    exact unmapped fun k below => mapped k (List.mem_range.2 below)
  unfold loadProgram
  split
  · rfl
  · next s' loaded => exact absurd ⟨s', loaded⟩ stops

/-- A load that does not fault enters the program at the word that its bytes 24 to 27 are. -/
theorem loadProgram_launched (valid : ValidPid l.newPid) (behind : VideoBehind s) (near : l.program.length ≤ fourMB)
    (mapped : LoadMapped l s) :
    (loadProgram l s).1 = .launched l.newPid (word (loadedByte l s.phys) progEntryOffset) := by
  obtain ⟨s₁, loaded⟩ : ∃ s₁, runLaunch l ((List.range l.program.length).map .copy) (enableProgramPage l.newPid s) = .ok s₁ :=
    copies_ok_iff (List.range l.program.length) |>.2 fun k member => mapped k (List.mem_range.1 member)
  have byte : ∀ k < 28, s₁.readByte (progLoadAddr + k) = loadedByte l s.phys k := by
    intro k below
    have inside : k < programRoom := Nat.lt_trans below (by decide)
    have maps := enableProgramPage_maps l.newPid s
    obtain ⟨s₂, stored, outcome⟩ := runLaunch_copies l (List.range l.program.length) (enableProgramPage l.newPid s)
    have same : s₂ = s₁ := by
      rcases outcome with fault | ok
      · rw [loaded] at fault; cases fault
      · rw [loaded] at ok; exact (Except.ok.inj ok).symm
    have content := copies_byte valid inside (List.range l.program.length) maps (behind.enableProgramPage l.newPid)
      (fun k member => Nat.lt_of_lt_of_le (List.mem_range.1 member) near) loaded
    rw [Kernel.readByte, translate_load (same ▸ stored.mapsProgram maps) inside, Option.map_some, Option.getD_some, content]
    simp only [List.mem_range, loadedByte]
    rfl
  have entry : s₁.readWord (progLoadAddr + progEntryOffset) = word (loadedByte l s.phys) progEntryOffset := by
    simp only [Kernel.readWord, word, progEntryOffset, Nat.add_assoc, Nat.zero_add]
    rw [byte 24 (by decide), byte 25 (by decide), byte 26 (by decide), byte 27 (by decide)]
  obtain ⟨s', eip, run, enters⟩ := enterProgram_ok l s₁
  simp only [loadProgram, loadStmts_eq, loaded, enterProgram, run, entry]

end Outcome

/-! ## The executable check -/

section Check
variable {img : Image} {cmd : Command} {exe : DirEntry}

theorem checkExecutable_eq (found : img.readDentryByName cmd.executableName = some exe)
    (valid : exe.inodeNum < img.numInodes) (fr : ExecFrame) :
    checkExecutable img fr cmd =
      if (List.range 4).all fun i => store fr.bufElf ((img.fileContent exe.inodeNum).take 4) i == elfMagic.getD i 0 then
        some exe.inodeNum
      else none := by
  simp only [checkExecutable, found, Image.readData_eq valid, List.drop_zero]

/-- What passes the check begins like the magic number, as far as it goes. -/
theorem checkExecutable_prefix {fr : ExecFrame} {inode : Nat} (check : checkExecutable img fr cmd = some inode) :
    ∃ exe, img.readDentryByName cmd.executableName = some exe ∧ exe.inodeNum = inode ∧ inode < img.numInodes ∧
      (img.fileContent inode).take 4 <+: elfMagic := by
  have valid := checkExecutable_valid check
  cases found : img.readDentryByName cmd.executableName with
  | none => simp [checkExecutable, found] at check
  | some exe =>
    have same : exe.inodeNum = inode := by
      unfold checkExecutable at check
      simp only [found] at check
      split at check
      · cases check
      · exact (Option.ite_none_right_eq_some.1 check).2 |> Option.some.inj
    subst same
    rw [checkExecutable_eq found valid, Option.ite_none_right_eq_some] at check
    refine ⟨exe, rfl, rfl, valid, ?_⟩
    rw [List.prefix_iff_eq_take]
    apply List.ext_getElem
    · simp only [List.length_take, show elfMagic.length = 4 from rfl]
      omega
    · intro k inside inside'
      have four : k < 4 := by
        rw [List.length_take] at inside
        omega
      have agrees := List.all_eq_true.1 check.1 k (List.mem_range.2 four)
      rw [beq_iff_eq, store, List.getElem?_eq_getElem inside, Option.getD_some] at agrees
      rw [agrees, List.getElem_take, List.getD_eq_getElem?_getD, List.getElem?_eq_getElem (show k < elfMagic.length from four),
        Option.getD_some]

/-- With four bytes or more, the check is one of the file. -/
theorem checkExecutable_full (found : img.readDentryByName cmd.executableName = some exe)
    (valid : exe.inodeNum < img.numInodes) (full : 4 ≤ img.lengthInBytes exe.inodeNum)
    (begins : (img.fileContent exe.inodeNum).take 4 <+: elfMagic) :
    (img.fileContent exe.inodeNum).take 4 = elfMagic ∧ ∀ fr, checkExecutable img fr cmd = some exe.inodeNum := by
  have magic : (img.fileContent exe.inodeNum).take 4 = elfMagic := by
    apply begins.eq_of_length
    rw [List.length_take, Image.fileContent_length, show elfMagic.length = 4 from rfl]
    omega
  exact ⟨magic, checkExecutable_found found valid magic⟩

/-- With fewer, the stack decides: the rest of the magic number passes, zeros do not. -/
theorem checkExecutable_short (found : img.readDentryByName cmd.executableName = some exe)
    (valid : exe.inodeNum < img.numInodes) (short : img.lengthInBytes exe.inodeNum < 4)
    (begins : (img.fileContent exe.inodeNum).take 4 <+: elfMagic) (fr : ExecFrame) :
    checkExecutable img { fr with bufElf := fun k => elfMagic.getD k 0 } cmd = some exe.inodeNum ∧
      checkExecutable img { fr with bufElf := fun _ => 0 } cmd = none := by
  have length : ((img.fileContent exe.inodeNum).take 4).length < 4 := by
    rw [List.length_take, Image.fileContent_length]
    omega
  constructor
  · rw [checkExecutable_eq found valid, if_pos]
    rw [List.all_eq_true]
    intro k member
    rw [beq_iff_eq, store]
    by_cases inside : k < ((img.fileContent exe.inodeNum).take 4).length
    · have agrees := begins.getElem inside
      rw [List.getElem?_eq_getElem inside, Option.getD_some, agrees, List.getD_eq_getElem?_getD,
        List.getElem?_eq_getElem (Nat.lt_of_lt_of_le inside begins.length_le), Option.getD_some]
    · rw [List.getElem?_eq_none (by omega), Option.getD_none]
  · rw [checkExecutable_eq found valid, if_neg]
    intro all
    have last := List.all_eq_true.1 all 3 (by decide)
    rw [beq_iff_eq, store, List.getElem?_eq_none (by omega), Option.getD_none] at last
    exact absurd last (show (0 : UInt8) ≠ elfMagic.getD 3 0 by decide)

end Check

/-! ## The property -/

/-- Memory that differs from `phys` in the frames of the programs only. -/
def OnlyPrograms (phys m : Nat → UInt8) : Prop := ∀ a, a < 0x800000 ∨ 0x2000000 ≤ a → m a = phys a

/-- How the call ends if `buf_elf` held `buf` and memory `m`. -/
def outcomeWith (env : Env) (fr : ExecFrame) (command : Bytes) (s : Kernel) (buf : Bytes) (m : Nat → UInt8) : ExecOutcome :=
  (sysExecute env { fr with bufElf := buf } command { s with phys := m }).1

/-- The word that bytes 24 to 27 of a file are. -/
def entryPoint (content : List UInt8) : Nat := word (fun k => content.getD k 0) progEntryOffset

/-- Whatever was in `buf_elf` and in the frames, the call ends the same way. It
launches only a file that begins with the four bytes of the magic number, at the
entry point that the file gives. -/
def FileDecides (env : Env) (fr : ExecFrame) (command : Bytes) (s : Kernel) : Prop :=
  ∀ buf buf' m m', OnlyPrograms s.phys m → OnlyPrograms s.phys m' →
    (outcomeWith env fr command s buf m = .failed ↔ outcomeWith env fr command s buf' m' = .failed) ∧
      ∀ newPid eip, outcomeWith env fr command s buf m = .launched newPid eip →
        outcomeWith env fr command s buf' m' = .launched newPid eip ∧
          ∃ exe, env.img.readDentryByName (parse fr command).executableName = some exe ∧
            (env.img.fileContent exe.inodeNum).take 4 = elfMagic ∧ eip = entryPoint (env.img.fileContent exe.inodeNum)

/-- The command names a file of fewer than 28 bytes that begins like the magic
number as far as it goes, and a pid is free. -/
def ShortProgram (env : Env) (fr : ExecFrame) (command : Bytes) (s : Kernel) : Prop :=
  ∃ exe, env.img.readDentryByName (parse fr command).executableName = some exe ∧ exe.inodeNum < env.img.numInodes ∧
    env.img.lengthInBytes exe.inodeNum < progEntryOffset + 4 ∧
    (env.img.fileContent exe.inodeNum).take 4 <+: elfMagic ∧ (getNewPid s).isSome = true

section Property
variable {env : Env} {fr : ExecFrame} {command : Bytes} {s : Kernel}

/-- A file that fails the check is refused. -/
theorem outcomeWith_failed {buf : Bytes}
    (refused : checkExecutable env.img { fr with bufElf := buf } (parse fr command) = none) (m : Nat → UInt8) :
    outcomeWith env fr command s buf m = .failed :=
  congrArg Prod.fst (@sysExecute_notExecutable env { fr with bufElf := buf } command refused { s with phys := m })

/-- The locals of a call that loads the file at `inode`. -/
def launchOf (env : Env) (fr : ExecFrame) (command : Bytes) (inode : Nat) (newPid : Int) : Launch :=
  ⟨newPid, (env.img.fileContent inode).take fourMB, (parse fr command).haveArgs, (parse fr command).arguments, fr.regs⟩

/-- A file that passes the check is loaded under the next pid. -/
theorem outcomeWith_loaded {buf : Bytes} {inode : Nat} {newPid : Int}
    (check : checkExecutable env.img { fr with bufElf := buf } (parse fr command) = some inode)
    (alloc : getNewPid s = some newPid) (m : Nat → UInt8) :
    outcomeWith env fr command s buf m = (loadProgram (launchOf env fr command inode newPid) { s with phys := m }).1 := by
  have accepted : Accepted env { fr with bufElf := buf } command { s with phys := m } inode
      (launchOf env fr command inode newPid) :=
    ⟨check, alloc, Image.readData_eq (checkExecutable_valid check) 0 fourMB, rfl, rfl, rfl⟩
  exact congrArg Prod.fst accepted.sysExecute_eq

/-- Without a pid the call fails in any case. -/
theorem outcomeWith_full (none : getNewPid s = none) (buf : Bytes) (m : Nat → UInt8) :
    outcomeWith env fr command s buf m = .failed := by
  have executed := sysExecute_executed env { fr with bufElf := buf } command { s with phys := m }
  unfold outcomeWith
  generalize sysExecute env { fr with bufElf := buf } command { s with phys := m } = out at executed
  cases executed with
  | notExecutable => rfl
  | full => rfl
  | fault _ _ alloc => exact absurd (none.symm.trans alloc) (by simp)
  | launched _ alloc => exact absurd (none.symm.trans alloc) (by simp)

/-- The bytes of a file of 28 bytes or more give the entry point. -/
theorem loadedByte_entry {inode : Nat} (long : progEntryOffset + 4 ≤ env.img.lengthInBytes inode) (newPid : Int)
    (phys : Nat → UInt8) :
    word (loadedByte (launchOf env fr command inode newPid) phys) progEntryOffset = entryPoint (env.img.fileContent inode) := by
  have byte : ∀ k < progEntryOffset + 4, loadedByte (launchOf env fr command inode newPid) phys k =
      (env.img.fileContent inode).getD k 0 := by
    intro k below
    have inside : k < ((env.img.fileContent inode).take fourMB).length := by
      rw [List.length_take, Image.fileContent_length]
      simp only [fourMB, progEntryOffset] at below long ⊢
      omega
    simp only [loadedByte, launchOf, if_pos inside, List.getD_eq_getElem?_getD, List.getElem?_take_of_lt
      (Nat.lt_trans below (show progEntryOffset + 4 < fourMB by decide))]
  simp only [entryPoint, word, byte _ (show progEntryOffset < progEntryOffset + 4 by decide),
    byte _ (show progEntryOffset + 1 < progEntryOffset + 4 by decide),
    byte _ (show progEntryOffset + 2 < progEntryOffset + 4 by decide),
    byte _ (show progEntryOffset + 3 < progEntryOffset + 4 by decide)]

/-- A file that is long enough decides alone. -/
theorem fileDecides_of_long (behind : VideoBehind s) (long : ¬ ShortProgram env fr command s) :
    FileDecides env fr command s := by
  intro buf buf' m m' _ _
  have refused : (∀ buf, checkExecutable env.img { fr with bufElf := buf } (parse fr command) = none) ∨
      getNewPid s = none →
      ∀ buf m, outcomeWith env fr command s buf m = .failed := by
    rintro (missing | full) buf m
    · exact outcomeWith_failed (missing buf) m
    · exact outcomeWith_full full buf m
  by_cases fails : (∀ buf, checkExecutable env.img { fr with bufElf := buf } (parse fr command) = none) ∨ getNewPid s = none
  · refine ⟨by rw [refused fails, refused fails], fun newPid eip launched => ?_⟩
    rw [refused fails] at launched
    cases launched
  · rw [not_or, not_forall] at fails
    obtain ⟨⟨buf₀, passes⟩, free⟩ := fails
    obtain ⟨inode, check⟩ := Option.ne_none_iff_exists'.1 passes
    obtain ⟨p, alloc⟩ := Option.ne_none_iff_exists'.1 free
    obtain ⟨exe, found, rfl, valid, begins⟩ := checkExecutable_prefix check
    have enough : progEntryOffset + 4 ≤ env.img.lengthInBytes exe.inodeNum := by
      by_contra short
      exact long ⟨exe, found, valid, by omega, begins, by rw [alloc]; rfl⟩
    obtain ⟨magic, checks⟩ := checkExecutable_full found valid (by simp only [progEntryOffset] at enough; omega) begins
    have outcome := fun buf m => outcomeWith_loaded (checks { fr with bufElf := buf }) alloc m
    rw [outcome buf m, outcome buf' m']
    have near : (launchOf env fr command exe.inodeNum p).program.length ≤ fourMB := List.length_take_le _ _
    by_cases mapped : LoadMapped (launchOf env fr command exe.inodeNum p) s
    · have launches := fun m => loadProgram_launched (s := { s with phys := m }) (getNewPid_eq_some.1 alloc).1
        (behind.of_same rfl rfl) near mapped
      simp only [launches, loadedByte_entry enough]
      refine ⟨by simp, fun newPid eip launched => ?_⟩
      exact ⟨launched, exe, found, magic, (ExecOutcome.launched.inj launched).2.symm⟩
    · have faults := fun m => loadProgram_fault (s := { s with phys := m }) mapped
      simp only [faults]
      exact ⟨by simp, fun newPid eip launched => by cases launched⟩

/-- A file that fits the page is loaded without a fault. -/
theorem loadMapped_of_fits {l : Launch} (fits : l.program.length ≤ programRoom) (s : Kernel) : LoadMapped l s := by
  intro k below
  rw [translate_load (enableProgramPage_maps l.newPid s) (Nat.lt_of_lt_of_le below fits)]
  rfl

theorem launchOf_length (env : Env) (fr : ExecFrame) (command : Bytes) (inode : Nat) (newPid : Int) :
    (launchOf env fr command inode newPid).program.length ≤ env.img.lengthInBytes inode := by
  rw [← Image.fileContent_length]
  exact List.length_take_le' _ _

/-- A short file that passes the check is launched, at what its frame held. -/
theorem outcomeWith_short (behind : VideoBehind s) {buf : Bytes} {inode : Nat} {newPid : Int}
    (check : checkExecutable env.img { fr with bufElf := buf } (parse fr command) = some inode)
    (alloc : getNewPid s = some newPid) (short : env.img.lengthInBytes inode < progEntryOffset + 4) (m : Nat → UInt8) :
    outcomeWith env fr command s buf m =
      .launched newPid (word (loadedByte (launchOf env fr command inode newPid) m) progEntryOffset) := by
  have length := launchOf_length env fr command inode newPid
  simp only [progEntryOffset] at short
  rw [outcomeWith_loaded check alloc, loadProgram_launched]
  · rfl
  · exact (getNewPid_eq_some.1 alloc).1
  · exact behind.of_same rfl rfl
  · simp only [fourMB]
    omega
  · apply loadMapped_of_fits
    simp only [programRoom]
    omega

/-- Memory with another byte in the place of the last byte of the entry point. -/
def withEntryByte (phys : Nat → UInt8) (pid : Int) (b : UInt8) : Nat → UInt8 :=
  Function.update phys (frameByte pid (progEntryOffset + 3)) b

theorem withEntryByte_onlyPrograms {pid : Int} (valid : ValidPid pid) (phys : Nat → UInt8) (b : UInt8) :
    OnlyPrograms phys (withEntryByte phys pid b) := by
  intro a outside
  have place := frameByte_eq valid (progEntryOffset + 3)
  obtain ⟨low, high⟩ := valid
  exact Function.update_of_ne (by simp only [progEntryOffset] at place ⊢; omega) _ _

/-- That byte shows in the entry point of a program that does not reach there. -/
theorem word_withEntryByte {l : Launch} (short : l.program.length < progEntryOffset + 4) (phys : Nat → UInt8) :
    ∃ rest, ∀ b : UInt8,
      word (loadedByte l (withEntryByte phys l.newPid b)) progEntryOffset = rest + 0x1000000 * b.toNat := by
  have last : ∀ b, loadedByte l (withEntryByte phys l.newPid b) (progEntryOffset + 3) = b := by
    intro b
    rw [loadedByte, if_neg (by omega), withEntryByte, Function.update_self]
  have other : ∀ b, ∀ k < progEntryOffset + 3, loadedByte l (withEntryByte phys l.newPid b) k = loadedByte l phys k := by
    intro b k below
    rw [loadedByte, loadedByte, withEntryByte, Function.update_of_ne (by simp only [frameByte]; omega)]
  refine ⟨(loadedByte l phys 24).toNat + 0x100 * (loadedByte l phys 25).toNat + 0x10000 * (loadedByte l phys 26).toNat,
    fun b => ?_⟩
  rw [word, last, other b _ (by decide), other b _ (by decide), other b _ (by decide)]

/-- A short file does not decide alone: below four bytes the stack decides whether
it is launched, and from there on the frame decides where. -/
theorem not_fileDecides_of_short (behind : VideoBehind s) (short : ShortProgram env fr command s) :
    ¬ FileDecides env fr command s := by
  obtain ⟨exe, found, valid, short, begins, free⟩ := short
  obtain ⟨p, alloc⟩ := Option.isSome_iff_exists.1 free
  intro decides
  by_cases tiny : env.img.lengthInBytes exe.inodeNum < 4
  · obtain ⟨passes, fails⟩ := checkExecutable_short found valid tiny begins fr
    obtain ⟨same, -⟩ := decides _ _ s.phys s.phys (fun _ _ => rfl) (fun _ _ => rfl)
    have refused := same.2 (outcomeWith_failed fails s.phys)
    rw [outcomeWith_short behind passes alloc short] at refused
    cases refused
  · obtain ⟨-, checks⟩ := checkExecutable_full found valid (by omega) begins
    have newPid := (getNewPid_eq_some.1 alloc).1
    have outcome := fun b => outcomeWith_short behind (checks { fr with bufElf := fr.bufElf }) alloc short
      (withEntryByte s.phys p b)
    obtain ⟨-, same⟩ := decides fr.bufElf fr.bufElf _ _ (withEntryByte_onlyPrograms newPid s.phys 0)
      (withEntryByte_onlyPrograms newPid s.phys 1)
    have entries := (outcome 1).symm.trans (same _ _ (outcome 0)).1
    have length := launchOf_length env fr command exe.inodeNum p
    obtain ⟨rest, entry⟩ := word_withEntryByte (l := launchOf env fr command exe.inodeNum p) (by omega) s.phys
    rw [show withEntryByte s.phys p = withEntryByte s.phys (launchOf env fr command exe.inodeNum p).newPid from rfl,
      entry, entry] at entries
    have equal := (ExecOutcome.launched.inj entries).2
    simp at equal

end Property

/-- **The file alone decides the launch**, in every state that the kernel reaches,
exactly if the command does not name a file of fewer than 28 bytes that begins
like the magic number while a pid is free. -/
theorem fileDecides_iff {env : Env} {tableAddr : Nat} {s : Kernel} (reach : (machineCalls env tableAddr).Reach AtEntry s)
    (fr : ExecFrame) (command : Bytes) : FileDecides env fr command s ↔ ¬ ShortProgram env fr command s := by
  have behind := videoBehind_of_reach reach
  constructor
  · intro decides short
    exact not_fileDecides_of_short behind short decides
  · exact fileDecides_of_long behind

/-- The name `shell` is parsed and found, whatever the stack held. -/
theorem readDentryByName_parse_shell {img : Image} (few : img.numDirEntriesWord ≤ 63) (first : 0 < img.numDirEntriesWord)
    (named : img.entryName 0 = message "shell") (fr : ExecFrame) :
    img.readDentryByName (parse fr (literal "shell" fun _ => 0)).executableName = some (img.dirEntry 0) := by
  have same : SameString (parse fr (literal "shell" fun _ => 0)).executableName (literal "shell" fun _ => 0) :=
    parse_shellCommand ⟨img, fun _ => 0⟩ fr
  rw [img.readDentryByName_congr same]
  exact Image.readDentryByName_found few (literal_terminated "shell" _ (by decide +kernel)) first named
    fun j below => absurd below (Nat.not_lt_zero j)

/-- The shell of 28 bytes, as the first program of the machine. -/
theorem fileDecides_shell :
    FileDecides ⟨shellImage, fun _ => 0⟩ (.blank ⟨0, 0⟩) (literal "shell" fun _ => 0)
      (entry ⟨fun _ => 0, fun _ => .zero, 0x26, 0⟩) := by
  refine (@fileDecides_iff ⟨shellImage, fun _ => 0⟩ 0 _ (.base ⟨_, rfl⟩) _ _).2 ?_
  rintro ⟨exe, found, -, short, -⟩
  rw [readDentryByName_parse_shell (by decide) (by decide) (by decide +kernel), Option.some.injEq] at found
  subst found
  exact absurd short (by decide +kernel)

/-- The file system of the shell with its file empty. -/
def emptyImage : Image where
  byte a := if a = 4096 then 0 else shellImage.byte a

/-- An empty file is launched or refused by what the stack held. -/
theorem empty_file_launched : emptyImage.Sound ∧
    ∃ s, (machineCalls ⟨emptyImage, fun _ => 0⟩ 0).Reach AtEntry s ∧
      ¬ FileDecides ⟨emptyImage, fun _ => 0⟩ (.blank ⟨0, 0⟩) (literal "shell" fun _ => 0) s := by
  refine ⟨⟨by decide +kernel, by decide +kernel⟩, entry ⟨fun _ => 0, fun _ => .zero, 0x26, 0⟩, .base ⟨_, rfl⟩, ?_⟩
  apply not_fileDecides_of_short
  · exact @videoBehind_of_reach ⟨emptyImage, fun _ => 0⟩ 0 _ (.base ⟨_, rfl⟩)
  · refine ⟨emptyImage.dirEntry 0, ?_, by decide +kernel, by decide +kernel, by decide +kernel, by decide +kernel⟩
    exact readDentryByName_parse_shell (by decide +kernel) (by decide +kernel) (by decide +kernel) _

end BigBrainOS
