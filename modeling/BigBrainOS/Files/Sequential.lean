import BigBrainOS.Theory.Reach
import BigBrainOS.Kernel.Files
import BigBrainOS.Kernel.Init
import BigBrainOS.Files.Lookup

/-!
# Sequential reading

A process opens files and reads them in any order and in pieces of any size.
The run keeps, for each descriptor, the inode that was opened and the bytes that
its reads have put into the buffers. These bytes are always the content of the
file up to the descriptor's position.
-/

namespace BigBrainOS
set_option autoImplicit false

/-- A file system whose directory, inodes and block numbers stay in their ranges. -/
structure Image.WellFormed (img : Image) : Prop where
  inodes : ∀ i < img.numDirEntriesWord, (img.dirEntry i).inodeNum < img.numInodes
  lengths : ∀ inode < img.numInodes, img.lengthInBytes inode < dataBlock * blockSizeBytes
  blocks : ∀ inode < img.numInodes, ∀ k < img.lengthInBytes inode,
    img.dataBlockIndex inode (k / blockSizeBytes) < img.numDataBlocks

namespace Image
variable {img : Image}

/-- A file that is found has a valid inode. -/
theorem WellFormed.found (wf : img.WellFormed) {fname : Bytes} {file : DirEntry}
    (found : img.readDentryByName fname = some file) : file.inodeNum < img.numInodes := by
  unfold readDentryByName at found
  split at found
  · cases found
  · dsimp only at found
    split at found
    · cases found
    · next inside =>
      cases found
      apply wf.inodes
      have le := (img.searchName_spec fname img.numDirEntries.toNat 0).2.1
      have word : img.numDirEntries = img.numDirEntriesWord ∨ img.numDirEntries < 0 ∧ 0 < img.numDirEntriesWord := by
        have range : img.numDirEntriesWord < 2 ^ 32 := by
          have b0 := (img.byte 0).toNat_lt
          have b1 := (img.byte (0 + 1)).toNat_lt
          have b2 := (img.byte (0 + 2)).toNat_lt
          have b3 := (img.byte (0 + 3)).toNat_lt
          simp only [numDirEntriesWord, word]
          omega
        simp only [numDirEntries]
        split
        · exact Or.inl rfl
        · right; omega
      omega

end Image

/-! ## The run -/

/-- `sys_read` on a descriptor of a file; `none` if another handler is called. -/
def sysReadFile (img : Image) (r : Regs) (fd : Fd) (buf : Bytes) (nbytes : Int) (s : Kernel) :
    Option (Int × Bytes × Kernel) :=
  match sysRead r fd false s with
  | .ret value => some (value, buf, s)
  | .call (some .fileFot) => some (fileRead img r fd buf nbytes s)
  | .call _ => none

/-- A kernel, the inodes of the files that the process has opened, and the bytes
that were delivered on each descriptor. -/
structure Reading where
  kernel : Kernel
  file : Fd → Option Nat
  delivered : Fd → List UInt8

inductive FileOp where
  | open_ (filename : Bytes)
  | read (fd : Fd) (buf : Bytes) (nbytes : Int)

/-- Record that `sys_open` returned a descriptor for `filename`. -/
def Reading.record (img : Image) (r : Regs) (filename : Bytes) (q : Reading) (value : Int) (s' : Kernel) : Reading :=
  if h : 0 ≤ value ∧ value < 8 then
    let fd : Fd := ⟨value.toNat, by simp only [fdtMaxEntries]; omega⟩
    let file := (img.readDentryByName filename).map DirEntry.inodeNum
    ⟨s', Function.update q.file fd (if ((s'.currPcb r).fdt fd).fotPtr = some .fileFot then file else none),
      Function.update q.delivered fd []⟩
  else { q with kernel := s' }

/-- The process whose stack is at `r` opens and reads files. -/
def fileCalls (img : Image) (r : Regs) : TransitionSystem Reading FileOp where
  ok q op :=
    match op with
    | .open_ _ => True
    | .read fd _ nbytes => q.file fd ≠ none ∧ 0 ≤ nbytes ∧ nbytes < 2 ^ 31
  next q op :=
    match op with
    | .open_ filename =>
      let (value, s') := sysOpen img r filename q.kernel
      q.record img r filename value s'
    | .read fd buf nbytes =>
      match sysReadFile img r fd buf nbytes q.kernel with
      | none => q
      | some (value, buf', s') =>
        { q with
          kernel := s'
          delivered := Function.update q.delivered fd (q.delivered fd ++ (List.range value.toNat).map buf') }

/-- No file is open yet as far as the run knows. -/
def Reading.Start (q : Reading) : Prop := ∀ fd, q.file fd = none

/-- A descriptor of an open file: its entry, and what was delivered on it. -/
structure Reading.Open (img : Image) (r : Regs) (q : Reading) (fd : Fd) (inode : Nat) : Prop where
  fot : ((q.kernel.currPcb r).fdt fd).fotPtr = some .fileFot
  enabled : ((q.kernel.currPcb r).fdt fd).enabled = true
  inodeIdx : ((q.kernel.currPcb r).fdt fd).inodeIdx = inode
  valid : inode < img.numInodes
  inside : ((q.kernel.currPcb r).fdt fd).filePosition ≤ img.lengthInBytes inode
  delivered : q.delivered fd = (img.fileContent inode).take ((q.kernel.currPcb r).fdt fd).filePosition

/-- Every descriptor that the run knows is one of an open file. -/
def Reading.Inv (img : Image) (r : Regs) (q : Reading) : Prop :=
  ∀ fd inode, q.file fd = some inode → 2 ≤ fd.val ∧ q.Open img r fd inode

section Entries
variable {r : Regs} {s : Kernel}

theorem resetStdio_fdt {fd : Fd} (file : 2 ≤ fd.val) :
    ((resetStdio r s).currPcb r).fdt fd = (s.currPcb r).fdt fd := by
  have not0 : fd ≠ 0 := fun e => by subst e; exact absurd file (by decide)
  have not1 : fd ≠ 1 := fun e => by subst e; exact absurd file (by decide)
  rw [resetStdio, setFd_fdt_of_ne _ _ _ not1, setFd_fdt_of_ne _ _ _ not0]

/-- What `sys_open` does to the descriptor table. -/
theorem sysOpen_cases (img : Image) (r : Regs) (filename : Bytes) (s : Kernel) :
    sysOpen img r filename s = (error, s) ∨
      ∃ (file : DirEntry) (fd : Fd) (s' : Kernel), img.readDentryByName filename = some file ∧ 2 ≤ fd.val ∧
        ((s.currPcb r).fdt fd).enabled = false ∧
        sysOpen img r filename s = ((fd.val : Int), s') ∧
        (s'.currPcb r).fdt fd = ⟨some (openFot filename file), file.inodeNum, 0, true, file.fileType = 2⟩ ∧
        ∀ fd', 2 ≤ fd'.val → fd' ≠ fd → (s'.currPcb r).fdt fd' = (s.currPcb r).fdt fd' := by
  unfold sysOpen
  cases found : img.readDentryByName filename with
  | none => exact Or.inl rfl
  | some file =>
    cases alloc : getNewFd (s.currPcb r) with
    | none => exact Or.inl rfl
    | some fd =>
      obtain ⟨low, free, -⟩ := getNewFd_eq_some.1 alloc
      refine Or.inr ⟨file, fd, _, rfl, low, free, rfl, ?_, fun fd' low' other => ?_⟩
      · rw [Kernel.currPcb, openHandler_fdt, ← Kernel.currPcb, setFd_fdt_self]
      · rw [Kernel.currPcb, openHandler_fdt, ← Kernel.currPcb, setFd_fdt_of_ne _ _ _ other, resetStdio_fdt low',
          setFd_fdt_of_ne _ _ _ other]

/-- The entry behind the descriptor that `sys_open` returns. -/
theorem sysOpen_returned {img : Image} {filename : Bytes} {s' : Kernel} {fd : Fd}
    (opened : sysOpen img r filename s = ((fd.val : Int), s')) :
    ∃ file, img.readDentryByName filename = some file ∧
      (s'.currPcb r).fdt fd = ⟨some (openFot filename file), file.inodeNum, 0, true, file.fileType = 2⟩ := by
  rcases sysOpen_cases img r filename s with failed | ⟨file, fd', s₁, found, -, -, returned, entry, -⟩
  · rw [failed] at opened
    have value : (error : Int) = (fd.val : Int) := congrArg Prod.fst opened
    simp only [error] at value
    omega
  · rw [returned] at opened
    have value : ((fd'.val : Int)) = (fd.val : Int) := congrArg Prod.fst opened
    have same : fd' = fd := Fin.ext (by omega)
    have state : s₁ = s' := congrArg Prod.snd opened
    rw [same, state] at entry
    exact ⟨file, found, entry⟩

end Entries

/-! ## One read -/

theorem store_prefix (buf : Bytes) (bytes : List UInt8) : (List.range bytes.length).map (store buf bytes) = bytes := by
  apply List.ext_getElem
  · simp
  · intro k _ inside
    simp [store, inside]

section Read
variable {img : Image} {r : Regs} {q : Reading} {fd : Fd} {inode : Nat}

/-- A read of an open file delivers the next bytes of its content. -/
theorem Reading.Open.read (isOpen : q.Open img r fd inode) (wf : img.WellFormed) (buf : Bytes) {nbytes : Int}
    (nonneg : 0 ≤ nbytes) (bound : nbytes < 2 ^ 31) :
    let e := (q.kernel.currPcb r).fdt fd
    ∃ bytes s', bytes = ((img.fileContent inode).drop e.filePosition).take nbytes.toNat ∧
      sysReadFile img r fd buf nbytes q.kernel = some ((bytes.length : Int), store buf bytes, s') ∧
      (s'.currPcb r).fdt fd = { e with filePosition := e.filePosition + bytes.length } ∧
      ∀ fd', fd' ≠ fd → (s'.currPcb r).fdt fd' = (q.kernel.currPcb r).fdt fd' := by
  intro e
  have dispatch : sysRead r fd false q.kernel = .call (some .fileFot) := by
    simp [sysRead, isOpen.enabled, isOpen.fot]
  have length : (nbytes % 2 ^ 32).toNat = nbytes.toNat := by omega
  have data : img.readData e.inodeIdx e.filePosition nbytes.toNat =
      some (((img.fileContent inode).drop e.filePosition).take nbytes.toNat) := by
    rw [isOpen.inodeIdx]
    exact Image.readData_eq isOpen.valid _ _
  generalize content : ((img.fileContent inode).drop e.filePosition).take nbytes.toNat = bytes at data
  refine ⟨bytes, q.kernel.setFd r fd fun e => { e with filePosition := (e.filePosition + bytes.length) % 2 ^ 32 },
    rfl, ?_, ?_, fun fd' other => setFd_fdt_of_ne _ _ _ other⟩
  · simp only [e] at data
    simp only [sysReadFile, dispatch, fileRead, length, data]
  · have small := wf.lengths inode isOpen.valid
    have inside := isOpen.inside
    -- the file is shorter than 2 ^ 32 bytes, so the position does not wrap
    have exact_ : (e.filePosition + bytes.length) % 2 ^ 32 = e.filePosition + bytes.length := by
      simp only [← content, List.length_take, List.length_drop, Image.fileContent_length, dataBlock, blockSizeBytes, e]
        at small ⊢
      omega
    rw [setFd_fdt_self, exact_]

/-- The number of bytes delivered. -/
theorem length_delivered (img : Image) (inode position : Nat) (nbytes : Int) :
    (((img.fileContent inode).drop position).take nbytes.toNat).length =
      min nbytes.toNat (img.lengthInBytes inode - position) := by
  rw [List.length_take, List.length_drop, Image.fileContent_length]

/-- An open file is a matter of its descriptor's entry and of what was delivered. -/
theorem Reading.Open.congr {q' : Reading} (isOpen : q.Open img r fd inode)
    (entry : (q'.kernel.currPcb r).fdt fd = (q.kernel.currPcb r).fdt fd) (delivered : q'.delivered fd = q.delivered fd) :
    q'.Open img r fd inode := by
  refine ⟨?_, ?_, ?_, isOpen.valid, ?_, ?_⟩
  · rw [entry]; exact isOpen.fot
  · rw [entry]; exact isOpen.enabled
  · rw [entry]; exact isOpen.inodeIdx
  · rw [entry]; exact isOpen.inside
  · rw [entry, delivered]; exact isOpen.delivered

/-- What was delivered stays the prefix up to the position. -/
theorem Reading.Open.after_read (isOpen : q.Open img r fd inode) (wf : img.WellFormed) (buf : Bytes) {nbytes : Int}
    (nonneg : 0 ≤ nbytes) (bound : nbytes < 2 ^ 31) :
    ((fileCalls img r).next q (.read fd buf nbytes)).Open img r fd inode := by
  obtain ⟨bytes, s', content, read, entry, -⟩ := isOpen.read wf buf nonneg bound
  have prefix_ : (List.range bytes.length).map (store buf bytes) = bytes := store_prefix buf bytes
  have length : bytes.length = min nbytes.toNat (img.lengthInBytes inode - ((q.kernel.currPcb r).fdt fd).filePosition) := by
    rw [content]; exact length_delivered img inode _ nbytes
  have inside := isOpen.inside
  have piece : bytes = ((img.fileContent inode).drop ((q.kernel.currPcb r).fdt fd).filePosition).take bytes.length := by
    refine content.trans ?_
    rw [List.take_eq_take_iff, List.length_drop, Image.fileContent_length, length]
    omega
  simp only [fileCalls, read, Int.toNat_natCast, prefix_]
  refine ⟨?_, ?_, ?_, isOpen.valid, ?_, ?_⟩
  · rw [entry]; exact isOpen.fot
  · rw [entry]; exact isOpen.enabled
  · rw [entry]; exact isOpen.inodeIdx
  · rw [entry]; simp only; omega
  · simp only [entry, Function.update_self]
    rw [isOpen.delivered, List.take_add, ← piece]

end Read

/-! ## All runs -/

section Runs
variable {img : Image} {r : Regs} {q : Reading}

theorem Reading.Inv.read (inv : q.Inv img r) (wf : img.WellFormed) (fd : Fd) (buf : Bytes) {nbytes : Int}
    (known : q.file fd ≠ none) (nonneg : 0 ≤ nbytes) (bound : nbytes < 2 ^ 31) :
    ((fileCalls img r).next q (.read fd buf nbytes)).Inv img r := by
  obtain ⟨inode, file⟩ := Option.ne_none_iff_exists'.1 known
  obtain ⟨low, isOpen⟩ := inv fd inode file
  have after := isOpen.after_read wf buf nonneg bound
  obtain ⟨bytes, s', -, read, -, others⟩ := isOpen.read wf buf nonneg bound
  have files : ((fileCalls img r).next q (.read fd buf nbytes)).file = q.file := by simp only [fileCalls, read]
  intro fd' inode' file'
  rw [files] at file'
  by_cases same : fd' = fd
  · subst same
    obtain rfl : inode = inode' := Option.some.inj (file.symm.trans file')
    exact ⟨low, after⟩
  · obtain ⟨low', isOpen'⟩ := inv fd' inode' file'
    refine ⟨low', isOpen'.congr ?_ ?_⟩
    · simp only [fileCalls, read, others fd' same]
    · simp only [fileCalls, read, Function.update_of_ne same]

theorem Reading.Inv.open_ (inv : q.Inv img r) (wf : img.WellFormed) (filename : Bytes) :
    ((fileCalls img r).next q (.open_ filename)).Inv img r := by
  rcases sysOpen_cases img r filename q.kernel with failed | ⟨file, fd, s', found, low, -, opened, entry, others⟩
  · simp only [fileCalls, failed, Reading.record, error]
    exact inv
  · have small := fd.isLt
    simp only [fdtMaxEntries] at small
    have range : 0 ≤ (fd.val : Int) ∧ (fd.val : Int) < 8 := by omega
    have index : (⟨(fd.val : Int).toNat, by simp only [fdtMaxEntries]; omega⟩ : Fd) = fd := by
      apply Fin.ext; exact Int.toNat_natCast fd.val
    simp only [fileCalls, opened, Reading.record, dif_pos range, index, found, Option.map_some]
    intro fd' inode' file'
    by_cases same : fd' = fd
    · subst same
      simp only [Function.update_self] at file'
      split at file'
      · next isFile =>
        cases file'
        refine ⟨low, isFile, by rw [entry], by rw [entry], wf.found found, by rw [entry]; exact Nat.zero_le _, ?_⟩
        simp only [entry, Function.update_self, List.take_zero]
      · cases file'
    · simp only [Function.update_of_ne same] at file'
      obtain ⟨low', isOpen'⟩ := inv fd' inode' file'
      exact ⟨low', isOpen'.congr (others fd' low' same) (Function.update_of_ne same _ _)⟩

/-- **Step lemma.** -/
theorem Reading.Inv.step {op : FileOp} (inv : q.Inv img r) (wf : img.WellFormed) (ok : (fileCalls img r).ok q op) :
    ((fileCalls img r).next q op).Inv img r := by
  cases op with
  | open_ filename => exact inv.open_ wf filename
  | read fd buf nbytes => exact inv.read wf fd buf ok.1 ok.2.1 ok.2.2

/-- **Sequential reading.** Whatever files a process has opened and however its
reads are interleaved, the bytes delivered on a descriptor are its file's content
up to the descriptor's position, and a read returns as many bytes as were asked
for and are left. -/
theorem sequential_reading (wf : img.WellFormed) (reach : (fileCalls img r).Reach Reading.Start q) (fd : Fd)
    (inode : Nat) (file : q.file fd = some inode) :
    let position := ((q.kernel.currPcb r).fdt fd).filePosition
    q.delivered fd = (img.fileContent inode).take position ∧ (q.delivered fd).length = position ∧
      ∀ buf nbytes, 0 ≤ nbytes → nbytes < 2 ^ 31 → ∃ value buf' s',
        sysReadFile img r fd buf nbytes q.kernel = some (value, buf', s') ∧
        value = min nbytes (img.lengthInBytes inode - position) ∧
        (List.range value.toNat).map buf' = ((img.fileContent inode).drop position).take value.toNat ∧
        (value = 0 ↔ nbytes = 0 ∨ position = img.lengthInBytes inode) := by
  have inv : q.Inv img r := reach.invariant (fun _ start fd inode file => by rw [start fd] at file; cases file)
    fun _ _ inv ok => inv.step wf ok
  obtain ⟨-, isOpen⟩ := inv fd inode file
  have inside := isOpen.inside
  intro position
  refine ⟨isOpen.delivered, ?_, fun buf nbytes nonneg bound => ?_⟩
  · rw [isOpen.delivered, List.length_take, Image.fileContent_length]
    exact Nat.min_eq_left inside
  · obtain ⟨bytes, s', content, read, -, -⟩ := isOpen.read wf buf nonneg bound
    have length : bytes.length = min nbytes.toNat (img.lengthInBytes inode - position) := by
      rw [content]; exact length_delivered img inode position nbytes
    have inside' : position ≤ img.lengthInBytes inode := inside
    refine ⟨_, _, s', read, by omega, ?_, by omega⟩
    rw [Int.toNat_natCast, store_prefix, length, content, List.take_eq_take_iff, List.length_drop,
      Image.fileContent_length]
    omega

end Runs

theorem shellImage_wellFormed : shellImage.WellFormed := ⟨by decide, by decide, by decide⟩

/-- A process with no open files. -/
def freshReading : Reading := ⟨entry ⟨fun _ => 0, fun _ => .zero, 0x26, 0⟩, fun _ => none, fun _ => []⟩

open TransitionSystem in
/-- The shell's file is opened and three of its bytes are read. -/
theorem sequential_reading_shell :
    let r : Regs := ⟨0x7FFFFC, 0⟩
    let q := (fileCalls shellImage r).exec freshReading [.open_ (literal "shell" fun _ => 0), .read 2 (fun _ => 0) 3]
    let position := ((q.kernel.currPcb r).fdt 2).filePosition
    q.delivered 2 = (shellImage.fileContent 0).take position ∧ (q.delivered 2).length = position ∧
      ∀ buf nbytes, 0 ≤ nbytes → nbytes < 2 ^ 31 → ∃ value buf' s',
        sysReadFile shellImage r 2 buf nbytes q.kernel = some (value, buf', s') ∧
        value = min nbytes (shellImage.lengthInBytes 0 - position) ∧
        (List.range value.toNat).map buf' = ((shellImage.fileContent 0).drop position).take value.toNat ∧
        (value = 0 ↔ nbytes = 0 ∨ position = shellImage.lengthInBytes 0) := by
  intro r q
  have reach : (fileCalls shellImage r).Reach Reading.Start q :=
    Reach.exec (.base fun _ => rfl) ⟨trivial, ⟨by decide, by decide, by decide⟩, trivial⟩
  exact sequential_reading shellImage_wellFormed reach 2 0 (by decide)

end BigBrainOS
