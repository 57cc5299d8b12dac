import BigBrainOS.Kernel.ReadData
import BigBrainOS.Files.Table
import BigBrainOS.Files.Lookup

/-!
# What `read_data` stores and what it touches

On a sound file system `read_data` is the slice of the file that was asked for.
Its loop stays inside the file, but the first block is looked up before the end
of the file is tested: a file of the greatest length that was read to its end
takes that lookup one entry past the index table.
-/

namespace BigBrainOS
set_option autoImplicit false

/-- The greatest length that the blocks of an inode can hold. -/
abbrev maxFileLength : Nat := dataBlock * blockSizeBytes

/-- A file system whose files have blocks for their length, all of them there. -/
structure Image.Sound (img : Image) : Prop where
  lengths : ∀ inode < img.numInodes, img.lengthInBytes inode ≤ maxFileLength
  blocks : ∀ inode < img.numInodes, ∀ k < img.lengthInBytes inode,
    img.dataBlockIndex inode (k / blockSizeBytes) < img.numDataBlocks

namespace Image
variable {img : Image}

/-- **`read_data` is the slice of the file.** -/
theorem readData_slice (sound : img.Sound) (inode offset length : Nat) (buf : Bytes) :
    (inode < img.numInodes →
      let n := min length (img.lengthInBytes inode - offset)
      (img.readDataInto inode offset buf length).1 = n ∧
        (∀ k < n, (img.readDataInto inode offset buf length).2 k =
          img.byte (img.blockAddr (img.dataBlockIndex inode ((offset + k) / blockSizeBytes)) + (offset + k) % blockSizeBytes)) ∧
        ∀ k, n ≤ k → (img.readDataInto inode offset buf length).2 k = buf k) ∧
      (img.numInodes ≤ inode → img.readDataInto inode offset buf length = (error, buf)) := by
  refine ⟨fun valid => ?_, fun invalid => ?_⟩
  · have delivered : (((img.fileContent inode).drop offset).take length).length =
        min length (img.lengthInBytes inode - offset) := by
      rw [List.length_take, List.length_drop, fileContent_length]
    have bound := sound.lengths inode valid
    simp only [maxFileLength, dataBlock, blockSizeBytes] at bound
    dsimp only
    rw [readDataInto_eq, readData_eq valid]
    refine ⟨?_, fun k below => ?_, fun k above => ?_⟩
    · dsimp only
      rw [delivered, signed, if_pos (by omega)]
    · have inside : k < (((img.fileContent inode).drop offset).take length).length := by omega
      dsimp only
      rw [store, List.getElem?_eq_getElem inside, Option.getD_some, List.getElem_take, List.getElem_drop]
      simp only [fileContent, List.getElem_map, List.getElem_range, fileByte]
    · simp only [store, List.getElem?_eq_none (show _ ≤ k by rw [delivered]; exact above), Option.getD_none]
  · rw [readDataInto, if_pos invalid]

/-- The block of the shell's file, from its second byte on, into a buffer of `0xFF`. -/
theorem readData_slice_shell :
    shellImage.Sound ∧ (shellImage.readDataInto 0 1 (fun _ => 0xFF) 40).1 = 27 := by
  have sound : shellImage.Sound := ⟨by decide, by decide⟩
  exact ⟨sound, ((readData_slice sound 0 1 40 fun _ => 0xFF).1 (by decide)).1⟩

/-! ## Accesses -/

/-- Whatever is read of a file from a position, the accesses stay in bounds. -/
def ReadsInBounds (img : Image) (inode position : Nat) : Prop :=
  ∀ length, ∀ access ∈ img.readDataAccesses inode position length, access.InBounds img

/-- From a position up to the end of the file, only the end of a file of the greatest length is out of bounds. -/
theorem readsInBounds_iff (sound : img.Sound) {inode position : Nat}
    (inside : inode < img.numInodes → position ≤ img.lengthInBytes inode) :
    img.ReadsInBounds inode position ↔ ¬ (inode < img.numInodes ∧ position = maxFileLength) := by
  constructor
  · rintro bounds ⟨valid, full⟩
    have first := bounds 0 (.index (position / blockSizeBytes)) (by
      rw [readDataAccesses, if_neg (by omega)]
      exact List.mem_cons_self)
    rw [full] at first
    exact absurd first (show ¬ maxFileLength / blockSizeBytes < dataBlock by decide)
  · intro notFull length access member
    rw [readDataAccesses] at member
    split at member
    · cases member
    · next valid =>
      have bound := sound.lengths inode (by omega)
      have upto := inside (by omega)
      have other : position ≠ maxFileLength := fun full => notFull ⟨by omega, full⟩
      simp only [maxFileLength, dataBlock, blockSizeBytes] at bound other
      rcases List.mem_cons.1 member with first | later
      · rw [first]
        show position / blockSizeBytes < dataBlock
        simp only [dataBlock, blockSizeBytes]
        omega
      · obtain ⟨k, within, index | byte⟩ :=
          readAccesses_spec img inode length position _ (readStart_readAt img inode position) access later
        · rw [index]
          show k / blockSizeBytes < dataBlock
          simp only [dataBlock, blockSizeBytes]
          omega
        · rw [byte]
          refine ⟨_, sound.blocks inode (by omega) k within, Nat.le_add_right _ _, ?_⟩
          exact Nat.add_lt_add_left (Nat.mod_lt _ (by decide)) _

end Image

/-! ## Positions along a run -/

/-- The position of a regular file is not past its end. -/
def PositionsInside (img : Image) (fdt : Fd → FdtEntry) : Prop :=
  ∀ fd, (fdt fd).fotPtr = some .fileFot → (fdt fd).inodeIdx < img.numInodes →
    (fdt fd).filePosition ≤ img.lengthInBytes (fdt fd).inodeIdx

section Steps
variable {img : Image} {fdt : Fd → FdtEntry}

theorem PositionsInside.update (inside : PositionsInside img fdt) (fd : Fd) {e : FdtEntry}
    (entry : e.fotPtr = some .fileFot → e.inodeIdx < img.numInodes → e.filePosition ≤ img.lengthInBytes e.inodeIdx) :
    PositionsInside img (Function.update fdt fd e) := by
  intro fd' regular valid
  by_cases same : fd' = fd
  · rw [same, Function.update_self] at regular valid ⊢
    exact entry regular valid
  · rw [Function.update_of_ne same] at regular valid ⊢
    exact inside fd' regular valid

/-- `file_read` moves the position by what it delivers. -/
theorem fileRead_fdt (sound : img.Sound) {r : Regs} {fd : Fd} {s : Kernel} {inode position : Nat}
    (idx : ((s.currPcb r).fdt fd).inodeIdx = inode) (at_ : ((s.currPcb r).fdt fd).filePosition = position)
    (valid : inode < img.numInodes) (upto : position ≤ img.lengthInBytes inode) (buf : Bytes) (nbytes : Int) :
    ((fileRead img r fd buf nbytes s).2.2.currPcb r).fdt = Function.update (s.currPcb r).fdt fd
      { (s.currPcb r).fdt fd with
        filePosition := position + min (nbytes % 2 ^ 32).toNat (img.lengthInBytes inode - position) } := by
  have bound := sound.lengths _ valid
  simp only [maxFileLength, dataBlock, blockSizeBytes] at bound
  simp only [fileRead, idx, at_, Image.readData_eq valid, setFd_fdt]
  rw [List.length_take, List.length_drop, Image.fileContent_length, Nat.mod_eq_of_lt (by omega)]

/-- So it is not moved past the end of the file. -/
theorem fileRead_inside (sound : img.Sound) {r : Regs} {s : Kernel} (inside : PositionsInside img (s.currPcb r).fdt) (fd : Fd)
    (regular : ((s.currPcb r).fdt fd).fotPtr = some .fileFot) (buf : Bytes) (nbytes : Int) :
    PositionsInside img ((fileRead img r fd buf nbytes s).2.2.currPcb r).fdt := by
  by_cases valid : ((s.currPcb r).fdt fd).inodeIdx < img.numInodes
  · have upto := inside fd regular valid
    rw [fileRead_fdt sound rfl rfl valid upto]
    refine inside.update fd fun _ _ => ?_
    dsimp only
    omega
  · simp only [fileRead, Image.readData_none (Nat.not_lt.1 valid), setFd_fdt]
    exact inside.update fd fun _ valid' => absurd valid' valid

theorem readCall_inside (sound : img.Sound) {r : Regs} {s : Kernel} (inside : PositionsInside img (s.currPcb r).fdt) (fd : Fd)
    (buf : Option Bytes) (nbytes : Int) : PositionsInside img ((readCall img r fd buf nbytes s).currPcb r).fdt := by
  unfold readCall
  split
  · next dispatch => exact fileRead_inside sound inside fd (sysRead_call dispatch) _ nbytes
  · next b dispatch =>
    obtain ⟨position, moved⟩ := dirRead_moved img r fd b s
    have directory := sysRead_call dispatch
    rw [moved]
    exact inside.update fd fun regular _ => by
      rw [show _ = some Fot.fileFot from regular] at directory
      cases directory
  · exact inside

/-- **Step lemma.** Every step of a process keeps the positions inside the files. -/
theorem PositionsInside.step (sound : img.Sound) {p : Int} (valid : ValidPid p) {s : Kernel} {step : FdStep}
    (table : TableInv (s.pcb p).fdt) (inside : PositionsInside img (s.pcb p).fdt) (allowed : step.Allowed p s) :
    PositionsInside img ((step.run img s).pcb p).fdt := by
  apply FdStep.keeps valid table allowed inside
  · intro fd filename file _
    exact inside.update fd fun _ _ => Nat.zero_le _
  · intro fd _
    exact inside.update fd (inside fd)
  · intro r fd buf nbytes stack
    rw [← currPcb_eq valid stack] at inside ⊢
    exact readCall_inside sound inside fd buf nbytes

/-- **Run lemma.** So do all runs of a process from its start. -/
theorem positionsInside_of_reach {env : Env} (sound : env.img.Sound) {p : Int} {s : Kernel}
    (reach : (descriptorCalls env.img p).Reach (JustStarted env p) s) : PositionsInside env.img (s.pcb p).fdt := by
  have inv : ValidPid p ∧ TableInv (s.pcb p).fdt ∧ PositionsInside env.img (s.pcb p).fdt := by
    refine reach.invariant (P := fun s => ValidPid p ∧ TableInv (s.pcb p).fdt ∧ PositionsInside env.img (s.pcb p).fdt) ?_ ?_
    · intro s₀ started
      obtain ⟨valid, table⟩ := started.table
      rw [table]
      have closed : ∀ fd, (initFdt fd).fotPtr ≠ some .fileFot := by decide
      exact ⟨valid, .initFdt, fun fd regular => absurd regular (closed fd)⟩
    · rintro s₀ step ⟨valid, table, inside⟩ allowed
      exact ⟨valid, table.step valid allowed, inside.step sound valid table allowed⟩
  exact inv.2.2

end Steps

/-- **Index-table bounds.** In every state that the calls of a process lead to, a
read of a regular file stays in bounds exactly if the file is not one of the
greatest length that was read to its end. -/
theorem reads_inBounds_iff {env : Env} (sound : env.img.Sound) {p : Int} {s : Kernel}
    (reach : (descriptorCalls env.img p).Reach (JustStarted env p) s) {fd : Fd}
    (regular : ((s.pcb p).fdt fd).fotPtr = some .fileFot) :
    env.img.ReadsInBounds ((s.pcb p).fdt fd).inodeIdx ((s.pcb p).fdt fd).filePosition ↔
      ¬ (((s.pcb p).fdt fd).inodeIdx < env.img.numInodes ∧ ((s.pcb p).fdt fd).filePosition = maxFileLength) :=
  Image.readsInBounds_iff sound (positionsInside_of_reach sound reach fd regular)

/-- A file system with the shell and a second file `big` of the greatest length,
whose blocks are all block 0. -/
def bigFileImage : Image where
  byte a :=
    if a = 0 ∨ a = 4 then 2
    else if a = 8 then 1
    else if 64 ≤ a ∧ a < 69 then (message "shell").getD (a - 64) 0
    else if 128 ≤ a ∧ a < 131 then (message "big").getD (a - 128) 0
    else if a = 96 ∨ a = 160 then 2
    else if a = 164 then 1
    else if a = 4096 then 28
    else if a = 8193 then 0xF0
    else if a = 8194 then 0x3F
    else if 12288 ≤ a ∧ a < 12292 then (message "\x7fELF").getD (a - 12288) 0
    else 0

/-- Behind the lengths of the two inodes there are zeros. -/
theorem bigFileImage_zero {a : Nat} (low : 4096 < a) (high : a < 12288) (not1 : a ≠ 8193) (not2 : a ≠ 8194) :
    bigFileImage.byte a = 0 := by
  simp only [bigFileImage]
  split_ifs <;> first | omega | rfl

theorem bigFileImage_sound : bigFileImage.Sound where
  lengths := by decide +kernel
  blocks inode valid k within := by
    have two : bigFileImage.numInodes = 2 := by decide +kernel
    have bound : ∀ inode < 2, bigFileImage.lengthInBytes inode ≤ maxFileLength := by decide +kernel
    have upto := bound inode (by omega)
    have index : bigFileImage.dataBlockIndex inode (k / blockSizeBytes) = 0 := by
      simp only [maxFileLength, dataBlock, blockSizeBytes] at upto
      simp only [Image.dataBlockIndex, Image.inodeAddr, blockSizeBytes, word]
      rw [bigFileImage_zero, bigFileImage_zero, bigFileImage_zero, bigFileImage_zero]
      · rfl
      all_goals omega
    rw [index]
    decide +kernel

/-- The entry of a name in that file system. -/
theorem bigFileImage_found (name : String) (nonzero : ∀ b ∈ message name, b ≠ 0) {i : Nat}
    (inside : i < bigFileImage.numDirEntriesWord) (named : bigFileImage.entryName i = message name)
    (least : ∀ j < i, bigFileImage.entryName j ≠ message name) :
    bigFileImage.readDentryByName (literal name fun _ => 0) = some (bigFileImage.dirEntry i) :=
  Image.readDentryByName_found (by decide +kernel) (literal_terminated name _ nonzero) inside named least

@[irreducible] def bigFileEnv : Env := ⟨bigFileImage, fun _ => 0⟩

theorem bigFileEnv_img : bigFileEnv.img = bigFileImage := by
  unfold bigFileEnv
  rfl

theorem bigFileEnv_loadable : ShellLoadable bigFileEnv := by
  unfold ShellLoadable
  rw [bigFileEnv_img]
  exact ⟨bigFileImage.dirEntry 0, bigFileImage_found "shell" (by decide +kernel) (by decide +kernel) (by decide +kernel)
    (fun j below => absurd below (Nat.not_lt_zero j)), by decide +kernel, by decide +kernel, by decide +kernel⟩

/-- The descriptor of `big` at a position. -/
def bigFileAt (position : Nat) : FdtEntry := ⟨some .fileFot, 1, position, true, true⟩

/-- A new process opens `big`. -/
theorem bigFile_opened : ∃ s, (descriptorCalls bigFileEnv.img 3).Reach (JustStarted bigFileEnv 3) s ∧
    (s.pcb 3).fdt 2 = bigFileAt 0 := by
  obtain ⟨eip, s, launched, -⟩ := sysExecute_shell bigFileEnv_loadable (.blank ⟨kernelStackTop 2, 0⟩)
    booted_afterBoot.getNewPid
  have started : JustStarted bigFileEnv 3 s := ⟨_, _, _, _, launched⟩
  obtain ⟨valid, table⟩ := started.table
  have stack : OnStack (kernelStackTop 3) (kernelStackTop 3) := ⟨Nat.le_refl _, by omega⟩
  have own := fun s => currPcb_eq (r := ⟨kernelStackTop 3, 0⟩) valid stack s
  have found : bigFileEnv.img.readDentryByName (literal "big" fun _ => 0) = some (bigFileImage.dirEntry 1) := by
    rw [bigFileEnv_img]
    exact bigFileImage_found "big" (by decide +kernel) (by decide +kernel) (by decide +kernel) (by decide +kernel)
  have free : getNewFd (s.currPcb ⟨kernelStackTop 3, 0⟩) = some 2 := by
    rw [getNewFd_eq_some, own, table]
    decide
  obtain ⟨s', opened, entries⟩ := sysOpen_found (by rw [own, table]; exact .initFdt) found free
  have start : (descriptorCalls bigFileEnv.img 3).Reach (JustStarted bigFileEnv 3) s := .base started
  refine ⟨s', ?_, ?_⟩
  · apply start.step_to (FdStep.open_ ⟨kernelStackTop 3, 0⟩ (literal "big" fun _ => 0)) stack
    exact congrArg Prod.snd opened
  · rw [← own, entries, Function.update_self]
    decide +kernel

/-- It reads the file to its end. -/
theorem bigFile_read : ∃ s, (descriptorCalls bigFileEnv.img 3).Reach (JustStarted bigFileEnv 3) s ∧
    (s.pcb 3).fdt 2 = bigFileAt maxFileLength := by
  obtain ⟨s, reach, entry⟩ := bigFile_opened
  have stack : OnStack (kernelStackTop 3) (kernelStackTop 3) := ⟨Nat.le_refl _, by omega⟩
  have own := fun s => currPcb_eq (r := ⟨kernelStackTop 3, 0⟩) (show ValidPid 3 from ⟨by omega, by omega⟩) stack s
  have read := reach.step (FdStep.read ⟨kernelStackTop 3, 0⟩ 2 (some fun _ => 0) maxFileLength) stack
  refine ⟨_, read, ?_⟩
  have entry' : (s.currPcb ⟨kernelStackTop 3, 0⟩).fdt 2 = bigFileAt 0 := by rw [own, entry]
  have dispatch : sysRead ⟨kernelStackTop 3, 0⟩ 2 false s = .call (some .fileFot) := by
    simp only [sysRead, entry']
    rfl
  have length : bigFileImage.lengthInBytes 1 = maxFileLength := by decide +kernel
  have valid : 1 < bigFileImage.numInodes := by decide +kernel
  show ((readCall bigFileEnv.img ⟨kernelStackTop 3, 0⟩ 2 (some fun _ => 0) maxFileLength s).pcb 3).fdt 2 = _
  rw [← own]
  simp only [readCall, Option.isNone_some, dispatch]
  rw [bigFileEnv_img, fileRead_fdt bigFileImage_sound (by rw [entry']; rfl) (by rw [entry']; rfl) valid (Nat.zero_le _),
    Function.update_self, entry', length]
  rfl

/-- A read of a file that was just opened is in bounds. -/
theorem reads_inBounds_opened : ∃ s, (descriptorCalls bigFileEnv.img 3).Reach (JustStarted bigFileEnv 3) s ∧
    ((s.pcb 3).fdt 2).fotPtr = some .fileFot ∧
    bigFileEnv.img.ReadsInBounds ((s.pcb 3).fdt 2).inodeIdx ((s.pcb 3).fdt 2).filePosition := by
  obtain ⟨s, reach, entry⟩ := bigFile_opened
  have regular : ((s.pcb 3).fdt 2).fotPtr = some .fileFot := by
    rw [entry]
    rfl
  refine ⟨s, reach, regular, (reads_inBounds_iff (by rw [bigFileEnv_img]; exact bigFileImage_sound) reach regular).2 ?_⟩
  rw [entry]
  rintro ⟨-, full⟩
  exact absurd full (by decide)

/-- After a file of the greatest length was read to its end, the next read is not. -/
theorem read_past_index_table : bigFileEnv.img.Sound ∧
    ∃ s, (descriptorCalls bigFileEnv.img 3).Reach (JustStarted bigFileEnv 3) s ∧
      ((s.pcb 3).fdt 2).fotPtr = some .fileFot ∧
      ¬ bigFileEnv.img.ReadsInBounds ((s.pcb 3).fdt 2).inodeIdx ((s.pcb 3).fdt 2).filePosition := by
  obtain ⟨s, reach, entry⟩ := bigFile_read
  rw [bigFileEnv_img] at reach ⊢
  refine ⟨bigFileImage_sound, s, reach, by rw [entry]; rfl, fun bounds => ?_⟩
  rw [entry] at bounds
  have first := bounds 0 (.index dataBlock) (by decide +kernel)
  exact absurd first (Nat.lt_irrefl dataBlock)

end BigBrainOS
