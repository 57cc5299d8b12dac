import BigBrainOS.Kernel.Strings

/-!
# The read-only file system of `file_system.c`

The image is raw memory from `file_system_addr` on: the boot block with its
counts and directory entries, then one block for each inode, then the data
blocks. Every accessor computes the address the C expression computes, so an
index past the end of an array reads whatever follows it, as in the source.
-/

namespace BigBrainOS
set_option autoImplicit false

abbrev blockSizeBytes : Nat := 4096
abbrev fileNameSize : Nat := 32
abbrev dirEntrySizeBytes : Nat := 64
/-- The length of `data_block_indices`. -/
abbrev dataBlock : Nat := 1023

/-- The bytes of the image, by offset from `file_system_addr`. -/
structure Image where
  byte : Bytes

/-- `dir_entry_t`: the first 64 bytes of `val`. -/
structure DirEntry where
  val : Bytes

namespace DirEntry

def fileName (e : DirEntry) : Bytes := e.val
def fileType (e : DirEntry) : Nat := word e.val 32
def inodeNum (e : DirEntry) : Nat := word e.val 36

end DirEntry

namespace Image

/-- `boot_block->num_dir_entries` as the unsigned field of the boot block. -/
def numDirEntriesWord (img : Image) : Nat := word img.byte 0

/-- The global `num_dir_entries`, an `int32_t`. -/
def numDirEntries (img : Image) : Int :=
  if img.numDirEntriesWord < 2 ^ 31 then img.numDirEntriesWord else (img.numDirEntriesWord : Int) - 2 ^ 32

/-- `num_inodes`; it is only ever compared as unsigned. -/
def numInodes (img : Image) : Nat := word img.byte 4
def numDataBlocks (img : Image) : Nat := word img.byte 8

/-- `dir_entries[i]`. -/
def dirEntry (img : Image) (i : Nat) : DirEntry := ⟨fun k => img.byte (64 + 64 * i + k)⟩

/-- The address of `inodes[i]`. -/
def inodeAddr (i : Nat) : Nat := blockSizeBytes + blockSizeBytes * i
def lengthInBytes (img : Image) (inode : Nat) : Nat := word img.byte (inodeAddr inode)

/-- `inodes[inode].data_block_indices[j]`. -/
def dataBlockIndex (img : Image) (inode j : Nat) : Nat := word img.byte (inodeAddr inode + 4 + 4 * j)

/-- The address of `data_blocks[b]`. -/
def blockAddr (img : Image) (b : Nat) : Nat := blockSizeBytes * (img.numInodes + 1) + blockSizeBytes * b

/-! ## Directory lookup -/

/-- The loop of `read_dentry_by_name`: the index it breaks at. -/
def searchName (img : Image) (fname : Bytes) : Nat → Nat → Nat
  | 0, i => i
  | n + 1, i =>
    if strncmp fname (img.dirEntry i).fileName fileNameSize = 0 then i else searchName img fname n (i + 1)

/-- `read_dentry_by_name`; `none` for `-1`. The length is only compared with
`FILE_NAME_SIZE`, so 33 bytes decide it; fewer than 2 GB are mapped, so `int len`
is not negative. -/
def readDentryByName (img : Image) (fname : Bytes) : Option DirEntry :=
  if strlen fname (fileNameSize + 1) > fileNameSize then none
  else
    let i := img.searchName fname img.numDirEntries.toNat 0
    if img.numDirEntries = i then none else some (img.dirEntry i)

/-- The lookup depends on the name as a string only. -/
theorem readDentryByName_congr (img : Image) {a b : Bytes} (same : SameString a b) :
    img.readDentryByName a = img.readDentryByName b := by
  have search : ∀ n i, img.searchName a n i = img.searchName b n i := by
    intro n
    induction n with
    | zero => intro i; rfl
    | succ n ih => intro i; simp only [searchName, strncmp_congr same, ih]
  simp only [readDentryByName, strlen_congr same, search]

/-- `read_dentry_by_index`; `none` for `-1`. The comparison is unsigned. -/
def readDentryByIndex (img : Image) (index : Nat) : Option DirEntry :=
  if index > img.numDirEntriesWord then none else some (img.dirEntry index)

/-- A lookup as its caller sees it: the value returned and the entry that
`dir_entry` points to. -/
def fillEntry (found : Option DirEntry) (out : DirEntry) : Int × DirEntry :=
  match found with
  | none => (-1, out)
  | some e => (0, ⟨memcpy out.val e.val dirEntrySizeBytes⟩)

def readDentryByNameInto (img : Image) (fname : Bytes) (out : DirEntry) : Int × DirEntry :=
  fillEntry (img.readDentryByName fname) out

def readDentryByIndexInto (img : Image) (index : Nat) (out : DirEntry) : Int × DirEntry :=
  fillEntry (img.readDentryByIndex index) out

/-! ## `read_data` -/

/-- The loop variables of `read_data`. -/
structure ReadState where
  fileSeek : Nat
  dataBlockIdx : Nat
  dataBlockOffset : Nat
  dataAddr : Nat

/-- The variables on entry to the loop. -/
def readStart (img : Image) (inode offset : Nat) : ReadState where
  fileSeek := offset
  dataBlockIdx := offset / blockSizeBytes
  dataBlockOffset := offset % blockSizeBytes
  dataAddr := img.blockAddr (img.dataBlockIndex inode (offset / blockSizeBytes)) + offset % blockSizeBytes

/-- The `case BLOCK_SIZE_BYTES` of the switch, which falls through to the copy. -/
def nextBlock (img : Image) (inode : Nat) (st : ReadState) : ReadState :=
  if st.dataBlockOffset = blockSizeBytes then
    { st with
      dataBlockOffset := 0
      dataBlockIdx := st.dataBlockIdx + 1
      dataAddr := img.blockAddr (img.dataBlockIndex inode (st.dataBlockIdx + 1)) }
  else st

/-- The `default` case: one byte is delivered and the pointers advance. -/
def advance (st : ReadState) : ReadState :=
  { st with
    dataAddr := st.dataAddr + 1
    fileSeek := st.fileSeek + 1
    dataBlockOffset := st.dataBlockOffset + 1 }

/-- The loop of `read_data` with `n` bytes of the request left: the bytes it
stores, in the order of the buffer. -/
def readLoop (img : Image) (inode : Nat) : Nat → ReadState → List UInt8
  | 0, _ => []
  | n + 1, st =>
    if st.fileSeek ≥ img.lengthInBytes inode then []
    else
      let st := img.nextBlock inode st
      img.byte st.dataAddr :: readLoop img inode n (advance st)

/-- `read_data`: `none` for `ERROR`, else the bytes stored from the start of the
buffer, whose number is the value returned. -/
def readData (img : Image) (inode offset length : Nat) : Option (List UInt8) :=
  if inode ≥ img.numInodes then none else some (img.readLoop inode length (img.readStart inode offset))

/-! ## What `read_data` reads -/

/-- Byte `k` of a file: its blocks in the order of `data_block_indices`. -/
def fileByte (img : Image) (inode k : Nat) : UInt8 :=
  img.byte (img.blockAddr (img.dataBlockIndex inode (k / blockSizeBytes)) + k % blockSizeBytes)

/-- A file's content, cut at `length_in_bytes`. -/
def fileContent (img : Image) (inode : Nat) : List UInt8 :=
  (List.range (img.lengthInBytes inode)).map (img.fileByte inode)

@[simp] theorem fileContent_length (img : Image) (inode : Nat) :
    (img.fileContent inode).length = img.lengthInBytes inode := by
  simp [fileContent]

/-- The loop variables at file position `k`: the pointer is at byte `k`, or
still behind the last byte of the block before. -/
def ReadAt (img : Image) (inode k : Nat) (st : ReadState) : Prop :=
  st.fileSeek = k ∧
    ((st.dataBlockOffset = k % blockSizeBytes ∧ st.dataBlockIdx = k / blockSizeBytes ∧
        st.dataAddr = img.blockAddr (img.dataBlockIndex inode (k / blockSizeBytes)) + k % blockSizeBytes) ∨
      (st.dataBlockOffset = blockSizeBytes ∧ k % blockSizeBytes = 0 ∧ st.dataBlockIdx + 1 = k / blockSizeBytes))

theorem readStart_readAt (img : Image) (inode offset : Nat) :
    ReadAt img inode offset (img.readStart inode offset) :=
  ⟨rfl, Or.inl ⟨rfl, rfl, rfl⟩⟩

/-- Whichever way the pointer came to byte `k`, the block switch puts it there. -/
theorem nextBlock_readAt {img : Image} {inode k : Nat} {st : ReadState} (h : ReadAt img inode k st) :
    let st' := img.nextBlock inode st
    st'.fileSeek = k ∧ st'.dataBlockOffset = k % blockSizeBytes ∧ st'.dataBlockIdx = k / blockSizeBytes ∧
      st'.dataAddr = img.blockAddr (img.dataBlockIndex inode (k / blockSizeBytes)) + k % blockSizeBytes := by
  obtain ⟨seek, ⟨off, idx, addr⟩ | ⟨off, zero, idx⟩⟩ := h
  · have small : st.dataBlockOffset ≠ blockSizeBytes := by
      rw [off]; exact Nat.ne_of_lt (Nat.mod_lt _ (by decide))
    simp only [nextBlock, if_neg small]
    exact ⟨seek, off, idx, addr⟩
  · simp only [nextBlock, if_pos off]
    exact ⟨seek, zero.symm, idx, by rw [idx, zero]; rfl⟩

/-- One delivered byte moves the pointer from position `k` to `k + 1`. -/
theorem advance_readAt {img : Image} {inode k : Nat} {st : ReadState} (h : ReadAt img inode k st) :
    ReadAt img inode (k + 1) (advance (img.nextBlock inode st)) := by
  obtain ⟨seek, off, idx, addr⟩ := nextBlock_readAt h
  refine ⟨by simp [advance, seek], ?_⟩
  by_cases inside : k % blockSizeBytes + 1 < blockSizeBytes
  · have quot : (k + 1) / blockSizeBytes = k / blockSizeBytes := by
      simp only [blockSizeBytes] at inside ⊢; omega
    have rem : (k + 1) % blockSizeBytes = k % blockSizeBytes + 1 := by
      simp only [blockSizeBytes] at inside ⊢; omega
    left
    simp only [advance, off, idx, addr, quot, rem, Nat.add_assoc, and_self]
  · right
    simp only [advance, off, idx]
    simp only [blockSizeBytes] at inside ⊢
    omega

/-- From position `k` the loop delivers the content from byte `k` on. -/
theorem readLoop_eq (img : Image) (inode : Nat) :
    ∀ n k st, ReadAt img inode k st → img.readLoop inode n st = ((img.fileContent inode).drop k).take n := by
  intro n
  induction n with
  | zero => intro k st _; simp [readLoop]
  | succ n ih =>
    intro k st at_k
    by_cases done : img.lengthInBytes inode ≤ k
    · have empty : (img.fileContent inode).drop k = [] :=
        List.drop_eq_nil_of_le (by rw [fileContent_length]; exact done)
      rw [readLoop, if_pos (by rw [at_k.1]; exact done), empty, List.take_nil]
    · have inside : k < (img.fileContent inode).length := by rw [fileContent_length]; omega
      have byte : (img.fileContent inode)[k] = img.fileByte inode k := by simp [fileContent]
      rw [readLoop, if_neg (by rw [at_k.1]; exact done), List.drop_eq_getElem_cons inside, List.take_succ_cons,
        byte, ← ih (k + 1) _ (advance_readAt at_k)]
      simp only [fileByte, (nextBlock_readAt at_k).2.2.2]

/-- **`read_data` is the slice of the file** from the offset on. -/
theorem readData_eq {img : Image} {inode : Nat} (valid : inode < img.numInodes) (offset length : Nat) :
    img.readData inode offset length = some (((img.fileContent inode).drop offset).take length) := by
  rw [readData, if_neg (by omega), readLoop_eq img inode length offset _ (readStart_readAt img inode offset)]

theorem readData_none {img : Image} {inode : Nat} (invalid : img.numInodes ≤ inode) (offset length : Nat) :
    img.readData inode offset length = none := by
  rw [readData, if_pos invalid]

end Image

/-- A file system with one file, a shell of 28 bytes. -/
def shellImage : Image where
  byte a :=
    if a = 0 ∨ a = 4 ∨ a = 8 then 1
    else if 64 ≤ a ∧ a < 69 then (message "shell").getD (a - 64) 0
    else if a = 96 then 2
    else if a = 4096 then 28
    else if 8192 ≤ a ∧ a < 8196 then (message "\x7fELF").getD (a - 8192) 0
    else 0

/-- The four bytes of the magic number and the first byte behind it. -/
example : shellImage.readData 0 0 5 = some [0x7f, 0x45, 0x4c, 0x46, 0] := by decide

end BigBrainOS
