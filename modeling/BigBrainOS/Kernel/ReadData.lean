import BigBrainOS.Kernel.Files

/-!
# `read_data`, its buffer and its accesses

`Kernel.FileSystem` says which bytes `read_data` delivers. Here the loop stores
them in the caller's buffer, as the source does, and the same loop once more
records what it touches in the image: the entries of `data_block_indices` and the
bytes of data blocks.
-/

namespace BigBrainOS
set_option autoImplicit false

namespace Image

/-! ## The buffer -/

/-- The loop of `read_data` with `n` bytes of the request left. -/
def readInto (img : Image) (inode : Nat) : Nat → ReadState → Nat → Bytes → Nat × Bytes
  | 0, _, numBytesRead, buf => (numBytesRead, buf)
  | n + 1, st, numBytesRead, buf =>
    if st.fileSeek ≥ img.lengthInBytes inode then (numBytesRead, buf)
    else
      let st := img.nextBlock inode st
      readInto img inode n (advance st) (numBytesRead + 1) (Function.update buf numBytesRead (img.byte st.dataAddr))

/-- `read_data`: the value returned, an `int32_t`, and the buffer. -/
def readDataInto (img : Image) (inode offset : Nat) (buf : Bytes) (length : Nat) : Int × Bytes :=
  if inode ≥ img.numInodes then (error, buf)
  else
    let read := img.readInto inode length (img.readStart inode offset) 0 buf
    (signed read.1, read.2)

/-- The loop counts and stores the bytes it delivers. -/
theorem readInto_eq (img : Image) (inode : Nat) : ∀ n st m (buf : Bytes),
    img.readInto inode n st m buf = (m + (img.readLoop inode n st).length,
      fun k => if k < m then buf k else ((img.readLoop inode n st)[k - m]?).getD (buf k)) := by
  intro n
  induction n with
  | zero =>
    intro st m buf
    simp [readInto, readLoop]
  | succ n ih =>
    intro st m buf
    rw [readInto, readLoop]
    split
    · simp
    · dsimp only
      rw [ih]
      refine Prod.ext (by simp only [List.length_cons]; omega) (funext fun k => ?_)
      rcases Nat.lt_trichotomy k m with before | here | behind
      · simp only [if_pos before, if_pos (Nat.lt_succ_of_lt before), Function.update_of_ne (Nat.ne_of_lt before)]
      · simp [here]
      · obtain ⟨d, rfl⟩ : ∃ d, k = m + 1 + d := ⟨k - (m + 1), by omega⟩
        simp only [if_neg (show ¬ m + 1 + d < m by omega), if_neg (show ¬ m + 1 + d < m + 1 by omega),
          Function.update_of_ne (show m + 1 + d ≠ m by omega), show m + 1 + d - (m + 1) = d by omega,
          show m + 1 + d - m = d + 1 by omega, List.getElem?_cons_succ]

/-- The buffer holds what `read_data` delivers, and what it held behind that. -/
theorem readDataInto_eq (img : Image) (inode offset : Nat) (buf : Bytes) (length : Nat) :
    img.readDataInto inode offset buf length =
      match img.readData inode offset length with
      | none => (error, buf)
      | some bytes => (signed bytes.length, store buf bytes) := by
  unfold readDataInto readData
  split
  · rfl
  · simp only [readInto_eq, Nat.zero_add, Nat.not_lt_zero, if_false, Nat.sub_zero]
    rfl

/-! ## The accesses -/

/-- What `read_data` touches: `data_block_indices[j]`, or the byte at an address. -/
inductive Access where
  | index (j : Nat)
  | byte (addr : Nat)
  deriving DecidableEq, Repr

/-- The entry that the block switch reads. -/
def nextBlockAccess (st : ReadState) : List Access :=
  if st.dataBlockOffset = blockSizeBytes then [.index (st.dataBlockIdx + 1)] else []

/-- The accesses of the loop with `n` bytes of the request left. -/
def readAccesses (img : Image) (inode : Nat) : Nat → ReadState → List Access
  | 0, _ => []
  | n + 1, st =>
    if st.fileSeek ≥ img.lengthInBytes inode then []
    else
      let st' := img.nextBlock inode st
      nextBlockAccess st ++ .byte st'.dataAddr :: readAccesses img inode n (advance st')

/-- The accesses of `read_data`. The first block is looked up before anything is
compared with the length of the file. -/
def readDataAccesses (img : Image) (inode offset length : Nat) : List Access :=
  if inode ≥ img.numInodes then []
  else .index (img.readStart inode offset).dataBlockIdx :: img.readAccesses inode length (img.readStart inode offset)

/-- The access stays in the index table, or in a block of the file system. -/
def Access.InBounds (img : Image) : Access → Prop
  | .index j => j < dataBlock
  | .byte addr => ∃ b < img.numDataBlocks, img.blockAddr b ≤ addr ∧ addr < img.blockAddr b + blockSizeBytes

/-- From position `k` on, the loop looks at blocks inside the length of the file only. -/
theorem readAccesses_spec (img : Image) (inode : Nat) : ∀ n k st, ReadAt img inode k st →
    ∀ access ∈ img.readAccesses inode n st, ∃ k' < img.lengthInBytes inode,
      access = .index (k' / blockSizeBytes) ∨
        access = .byte (img.blockAddr (img.dataBlockIndex inode (k' / blockSizeBytes)) + k' % blockSizeBytes) := by
  intro n
  induction n with
  | zero => intro k st _ access member; cases member
  | succ n ih =>
    intro k st at_k access member
    rw [readAccesses] at member
    split at member
    · cases member
    · next inside =>
      rw [at_k.1] at inside
      have within : k < img.lengthInBytes inode := by omega
      rcases List.mem_append.1 member with switch | later
      · -- the block switch happens behind the last byte of a block, and then `k` opens the next one
        refine ⟨k, within, Or.inl ?_⟩
        rw [nextBlockAccess] at switch
        split at switch
        · next full =>
          rw [List.mem_singleton] at switch
          obtain ⟨-, ⟨off, -, -⟩ | ⟨-, -, idx⟩⟩ := at_k
          · have small : k % blockSizeBytes < blockSizeBytes := Nat.mod_lt _ (by decide)
            omega
          · rw [switch, idx]
        · cases switch
      · rcases List.mem_cons.1 later with byte | rest
        · exact ⟨k, within, Or.inr (by rw [byte, (nextBlock_readAt at_k).2.2.2])⟩
        · exact ih (k + 1) _ (advance_readAt at_k) access rest

end Image

end BigBrainOS
