import BigBrainOS.Kernel.Init
import BigBrainOS.Theory.PageWords
import BigBrainOS.Theory.Reach

/-!
# What a program can reach

The functions of `paging.c` on the words of the three tables, bit field by bit
field. Whatever the order in which they are called after `init_paging`, a user
access goes to the frame of the last enabled process or to one of the four
video frames. `Decodes` relates the words to the records of the kernel's state.
-/

namespace BigBrainOS
set_option autoImplicit false

open PageWord

abbrev dirSize : Nat := 1024

/-- `page_directory`, `page_table` and `vidmem_page_table`. -/
structure Tables where
  pageDirectory : Nat → Entry
  pageTable : Nat → Entry
  vidmemPageTable : Nat → Entry

/-- Where the linker put the two page tables: each at the start of a page of its own. -/
structure Placement where
  pageTable : BitVec 32
  vidmemPageTable : BitVec 32
  pageTable_aligned : pageTable.toNat % 4096 = 0
  vidmemPageTable_aligned : vidmemPageTable.toNat % 4096 = 0
  distinct : pageTable ≠ vidmemPageTable

namespace Placement

/-- `(uint32_t)(page_table) >> ALIGN_SIZE`. -/
def pageTableFrame (a : Placement) : BitVec 20 := (a.pageTable >>> 12).setWidth 20

/-- `(uint32_t)(vidmem_page_table) >> ALIGN_SIZE`. -/
def vidmemFrame (a : Placement) : BitVec 20 := (a.vidmemPageTable >>> 12).setWidth 20

end Placement

namespace Tables

/-- The tables before `init_paging`: zero, as all uninitialised globals. -/
def zero : Tables := ⟨fun _ => 0, fun _ => 0, fun _ => 0⟩

/-- `init_paging`, up to the call of `enable_paging`. -/
def initPaging (a : Placement) (t : Tables) : Tables :=
  let dir : Nat → Entry := fun i => if i < dirSize then setReadWrite 0 else t.pageDirectory i
  let table : Nat → Entry := fun i =>
    if i < dirSize then setReadWrite (setAddress (BitVec.ofNat 20 i) 0) else t.pageTable i
  let dir := Function.update dir 0 (setAddress a.pageTableFrame (setPresent (dir 0)))
  let dir := Function.update dir 1 (setAddress (BitVec.ofNat 20 (fourMB / 4096)) (setLargePage (setPresent (dir 1))))
  let table := Function.update table videoPage (setPresent (table videoPage))
  let table := Function.update table (videoPage + 1) (setPresent (table (videoPage + 1)))
  let table := Function.update table (videoPage + 2) (setPresent (table (videoPage + 2)))
  let table := Function.update table (videoPage + 3) (setPresent (table (videoPage + 3)))
  { t with pageDirectory := dir, pageTable := table }

/-- `enable_program_page`. -/
def enableProgramPage (processNum : Int) (t : Tables) : Tables :=
  let entry := setUserSupervisor (setLargePage (setPresent (t.pageDirectory userProgramPdIdx)))
  { t with
    pageDirectory := Function.update t.pageDirectory userProgramPdIdx
      (setAddress (BitVec.ofInt 20 ((processNum + 2) * fourMB / 4096)) entry) }

/-- `change_vidmem`. -/
def changeVidmem (processNum : Int) (t : Tables) : Tables :=
  let vidBuffer := BitVec.ofInt 20 (videoPage + 1 + processNum)
  { t with
    pageTable := Function.update t.pageTable videoPage (setAddress vidBuffer (t.pageTable videoPage))
    vidmemPageTable := Function.update t.vidmemPageTable 0 (setAddress vidBuffer (t.vidmemPageTable 0)) }

/-- `get_vidmem`. -/
def getVidmem (a : Placement) (t : Tables) : Tables :=
  let entry := setUserSupervisor (setPresent (t.pageDirectory (userProgramPdIdx + 1)))
  { t with
    vidmemPageTable := Function.update t.vidmemPageTable 0
      (setAddress (BitVec.ofNat 20 videoPage) (setUserSupervisor (setPresent (setReadWrite 0))))
    pageDirectory := Function.update t.pageDirectory (userProgramPdIdx + 1) (setAddress a.vidmemFrame entry) }

/-- The page table in a frame; `memory` is whatever the other frames hold. -/
def table (a : Placement) (memory : BitVec 20 → Nat → Entry) (t : Tables) (frame : BitVec 20) : Nat → Entry :=
  if frame = a.pageTableFrame then t.pageTable
  else if frame = a.vidmemFrame then t.vidmemPageTable
  else memory frame

/-- Where a user access goes through these tables. -/
def userAddress (a : Placement) (memory : BitVec 20 → Nat → Entry) (t : Tables) (lin : BitVec 32) : Option Nat :=
  userTranslate t.pageDirectory (t.table a memory) lin

end Tables

/-! ## The calls after `init_paging` -/

inductive PagingCall where
  | enableProgramPage (pid : Int)
  | changeVidmem (processNum : Int)
  | getVidmem
  deriving DecidableEq, Repr

namespace PagingCall

/-- The arguments that the kernel passes. -/
def Valid : PagingCall → Prop
  | .enableProgramPage pid => ValidPid pid
  | .changeVidmem v => -1 ≤ v ∧ v ≤ 2
  | .getVidmem => True

def run (a : Placement) (t : Tables) : PagingCall → Tables
  | .enableProgramPage pid => t.enableProgramPage pid
  | .changeVidmem v => t.changeVidmem v
  | .getVidmem => t.getVidmem a

/-- The pid enabled last, after a call. -/
def enabled (last : Option Int) : PagingCall → Option Int
  | .enableProgramPage pid => some pid
  | _ => last

end PagingCall

/-- Any calls in any order. -/
def pagingCalls (a : Placement) : TransitionSystem Tables PagingCall where
  ok _ c := c.Valid
  next t c := c.run a t

/-- The pid that a list of calls enabled last. -/
def lastEnabled (calls : List PagingCall) : Option Int := calls.foldl PagingCall.enabled none

/-! ## The invariant -/

/-- The only user entries are those of the program page and of the page behind
it, and they lead to the last enabled process and to the video frames. -/
structure Protects (a : Placement) (t : Tables) (last : Option Int) : Prop where
  others : ∀ i, i < dirSize → i ≠ userProgramPdIdx → i ≠ userProgramPdIdx + 1 → userSupervisor (t.pageDirectory i) = false
  program : present (t.pageDirectory userProgramPdIdx) = true → ∃ p, last = some p ∧ ValidPid p ∧
    largePage (t.pageDirectory userProgramPdIdx) = true ∧
    (address (t.pageDirectory userProgramPdIdx)).toNat = programFrame p
  video_small : largePage (t.pageDirectory (userProgramPdIdx + 1)) = false
  video_table : present (t.pageDirectory (userProgramPdIdx + 1)) = true →
    address (t.pageDirectory (userProgramPdIdx + 1)) = a.vidmemFrame
  screen : present (t.vidmemPageTable 0) = true →
    videoPage ≤ (address (t.vidmemPageTable 0)).toNat ∧ (address (t.vidmemPageTable 0)).toNat ≤ videoPage + 3
  blank : ∀ i, i ≠ 0 → present (t.vidmemPageTable i) = false
  kernel : ∀ i, i < dirSize → userSupervisor (t.pageTable i) = false

namespace Protects
variable {a : Placement} {t : Tables} {last : Option Int}

theorem initPaging (a : Placement) : Protects a (Tables.zero.initPaging a) none where
  others i inside _ _ := by
    by_cases zero : i = 0
    · subst zero; simp [Tables.initPaging]
    · by_cases one : i = 1
      · subst one; simp [Tables.initPaging]
      · simp [Tables.initPaging, zero, one, inside]
  program := by simp [Tables.initPaging, userProgramPdIdx, dirSize]
  video_small := by simp [Tables.initPaging, userProgramPdIdx, dirSize]
  video_table := by simp [Tables.initPaging, userProgramPdIdx, dirSize]
  screen := by simp [Tables.initPaging, Tables.zero]
  blank := by simp [Tables.initPaging, Tables.zero]
  kernel i inside := by
    by_cases video : i = videoPage ∨ i = videoPage + 1 ∨ i = videoPage + 2 ∨ i = videoPage + 3
    · rcases video with rfl | rfl | rfl | rfl <;> simp [Tables.initPaging, videoPage, dirSize]
    · rw [not_or, not_or, not_or] at video
      simp [Tables.initPaging, video, inside]

theorem enableProgramPage (h : Protects a t last) {pid : Int} (valid : ValidPid pid) :
    Protects a (t.enableProgramPage pid) (some pid) where
  others i inside first second := by
    simp only [Tables.enableProgramPage, Function.update_of_ne first]
    exact h.others i inside first second
  program _ := by
    refine ⟨pid, rfl, valid, ?_, ?_⟩
    · simp [Tables.enableProgramPage]
    · simp only [Tables.enableProgramPage, Function.update_self, address_setAddress, BitVec.toNat_ofInt]
      rfl
  video_small := by
    simp only [Tables.enableProgramPage, Function.update_of_ne (show userProgramPdIdx + 1 ≠ userProgramPdIdx by decide)]
    exact h.video_small
  video_table := by
    simp only [Tables.enableProgramPage, Function.update_of_ne (show userProgramPdIdx + 1 ≠ userProgramPdIdx by decide)]
    exact h.video_table
  screen := h.screen
  blank := h.blank
  kernel := h.kernel

theorem changeVidmem (h : Protects a t last) {v : Int} (low : -1 ≤ v) (high : v ≤ 2) :
    Protects a (t.changeVidmem v) last where
  others := h.others
  program := h.program
  video_small := h.video_small
  video_table := h.video_table
  screen _ := by
    simp only [Tables.changeVidmem, Function.update_self, address_setAddress, BitVec.toNat_ofInt, videoPage]
    omega
  blank i other := by
    simp only [Tables.changeVidmem, Function.update_of_ne other]
    exact h.blank i other
  kernel i inside := by
    by_cases video : i = videoPage
    · subst video
      have same := h.kernel videoPage inside
      simpa [Tables.changeVidmem] using same
    · simp only [Tables.changeVidmem, Function.update_of_ne video]
      exact h.kernel i inside

theorem getVidmem (h : Protects a t last) : Protects a (t.getVidmem a) last where
  others i inside first second := by
    simp only [Tables.getVidmem, Function.update_of_ne second]
    exact h.others i inside first second
  program := by
    simp only [Tables.getVidmem, Function.update_of_ne (show userProgramPdIdx ≠ userProgramPdIdx + 1 by decide)]
    exact h.program
  video_small := by simpa [Tables.getVidmem] using h.video_small
  video_table _ := by simp [Tables.getVidmem]
  screen _ := by
    simp only [Tables.getVidmem, Function.update_self, address_setAddress]
    decide
  blank i other := by
    simp only [Tables.getVidmem, Function.update_of_ne other]
    exact h.blank i other
  kernel := h.kernel

/-- **Step lemma.** Every valid call keeps the invariant. -/
theorem run (h : Protects a t last) {c : PagingCall} (valid : c.Valid) : Protects a (c.run a t) (c.enabled last) := by
  cases c with
  | enableProgramPage pid => exact h.enableProgramPage valid
  | changeVidmem v => exact h.changeVidmem valid.1 valid.2
  | getVidmem => exact h.getVidmem

end Protects

/-! ## User accesses -/

/-- What the tables let a user access reach. -/
inductive UserReach (last : Option Int) (lin phys : Nat) : Prop where
  /-- The program page, at the same offset of the process enabled last. -/
  | program {p : Int} : last = some p → ValidPid p → 0x8000000 ≤ lin → lin < 0x8400000 →
      (phys : Int) = eightMB + fourMB * p + (lin - 0x8000000) → UserReach last lin phys
  /-- The page behind it, in one of the four video frames. -/
  | video {frame : Nat} : 0x8400000 ≤ lin → lin < 0x8401000 → videoPage ≤ frame → frame ≤ videoPage + 3 →
      phys = frame * 4096 + (lin - 0x8400000) → UserReach last lin phys

theorem Protects.userReach {a : Placement} {t : Tables} {last : Option Int} (h : Protects a t last)
    {memory : BitVec 20 → Nat → Entry} {lin : BitVec 32} {phys : Nat}
    (access : t.userAddress a memory lin = some phys) : UserReach last lin.toNat phys := by
  have range := lin.isLt
  have inside : lin.toNat / 2 ^ 22 < dirSize := by simp only [dirSize]; omega
  obtain ⟨mapped, user, step⟩ := userTranslate_cases access
  have entry : lin.toNat / 2 ^ 22 = userProgramPdIdx ∨ lin.toNat / 2 ^ 22 = userProgramPdIdx + 1 := by
    by_contra neither
    rw [not_or] at neither
    rw [h.others _ inside neither.1 neither.2] at user
    cases user
  rcases entry with program | video
  · rw [program] at mapped step
    obtain ⟨p, enabled, valid, large, frame⟩ := h.program mapped
    rcases step with ⟨-, target⟩ | ⟨small, -⟩
    · rw [frame] at target
      obtain ⟨low, high⟩ := valid
      simp only [programFrame, fourMB, pageSize, userProgramPdIdx] at target program
      refine .program enabled ⟨low, high⟩ (by omega) (by omega) ?_
      simp only [eightMB, fourMB]
      omega
    · rw [large] at small; cases small
  · rw [video] at mapped step
    rcases step with ⟨large, -⟩ | ⟨-, pagePresent, pageUser, target⟩
    · rw [h.video_small] at large; cases large
    · rw [h.video_table mapped] at pagePresent pageUser target
      by_cases same : a.vidmemFrame = a.pageTableFrame
      · -- the entries of `page_table` are for the kernel only
        simp only [Tables.table, if_pos same] at pageUser
        rw [h.kernel _ (by simp only [dirSize]; omega)] at pageUser
        cases pageUser
      · simp only [Tables.table, if_neg same, if_true] at pagePresent target
        have first : lin.toNat / 2 ^ 12 % 2 ^ 10 = 0 := by
          by_contra other
          rw [h.blank _ other] at pagePresent
          cases pagePresent
        rw [first] at pagePresent target
        obtain ⟨low, high⟩ := h.screen pagePresent
        simp only [userProgramPdIdx] at video
        exact .video (by omega) (by omega) low high (by omega)

theorem UserReach.not_kernel {last : Option Int} {lin phys : Nat} (h : UserReach last lin phys) :
    ¬ (fourMB ≤ phys ∧ phys < eightMB) := by
  cases h with
  | program enabled valid low high target =>
    obtain ⟨nonneg, -⟩ := valid
    simp only [eightMB, fourMB] at target ⊢
    omega
  | video low high first last target =>
    simp only [videoPage, fourMB, eightMB] at first last target ⊢
    omega

/-- A user access that ends in a process frame ends in that of the process enabled last. -/
theorem UserReach.own_frame {last : Option Int} {lin phys : Nat} (h : UserReach last lin phys) {q : Int}
    (valid : ValidPid q) (low : (eightMB : Int) + fourMB * q ≤ phys) (high : (phys : Int) < eightMB + fourMB * q + fourMB) :
    last = some q := by
  obtain ⟨nonneg, -⟩ := valid
  cases h with
  | @program p enabled valid' _ _ target =>
    have same : p = q := by
      simp only [eightMB, fourMB] at low high target
      omega
    rw [enabled, same]
  | video _ _ first last target =>
    simp only [videoPage, fourMB, eightMB] at first last target low high
    omega

/-- **User memory protection.** After `init_paging` and any valid calls, a user
access goes to the process enabled last or to a video frame, never to the
kernel's page or to another process. -/
theorem user_access_protected (a : Placement) (memory : BitVec 20 → Nat → Entry) {calls : List PagingCall}
    (valid : (pagingCalls a).Allowed (Tables.zero.initPaging a) calls) {lin : BitVec 32} {phys : Nat}
    (access : ((pagingCalls a).exec (Tables.zero.initPaging a) calls).userAddress a memory lin = some phys) :
    UserReach (lastEnabled calls) lin.toNat phys ∧ ¬ (fourMB ≤ phys ∧ phys < eightMB) ∧
      ∀ q, ValidPid q → lastEnabled calls ≠ some q →
        ¬ ((eightMB : Int) + fourMB * q ≤ phys ∧ (phys : Int) < eightMB + fourMB * q + fourMB) := by
  have protects : Protects a ((pagingCalls a).exec (Tables.zero.initPaging a) calls) (lastEnabled calls) :=
    TransitionSystem.exec_related (R := fun t last => Protects a t last)
      (fun _ _ _ h ok => h.run ok) (Protects.initPaging a) valid
  have reach := protects.userReach access
  refine ⟨reach, reach.not_kernel, fun q validPid other inside => ?_⟩
  exact other (reach.own_frame validPid inside.1 inside.2)

/-- A placement of the two tables in the kernel's page. -/
def somePlacement : Placement := ⟨0x405000, 0x406000, by decide, by decide, by decide⟩

/-- The entry of a program of process 2, which has also mapped the screen. -/
theorem user_access_program :
    ∃ phys, ((pagingCalls somePlacement).exec (Tables.zero.initPaging somePlacement)
        [.enableProgramPage 0, .getVidmem, .changeVidmem 1, .enableProgramPage 2]).userAddress somePlacement
          (fun _ _ => 0) 0x8048000 = some phys ∧
      UserReach (some 2) 0x8048000 phys ∧ ¬ (fourMB ≤ phys ∧ phys < eightMB) := by
  have access : ((pagingCalls somePlacement).exec (Tables.zero.initPaging somePlacement)
      [.enableProgramPage 0, .getVidmem, .changeVidmem 1, .enableProgramPage 2]).userAddress somePlacement
        (fun _ _ => 0) 0x8048000 = some 0x1048000 := by decide +kernel
  have valid : (pagingCalls somePlacement).Allowed (Tables.zero.initPaging somePlacement)
      [.enableProgramPage 0, .getVidmem, .changeVidmem 1, .enableProgramPage 2] :=
    ⟨⟨by decide, by decide⟩, trivial, ⟨by decide, by decide⟩, ⟨by decide, by decide⟩, trivial⟩
  have protected_ := user_access_protected somePlacement (fun _ _ => 0) valid access
  exact ⟨_, access, protected_.1, protected_.2.1⟩

/-! ## The records of the kernel's state -/

/-- The record that a directory entry stands for. -/
def decodeDir (e : Entry) : PageDirEntry :=
  ⟨present e, readWrite e, userSupervisor e, largePage e, (address e).toNat⟩

/-- The record that a table entry stands for. -/
def decodeTable (e : Entry) : PageTableEntry := ⟨present e, readWrite e, userSupervisor e, (address e).toNat⟩

/-- The kernel's records are those of the words. -/
structure Decodes (t : Tables) (s : Kernel) : Prop where
  pageDirectory : ∀ i, i < dirSize → s.pageDirectory i = decodeDir (t.pageDirectory i)
  pageTable : ∀ i, i < dirSize → s.pageTable i = decodeTable (t.pageTable i)
  vidmemPageTable : ∀ i, i < dirSize → s.vidmemPageTable i = decodeTable (t.vidmemPageTable i)

/-- A table and its records after one entry of each was overwritten. -/
theorem decoded_update {α : Type} {f : Nat → α} {g : Nat → Entry} {decode : Entry → α}
    (same : ∀ i, i < dirSize → f i = decode (g i)) {j : Nat} {x : α} {e : Entry} (entry : x = decode e) :
    ∀ i, i < dirSize → Function.update f j x i = decode (Function.update g j e i) := by
  intro i inside
  by_cases here : i = j
  · rw [here, Function.update_self, Function.update_self, entry]
  · rw [Function.update_of_ne here, Function.update_of_ne here, same i inside]

namespace Decodes
variable {t : Tables} {s : Kernel}

theorem enableProgramPage (h : Decodes t s) (pid : Int) :
    Decodes (t.enableProgramPage pid) (BigBrainOS.enableProgramPage pid s) := by
  refine ⟨decoded_update h.pageDirectory ?_, h.pageTable, h.vidmemPageTable⟩
  rw [h.pageDirectory _ (by decide)]
  simp [decodeDir, programFrame, BitVec.toNat_ofInt]

theorem changeVidmem (h : Decodes t s) {v : Int} (low : -1 ≤ v) (high : v ≤ 2) :
    Decodes (t.changeVidmem v) (BigBrainOS.changeVidmem v s) := by
  have frame : (185 + v).toNat = ((185 + v) % 1048576).toNat := by omega
  refine ⟨h.pageDirectory, decoded_update h.pageTable ?_, decoded_update h.vidmemPageTable ?_⟩
  · rw [h.pageTable _ (by decide)]
    simp [decodeTable, frame]
  · rw [h.vidmemPageTable _ (by decide)]
    simp [decodeTable, frame]

theorem getVidmem (h : Decodes t s) (a : Placement) :
    Decodes (t.getVidmem a) (BigBrainOS.getVidmem a.vidmemPageTable.toNat s) := by
  have frame : a.vidmemPageTable.toNat / pageSize % 2 ^ 20 = a.vidmemFrame.toNat := by
    simp only [Placement.vidmemFrame, BitVec.toNat_setWidth, BitVec.toNat_ushiftRight, Nat.shiftRight_eq_div_pow]
  refine ⟨decoded_update h.pageDirectory ?_, h.pageTable, decoded_update h.vidmemPageTable ?_⟩
  · rw [h.pageDirectory _ (by decide)]
    simpa [decodeDir] using frame
  · simp [decodeTable, videoPage]

/-- `init_paging` builds the tables that the kernel starts with. -/
theorem entry (a : Placement) {m : Machine} (placed : m.pageTableAddr = a.pageTable.toNat) :
    Decodes (Tables.zero.initPaging a) (BigBrainOS.entry m) := by
  have frame : m.pageTableAddr / pageSize = a.pageTableFrame.toNat := by
    have range := a.pageTable.isLt
    simp only [Placement.pageTableFrame, BitVec.toNat_setWidth, BitVec.toNat_ushiftRight, Nat.shiftRight_eq_div_pow,
      placed, pageSize]
    omega
  refine ⟨fun i inside => ?_, fun i inside => ?_, fun i _ => ?_⟩
  · show initPageDirectory m.pageTableAddr i = _
    by_cases zero : i = 0
    · subst zero; simp [initPageDirectory, Tables.initPaging, decodeDir, frame]
    · by_cases one : i = 1
      · subst one; simp [initPageDirectory, Tables.initPaging, decodeDir, fourMB, pageSize]
      · simp [initPageDirectory, Tables.initPaging, decodeDir, zero, one, inside]
  · show initPageTable i = _
    by_cases video : i = videoPage ∨ i = videoPage + 1 ∨ i = videoPage + 2 ∨ i = videoPage + 3
    · rcases video with rfl | rfl | rfl | rfl <;> simp [initPageTable, Tables.initPaging, decodeTable, videoPage, dirSize]
    · rw [not_or, not_or, not_or] at video
      have hidden : ¬ (videoPage ≤ i ∧ i ≤ videoPage + 3) := by simp only [videoPage] at video ⊢; omega
      have small : i % 2 ^ 20 = i := Nat.mod_eq_of_lt (by simp only [dirSize] at inside; omega)
      simp [initPageTable, Tables.initPaging, decodeTable, video, inside, hidden]
      omega
  · show (⟨false, false, false, 0⟩ : PageTableEntry) = _
    simp [Tables.initPaging, Tables.zero, decodeTable]

end Decodes

end BigBrainOS
