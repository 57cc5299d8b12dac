import BigBrainOS.Kernel.Files

/-!
# `sys_getargs` and `sys_vidmap`

The call that hands a program the argument of its command line, out of the
control block that `sys_execute` filled, and the call that maps the screen into
its address space.
-/

namespace BigBrainOS
set_option autoImplicit false

/-- `sys_getargs`: the value returned and the buffer, which is `none` for the
null pointer. The loop "Clear buffer" stores the same byte `nbytes` times. -/
def sysGetargs (r : Regs) (buf : Option Bytes) (nbytes : Int) (s : Kernel) : Int × Option Bytes :=
  match buf with
  | none => (error, none)
  | some buf =>
    let argLen := (s.currPcb r).argLen
    if argLen = error then (error, some buf)
    else if nbytes < argLen then (error, some buf)
    else
      let length := (argLen % 2 ^ 32).toNat
      let cleared := (List.range nbytes.toNat).foldl (fun b _ => Function.update b length 0) buf
      (0, some (memcpy cleared (s.currPcb r).args length))

/-- However often the loop "Clear buffer" runs, it clears one byte. -/
theorem foldl_update_same (n m : Nat) (buf : Bytes) :
    (List.range m).foldl (fun b _ => Function.update b n 0) buf = if 0 < m then Function.update buf n 0 else buf := by
  induction m with
  | zero => rfl
  | succ m ih =>
    rw [List.range_succ, List.foldl_append, ih, if_pos (Nat.succ_pos m), List.foldl_cons, List.foldl_nil]
    split
    · rw [Function.update_idem]
    · rfl

/-- The buffer gets the argument and, unless `nbytes` is 0, a zero behind it. -/
theorem sysGetargs_eq {r : Regs} {s : Kernel} {n : Nat} (length : (s.currPcb r).argLen = n) (short : n < 2 ^ 32)
    (buf : Bytes) {nbytes : Int} (room : n ≤ nbytes) :
    sysGetargs r (some buf) nbytes s =
      (0, some fun k => if k < n then (s.currPcb r).args k else if k = n ∧ 0 < nbytes then 0 else buf k) := by
  have index : ((n : Int) % 2 ^ 32).toNat = n := by omega
  simp only [sysGetargs, length, index]
  rw [if_neg (by simp only [error]; omega), if_neg (by omega), foldl_update_same]
  refine congrArg (fun b => ((0 : Int), some b)) (funext fun k => ?_)
  simp only [memcpy]
  split
  · rfl
  · by_cases runs : 0 < nbytes
    · simp only [if_pos (show 0 < nbytes.toNat by omega), runs, and_true, Function.update_apply]
    · simp only [if_neg (show ¬ 0 < nbytes.toNat by omega), runs, and_false, if_false]

/-- With room for the terminator, the buffer gets the argument and a zero behind it. -/
theorem sysGetargs_ok {r : Regs} {s : Kernel} {n : Nat} (length : (s.currPcb r).argLen = n) (short : n < 2 ^ 32)
    (buf : Bytes) {nbytes : Int} (room : n < nbytes) :
    ∃ buf', sysGetargs r (some buf) nbytes s = (0, some buf') ∧ (∀ k < n, buf' k = (s.currPcb r).args k) ∧ buf' n = 0 := by
  refine ⟨_, sysGetargs_eq length short buf (by omega), fun k below => if_pos below, ?_⟩
  rw [if_neg (Nat.lt_irrefl n), if_pos ⟨rfl, by omega⟩]

/-- Without room for the argument nothing is stored. -/
theorem sysGetargs_refused {r : Regs} {s : Kernel} (buf : Bytes) {nbytes : Int} (refused : nbytes < (s.currPcb r).argLen) :
    sysGetargs r (some buf) nbytes s = (error, some buf) := by
  simp only [sysGetargs, if_pos refused, ite_self]

theorem sysGetargs_none {r : Regs} {s : Kernel} (none : (s.currPcb r).argLen = error) (buf : Bytes) (nbytes : Int) :
    sysGetargs r (some buf) nbytes s = (error, some buf) := by
  simp only [sysGetargs, none, if_true]

/-! ## `sys_vidmap` -/

abbrev mb128 : Int := 0x8000000
abbrev mb132 : Int := 0x8400000

/-- A store of the low `n` bytes of a word to a linear address; `none` is a page fault. -/
def Kernel.storeBytes (s : Kernel) (lin w : Nat) : Nat → Option Kernel
  | 0 => some s
  | n + 1 => (s.storeBytes lin w n).bind fun s' => s'.writeByte (lin + n) (UInt8.ofNat (w / 256 ^ n))

/-- `sys_vidmap`: the value returned and the new state; no value is a page fault
of the store through the pointer. The pointer is compared as an `int`. -/
def sysVidmap (tableAddr : Nat) (screenStart : BitVec 32) (s : Kernel) : Option Int × Kernel :=
  if screenStart = 0 then (some error, s)
  else if screenStart.toInt < mb128 ∨ screenStart.toInt > mb132 then (some error, s)
  else
    let s := getVidmem tableAddr s
    match s.storeBytes screenStart.toNat mb132.toNat 4 with
    | none => (none, s)
    | some s' => (some 0, s')

end BigBrainOS
