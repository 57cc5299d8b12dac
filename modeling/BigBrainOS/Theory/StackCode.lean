import BigBrainOS.Theory.Reach
import Mathlib.Data.BitVec

/-!
# Stack code of a 32-bit processor

Code that saves registers on a stack, calls functions and restores the registers,
between a gate and its `iret`. While the interrupt flag is on, an interrupt can come
in front of every instruction. What functions and interrupts do are parameters. `Leads` is
the rule for such code: it follows the instructions once, for all runs with interrupts.
-/

namespace StackCode
set_option autoImplicit false

abbrev Word := BitVec 32

/-! ## The processor -/

inductive Reg where
  | eax
  | ecx
  | edx
  | ebx
  | ebp
  | esi
  | edi
  deriving DecidableEq, Repr

/-- The general registers apart from `esp`. -/
structure Gprs where
  eax : Word
  ecx : Word
  edx : Word
  ebx : Word
  ebp : Word
  esi : Word
  edi : Word
  deriving DecidableEq, Repr

def Gprs.get (g : Gprs) : Reg → Word
  | .eax => g.eax
  | .ecx => g.ecx
  | .edx => g.edx
  | .ebx => g.ebx
  | .ebp => g.ebp
  | .esi => g.esi
  | .edi => g.edi

def Gprs.set (g : Gprs) (r : Reg) (w : Word) : Gprs :=
  match r with
  | .eax => { g with eax := w }
  | .ecx => { g with ecx := w }
  | .edx => { g with edx := w }
  | .ebx => { g with ebx := w }
  | .ebp => { g with ebp := w }
  | .esi => { g with esi := w }
  | .edi => { g with edi := w }

/-- The processor. The kernel's stack is the list of its words, the one pushed last
in front; `top` is the address behind it. In user mode `user` has the stack segment
and pointer of the program. -/
structure Cpu where
  regs : Gprs
  eflags : Word
  cs : Word
  eip : Word
  user : Option (Word × Word)
  top : Word
  stack : List Word
  deriving DecidableEq, Repr

abbrev carry : Nat := 0
abbrev zero : Nat := 6
/-- The interrupt flag. -/
abbrev interrupts : Nat := 9

def setFlag (i : Nat) (on : Bool) (w : Word) : Word :=
  if on then w ||| BitVec.twoPow 32 i else w &&& ~~~BitVec.twoPow 32 i

@[simp] theorem getLsbD_setFlag {i : Nat} (inside : i < 32) (on : Bool) (w : Word) : (setFlag i on w).getLsbD i = on := by
  unfold setFlag
  cases on <;> simp [inside]

/-- The other flags stay. -/
theorem getLsbD_setFlag_of_ne {i j : Nat} (other : j ≠ i) (on : Bool) (w : Word) :
    (setFlag i on w).getLsbD j = w.getLsbD j := by
  have bit : (BitVec.twoPow 32 i).getLsbD j = false := by
    rw [BitVec.getLsbD_twoPow]
    simp only [decide_eq_false other.symm, Bool.and_false]
  unfold setFlag
  cases on
  · simp only [Bool.false_eq_true, if_false, BitVec.getLsbD_and, BitVec.getLsbD_not, bit, Bool.not_false, Bool.and_true]
    by_cases inside : j < 32
    · rw [decide_eq_true inside, Bool.and_true]
    · rw [BitVec.getLsbD_of_ge _ _ (Nat.not_lt.1 inside), Bool.false_and]
  · simp only [if_true, BitVec.getLsbD_or, bit, Bool.or_false]

/-- The flags of a result; only `CF` and `ZF` are described. -/
def resultFlags (result : Word) (cf : Bool) (w : Word) : Word := setFlag zero (decide (result = 0)) (setFlag carry cf w)

theorem resultFlags_interrupts (result : Word) (cf : Bool) (w : Word) :
    (resultFlags result cf w).getLsbD interrupts = w.getLsbD interrupts :=
  (getLsbD_setFlag_of_ne (by decide) _ _).trans (getLsbD_setFlag_of_ne (by decide) _ _)

namespace Cpu

def esp (c : Cpu) : Word := c.top - BitVec.ofNat 32 (4 * c.stack.length)

/-- An interrupt or `int` through a gate. From a program the processor first turns to the empty
kernel stack. An interrupt gate clears `IF`; `TF`, `NT`, `RF` and `VM` are cleared by both kinds. -/
def gate (selector offset : Word) (clearsIf : Bool) (c : Cpu) : Cpu :=
  let eflags := c.eflags &&& ~~~0x34100#32
  { c with
    stack := match c.user with
      | some (ss, esp) => [c.eip, c.cs, c.eflags, esp, ss]
      | none => c.eip :: c.cs :: c.eflags :: c.stack
    eflags := if clearsIf then setFlag interrupts false eflags else eflags
    cs := selector
    eip := offset
    user := none }

/-- `iret`; the privilege level of the popped code segment says if a user stack is popped as well. -/
def iret (c : Cpu) : Option Cpu :=
  match c.stack with
  | eip :: cs :: eflags :: rest =>
    if cs &&& 3 = 0 then some { c with eip := eip, cs := cs, eflags := eflags, stack := rest }
    else match rest with
      | esp :: ss :: rest => some { c with eip := eip, cs := cs, eflags := eflags, user := some (ss, esp), stack := rest }
      | _ => none
  | _ => none

/-- The privilege level fits the stack in use; a program leaves no words on its kernel stack. -/
structure Coherent (c : Cpu) : Prop where
  kernel : c.user = none → c.cs &&& 3 = 0
  program : c.user.isSome = true → ¬ c.cs &&& 3 = 0 ∧ c.stack = []

/-- `iret` on the words that a gate pushed goes back to the interrupted code; the
general registers are those of the moment. -/
theorem iret_gate {c c' : Cpu} (coherent : c.Coherent) {selector offset : Word} {clearsIf : Bool}
    (stack : c'.stack = (c.gate selector offset clearsIf).stack) (mode : c'.user = none) (top : c'.top = c.top) :
    c'.iret = some { c with regs := c'.regs } := by
  cases program : c.user with
  | none =>
    have pushed : c'.stack = c.eip :: c.cs :: c.eflags :: c.stack := by
      rw [stack]
      simp only [gate, program]
    simp only [iret, pushed, if_pos (coherent.kernel program), mode, top, ← program]
  | some pointer =>
    obtain ⟨ss, esp⟩ := pointer
    obtain ⟨level, empty⟩ := coherent.program (by rw [program]; rfl)
    have pushed : c'.stack = [c.eip, c.cs, c.eflags, esp, ss] := by
      rw [stack]
      simp only [gate, program]
    simp only [iret, pushed, if_neg level, top, ← program, ← empty]

end Cpu

/-! ## Instructions -/

/-- Instructions under their assembler names, sources in front of destinations. -/
inductive Instr (Label Fn : Type) where
  /-- A place in the code; nothing is executed. -/
  | label (l : Label)
  | pushfl
  | popfl
  | pushal
  | popal
  | pushl (r : Reg)
  | popl (r : Reg)
  | cli
  | sti
  | sublImm (imm : Word) (r : Reg)
  | cmplImm (imm : Word) (r : Reg)
  | movlImm (imm : Word) (r : Reg)
  /-- `addl $imm, %esp`. -/
  | addlEsp (imm : Word)
  | jae (l : Label)
  | jne (l : Label)
  | jmp (l : Label)
  | call (f : Fn)
  /-- `call *table(, %r, 4)`. -/
  | callTable (table : List Fn) (r : Reg)
  | iret
  deriving DecidableEq, Repr

section
variable {Label Fn : Type}

/-- Go to the next instruction. The lengths of the instructions do not matter, so each counts as one. -/
def Cpu.next (c : Cpu) : Cpu := { c with eip := c.eip + 1 }

def Cpu.push (w : Word) (c : Cpu) : Cpu := { c with stack := w :: c.stack }

/-- Execute an instruction that is no call and no `iret`; `none` if the stack does not have the words. -/
def Instr.run (target : Label → Word) (i : Instr Label Fn) (c : Cpu) : Option Cpu :=
  match i with
  | .label _ => some c.next
  | .pushfl => some (c.push c.eflags).next
  | .popfl => match c.stack with
    | w :: rest => some ({ c with eflags := w, stack := rest } : Cpu).next
    | [] => none
  | .pushal =>
    let g := c.regs
    some ({ c with stack := g.edi :: g.esi :: g.ebp :: c.esp :: g.ebx :: g.edx :: g.ecx :: g.eax :: c.stack } : Cpu).next
  | .popal => match c.stack with
    -- the word of `esp` is skipped
    | edi :: esi :: ebp :: _ :: ebx :: edx :: ecx :: eax :: rest =>
      some ({ c with regs := ⟨eax, ecx, edx, ebx, ebp, esi, edi⟩, stack := rest } : Cpu).next
    | _ => none
  | .pushl r => some (c.push (c.regs.get r)).next
  | .popl r => match c.stack with
    | w :: rest => some ({ c with regs := c.regs.set r w, stack := rest } : Cpu).next
    | [] => none
  | .cli => some ({ c with eflags := setFlag interrupts false c.eflags } : Cpu).next
  | .sti => some ({ c with eflags := setFlag interrupts true c.eflags } : Cpu).next
  | .sublImm imm r =>
    let v := c.regs.get r
    some ({ c with regs := c.regs.set r (v - imm), eflags := resultFlags (v - imm) (v.ult imm) c.eflags } : Cpu).next
  | .cmplImm imm r =>
    let v := c.regs.get r
    some ({ c with eflags := resultFlags (v - imm) (v.ult imm) c.eflags } : Cpu).next
  | .movlImm imm r => some ({ c with regs := c.regs.set r imm } : Cpu).next
  | .addlEsp imm =>
    if imm.toNat % 4 = 0 ∧ imm.toNat / 4 ≤ c.stack.length then
      some ({ c with
        stack := c.stack.drop (imm.toNat / 4)
        eflags := resultFlags (c.esp + imm) ((c.esp + imm).ult imm) c.eflags } : Cpu).next
    else none
  | .jae l => some (if c.eflags.getLsbD carry then c.next else { c with eip := target l })
  | .jne l => some (if c.eflags.getLsbD zero then c.next else { c with eip := target l })
  | .jmp l => some { c with eip := target l }
  | .call _ => none
  | .callTable _ _ => none
  | .iret => none

/-- The function that a call calls; `none` behind the end of the table. -/
def Instr.callee (i : Instr Label Fn) (c : Cpu) : Option Fn :=
  match i with
  | .call f => some f
  | .callTable table r => table[(c.regs.get r).toNat]?
  | _ => none

theorem Instr.callee_of_run {i : Instr Label Fn} {target : Label → Word} {c c' : Cpu} (run : i.run target c = some c') :
    i.callee c = none := by
  cases i with
  | call f => cases run
  | callTable table r => cases run
  | _ => rfl

def Instr.isLabel [DecidableEq Label] (l : Label) (i : Instr Label Fn) : Bool :=
  match i with
  | .label l' => decide (l' = l)
  | _ => false

/-- A call has pushed the return address; the function is what comes next. -/
def Cpu.enter (c : Cpu) : Cpu := { c with stack := (c.eip + 1) :: c.stack }

end

/-- Code at an address, what the functions do that it calls, from the call to the
return, and what an interrupt does. -/
structure Program (Label Fn : Type) where
  code : List (Instr Label Fn)
  base : Word
  callee : Fn → Cpu → Cpu → Prop
  irq : Cpu → Cpu → Prop
  /-- The code fits into the address space. -/
  short : code.length < 2 ^ 32

/-- A run, with the calls that it has made and how they began and ended. -/
structure Run (Fn : Type) where
  cpu : Cpu
  calls : List (Fn × Cpu × Cpu)

inductive Op where
  | instr
  /-- The function that is called returns. -/
  | ret (exit : Cpu)
  /-- An interrupt, from its gate to its `iret`. -/
  | interrupt (after : Cpu)

namespace Program
variable {Label Fn : Type} [DecidableEq Label] (P : Program Label Fn)

/-- The address of an instruction. -/
def place (k : Nat) : Word := P.base + BitVec.ofNat 32 k

def fetch (c : Cpu) : Option (Instr Label Fn) := P.code[(c.eip - P.base).toNat]?

def target (l : Label) : Word := P.place (P.code.findIdx (Instr.isLabel l))

/-- The code with interrupts, up to its `iret`. -/
def system : TransitionSystem (Run Fn) Op where
  ok r op := match op with
    | .instr => ∃ i c, P.fetch r.cpu = some i ∧ i.run P.target r.cpu = some c
    | .ret exit => ∃ i f, P.fetch r.cpu = some i ∧ i.callee r.cpu = some f ∧ P.callee f r.cpu.enter exit
    | .interrupt after => r.cpu.eflags.getLsbD interrupts = true ∧ P.irq r.cpu after
  next r op := match op with
    | .instr => match (P.fetch r.cpu).bind fun i => i.run P.target r.cpu with
      | some c => { r with cpu := c }
      | none => r
    | .ret exit => match (P.fetch r.cpu).bind fun i => i.callee r.cpu with
      | some f => ⟨exit, r.calls ++ [(f, r.cpu.enter, exit)]⟩
      | none => r
    | .interrupt after => { r with cpu := after }

/-- The code can run from `start` to its `iret`, which leads to `after`. -/
def Returns (start after : Cpu) : Prop :=
  ∃ r, P.system.Reach (· = ⟨start, []⟩) r ∧ P.fetch r.cpu = some .iret ∧ r.cpu.iret = some after

/-! ## All runs of the code -/

/-- Every run leads to an `iret` where `Q` holds, and in front of every instruction `safe` holds. -/
inductive Leads (safe : Cpu → Prop) (Q : Run Fn → Prop) : Run Fn → Prop where
  | done {r : Run Fn} : P.fetch r.cpu = some .iret → safe r.cpu → Q r → Leads safe Q r
  | instr {r : Run Fn} {i : Instr Label Fn} {c : Cpu} : P.fetch r.cpu = some i → i.run P.target r.cpu = some c →
      safe r.cpu → Leads safe Q { r with cpu := c } → Leads safe Q r
  | call {r : Run Fn} {i : Instr Label Fn} {f : Fn} : P.fetch r.cpu = some i → i.callee r.cpu = some f → safe r.cpu →
      (∀ exit, P.callee f r.cpu.enter exit → Leads safe Q ⟨exit, r.calls ++ [(f, r.cpu.enter, exit)]⟩) → Leads safe Q r

variable {P} {safe : Cpu → Prop} {Q : Run Fn → Prop} {r : Run Fn}

theorem Leads.here (leads : P.Leads safe Q r) : safe r.cpu := by
  cases leads with
  | done _ ok _ => exact ok
  | instr _ _ ok _ => exact ok
  | call _ _ ok _ => exact ok

/-- One step, whichever comes. -/
theorem Leads.step (leads : P.Leads safe Q r) (quiet : ∀ c after, safe c → c.eflags.getLsbD interrupts = true → P.irq c after → after = c)
    {op : Op} (ok : P.system.ok r op) : P.Leads safe Q (P.system.next r op) := by
  cases op with
  | interrupt after =>
    obtain ⟨on, irq⟩ := ok
    obtain rfl := quiet _ _ leads.here on irq
    exact leads
  | instr =>
    obtain ⟨i, c, fetch, run⟩ := ok
    have next : P.system.next r .instr = { r with cpu := c } := by simp only [system, fetch, Option.bind_some, run]
    rw [next]
    cases leads with
    | done fetch' _ _ =>
      rw [fetch'] at fetch
      cases fetch
      cases run
    | instr fetch' run' _ rest =>
      rw [fetch'] at fetch
      cases fetch
      rw [run'] at run
      cases run
      exact rest
    | call fetch' callee _ _ =>
      rw [fetch'] at fetch
      cases fetch
      rw [Instr.callee_of_run run] at callee
      cases callee
  | ret exit =>
    obtain ⟨i, f, fetch, callee, returns⟩ := ok
    have next : P.system.next r (.ret exit) = ⟨exit, r.calls ++ [(f, r.cpu.enter, exit)]⟩ := by
      simp only [system, fetch, Option.bind_some, callee]
    rw [next]
    cases leads with
    | done fetch' _ _ =>
      rw [fetch'] at fetch
      cases fetch
      cases callee
    | instr fetch' run _ _ =>
      rw [fetch'] at fetch
      cases fetch
      rw [Instr.callee_of_run run] at callee
      cases callee
    | call fetch' callee' _ rest =>
      rw [fetch'] at fetch
      cases fetch
      rw [callee'] at callee
      cases callee
      exact rest exit returns

/-- **The rule.** If an interrupt does not change anything where it is safe, what the
instructions lead to is what every run with interrupts leads to. -/
theorem Leads.reach {start : Run Fn} (leads : P.Leads safe Q start)
    (quiet : ∀ c after, safe c → c.eflags.getLsbD interrupts = true → P.irq c after → after = c)
    (reach : P.system.Reach (· = start) r) : P.Leads safe Q r := by
  apply reach.invariant
  · rintro _ rfl
    exact leads
  · exact fun _ _ leads ok => leads.step quiet ok

theorem Leads.at_iret (leads : P.Leads safe Q r) (iret : P.fetch r.cpu = some .iret) : Q r := by
  cases leads with
  | done _ _ reached => exact reached
  | instr fetch run _ _ =>
    rw [iret] at fetch
    cases fetch
    cases run
  | call fetch callee _ _ =>
    rw [iret] at fetch
    cases fetch
    cases callee

/-- If the functions return, there is a run to the `iret`. -/
theorem Leads.returns (leads : P.Leads safe Q r) (total : ∀ f c, safe c → ∃ exit, P.callee f c.enter exit) {start : Run Fn → Prop} :
    P.system.Reach start r → ∃ r', P.system.Reach start r' ∧ P.fetch r'.cpu = some .iret ∧ Q r' := by
  induction leads with
  | done fetch _ reached => exact fun reach => ⟨_, reach, fetch, reached⟩
  | instr fetch run _ _ ih =>
    exact fun reach => ih (reach.step_to .instr ⟨_, _, fetch, run⟩ (by simp only [system, fetch, Option.bind_some, run]))
  | call fetch callee ok _ ih =>
    intro reach
    obtain ⟨exit, returned⟩ := total _ _ ok
    apply ih exit returned
    exact reach.step_to (.ret exit) ⟨_, _, fetch, callee, returned⟩
      (by simp only [system, fetch, Option.bind_some, callee])

/-! ## The instructions one by one -/

variable (P) in
/-- The kernel in front of instruction `k`. -/
def front (cs top : Word) (k : Nat) (g : Gprs) (eflags : Word) (stack : List Word) : Cpu :=
  ⟨g, eflags, cs, P.place k, none, top, stack⟩

omit [DecidableEq Label] in
theorem place_succ (k : Nat) : P.place k + 1 = P.place (k + 1) := by
  rw [place, place, BitVec.add_assoc]
  congr 1
  exact (BitVec.ofNat_add k 1).symm

section Rules
variable {cs top eflags : Word} {k : Nat} {g : Gprs} {stack : List Word} {calls : List (Fn × Cpu × Cpu)}

omit [DecidableEq Label] in
theorem fetch_front {i : Instr Label Fn} (inside : P.code[k]? = some i) :
    P.fetch (P.front cs top k g eflags stack) = some i := by
  have small : k < 2 ^ 32 := (List.getElem?_eq_some_iff.1 inside).1.trans P.short
  have offset : (P.place k - P.base).toNat = k := by
    rw [place, BitVec.add_comm, BitVec.add_sub_cancel, BitVec.toNat_ofNat, Nat.mod_eq_of_lt small]
  show P.code[(P.place k - P.base).toNat]? = _
  rw [offset, inside]

omit [DecidableEq Label] in
/-- The next instruction comes next. -/
theorem next_front : (P.front cs top k g eflags stack).next = P.front cs top (k + 1) g eflags stack := by
  simp only [Cpu.next, front, place_succ]

variable (ok : safe (P.front cs top k g eflags stack))
include ok

theorem Leads.label {l : Label} (inside : P.code[k]? = some (.label l))
    (rest : P.Leads safe Q ⟨P.front cs top (k + 1) g eflags stack, calls⟩) :
    P.Leads safe Q ⟨P.front cs top k g eflags stack, calls⟩ :=
  .instr (fetch_front inside) (congrArg some next_front) ok rest

theorem Leads.pushfl (inside : P.code[k]? = some .pushfl)
    (rest : P.Leads safe Q ⟨P.front cs top (k + 1) g eflags (eflags :: stack), calls⟩) :
    P.Leads safe Q ⟨P.front cs top k g eflags stack, calls⟩ :=
  .instr (fetch_front inside) (congrArg some next_front) ok rest

theorem Leads.pushl {r : Reg} (inside : P.code[k]? = some (.pushl r))
    (rest : P.Leads safe Q ⟨P.front cs top (k + 1) g eflags (g.get r :: stack), calls⟩) :
    P.Leads safe Q ⟨P.front cs top k g eflags stack, calls⟩ :=
  .instr (fetch_front inside) (congrArg some next_front) ok rest

theorem Leads.pushal (inside : P.code[k]? = some .pushal)
    (rest : P.Leads safe Q ⟨P.front cs top (k + 1) g eflags
      (g.edi :: g.esi :: g.ebp :: (P.front cs top k g eflags stack).esp :: g.ebx :: g.edx :: g.ecx :: g.eax :: stack), calls⟩) :
    P.Leads safe Q ⟨P.front cs top k g eflags stack, calls⟩ :=
  .instr (fetch_front inside) (congrArg some next_front) ok rest

theorem Leads.cli (inside : P.code[k]? = some .cli)
    (rest : P.Leads safe Q ⟨P.front cs top (k + 1) g (setFlag interrupts false eflags) stack, calls⟩) :
    P.Leads safe Q ⟨P.front cs top k g eflags stack, calls⟩ :=
  .instr (fetch_front inside) (congrArg some next_front) ok rest

theorem Leads.sti (inside : P.code[k]? = some .sti)
    (rest : P.Leads safe Q ⟨P.front cs top (k + 1) g (setFlag interrupts true eflags) stack, calls⟩) :
    P.Leads safe Q ⟨P.front cs top k g eflags stack, calls⟩ :=
  .instr (fetch_front inside) (congrArg some next_front) ok rest

theorem Leads.sublImm {imm : Word} {r : Reg} (inside : P.code[k]? = some (.sublImm imm r))
    (rest : P.Leads safe Q ⟨P.front cs top (k + 1) (g.set r (g.get r - imm))
      (resultFlags (g.get r - imm) ((g.get r).ult imm) eflags) stack, calls⟩) :
    P.Leads safe Q ⟨P.front cs top k g eflags stack, calls⟩ :=
  .instr (fetch_front inside) (congrArg some next_front) ok rest

theorem Leads.cmplImm {imm : Word} {r : Reg} (inside : P.code[k]? = some (.cmplImm imm r))
    (rest : P.Leads safe Q ⟨P.front cs top (k + 1) g (resultFlags (g.get r - imm) ((g.get r).ult imm) eflags) stack, calls⟩) :
    P.Leads safe Q ⟨P.front cs top k g eflags stack, calls⟩ :=
  .instr (fetch_front inside) (congrArg some next_front) ok rest

theorem Leads.movlImm {imm : Word} {r : Reg} (inside : P.code[k]? = some (.movlImm imm r))
    (rest : P.Leads safe Q ⟨P.front cs top (k + 1) (g.set r imm) eflags stack, calls⟩) :
    P.Leads safe Q ⟨P.front cs top k g eflags stack, calls⟩ :=
  .instr (fetch_front inside) (congrArg some next_front) ok rest

theorem Leads.jmp {l : Label} {k' : Nat} (inside : P.code[k]? = some (.jmp l)) (there : P.code.findIdx (Instr.isLabel l) = k')
    (rest : P.Leads safe Q ⟨P.front cs top k' g eflags stack, calls⟩) :
    P.Leads safe Q ⟨P.front cs top k g eflags stack, calls⟩ := by
  subst there
  exact .instr (fetch_front inside) rfl ok rest

omit ok

theorem Leads.popfl {w : Word} (ok : safe (P.front cs top k g eflags (w :: stack))) (inside : P.code[k]? = some .popfl)
    (rest : P.Leads safe Q ⟨P.front cs top (k + 1) g w stack, calls⟩) :
    P.Leads safe Q ⟨P.front cs top k g eflags (w :: stack), calls⟩ :=
  .instr (fetch_front inside) (congrArg some next_front) ok rest

theorem Leads.popl {r : Reg} {w : Word} (ok : safe (P.front cs top k g eflags (w :: stack)))
    (inside : P.code[k]? = some (.popl r))
    (rest : P.Leads safe Q ⟨P.front cs top (k + 1) (g.set r w) eflags stack, calls⟩) :
    P.Leads safe Q ⟨P.front cs top k g eflags (w :: stack), calls⟩ :=
  .instr (fetch_front inside) (congrArg some next_front) ok rest

theorem Leads.popal {g' : Gprs} {esp : Word}
    (ok : safe (P.front cs top k g eflags
      (g'.edi :: g'.esi :: g'.ebp :: esp :: g'.ebx :: g'.edx :: g'.ecx :: g'.eax :: stack)))
    (inside : P.code[k]? = some .popal) (rest : P.Leads safe Q ⟨P.front cs top (k + 1) g' eflags stack, calls⟩) :
    P.Leads safe Q ⟨P.front cs top k g eflags
      (g'.edi :: g'.esi :: g'.ebp :: esp :: g'.ebx :: g'.edx :: g'.ecx :: g'.eax :: stack), calls⟩ :=
  .instr (fetch_front inside) (congrArg some next_front) ok rest

/-- `addl` to `esp` takes whole words off the stack. -/
theorem Leads.addlEsp {imm : Word} {words : List Word} (ok : safe (P.front cs top k g eflags (words ++ stack)))
    (inside : P.code[k]? = some (.addlEsp imm)) (size : imm.toNat = 4 * words.length)
    (rest : ∀ flags : Word, flags.getLsbD interrupts = eflags.getLsbD interrupts →
      P.Leads safe Q ⟨P.front cs top (k + 1) g flags stack, calls⟩) :
    P.Leads safe Q ⟨P.front cs top k g eflags (words ++ stack), calls⟩ := by
  have whole : imm.toNat % 4 = 0 ∧ imm.toNat / 4 ≤ (words ++ stack).length := by
    rw [List.length_append]
    omega
  have count : imm.toNat / 4 = words.length := by omega
  let esp := (P.front cs top k g eflags (words ++ stack)).esp + imm
  have run : (Instr.addlEsp imm : Instr Label Fn).run P.target (P.front cs top k g eflags (words ++ stack)) =
      some (P.front cs top (k + 1) g (resultFlags esp (esp.ult imm) eflags) stack) := by
    show (if imm.toNat % 4 = 0 ∧ imm.toNat / 4 ≤ (words ++ stack).length then
      some (Cpu.next (P.front cs top k g (resultFlags esp (esp.ult imm) eflags) ((words ++ stack).drop (imm.toNat / 4))))
        else none) = _
    rw [if_pos whole, count, List.drop_left, next_front]
  exact .instr (fetch_front inside) run ok (rest _ (resultFlags_interrupts _ _ _))

end Rules

/-! ## Functions -/

/-- A function has returned by the C convention: behind its call, with its `args` argument
words, which are its own, and all that lies behind them on the stack. -/
structure Returned (args : Nat) (entry exit : Cpu) : Prop where
  stack : ∃ ret old new rest, entry.stack = ret :: (old ++ rest) ∧ old.length = args ∧ new.length = args ∧
    exit.stack = new ++ rest ∧ exit.eip = ret
  cs : exit.cs = entry.cs
  user : exit.user = entry.user
  top : exit.top = entry.top

omit [DecidableEq Label] in
theorem Returned.front {cs top eflags : Word} {k : Nat} {g : Gprs} {args rest : List Word} {exit : Cpu}
    (returned : Returned args.length (P.front cs top k g eflags (args ++ rest)).enter exit) :
    ∃ new : List Word, new.length = args.length ∧ exit = P.front cs top (k + 1) exit.regs exit.eflags (new ++ rest) := by
  obtain ⟨ret, old, new, rest', entered, size, size', stack, eip⟩ := returned.stack
  obtain ⟨rfl, words⟩ := List.cons.inj entered
  obtain ⟨rfl, rfl⟩ := List.append_inj words.symm size
  obtain ⟨cs', user, top'⟩ := And.intro returned.cs (And.intro returned.user returned.top)
  refine ⟨new, size', ?_⟩
  obtain ⟨g', eflags', _, _, _, _, _⟩ := exit
  dsimp only at stack eip cs' user top' ⊢
  subst stack eip cs' user top'
  exact congrArg (fun eip => (⟨g', eflags', _, eip, none, _, new ++ rest'⟩ : Cpu)) (place_succ k)

end Program

end StackCode
