import Mathlib.Logic.Function.Iterate
import StackMachine.Proofs.Machine.Safety

/-!
# What instructions do to the values and the frames

An instruction of a verified program either completes or fails.  `Completed` has one rule
for each way to complete and `Failed` one for each way to fail; both give the values, the
frames and the instruction pointer after the instruction in terms of those before it.  What
holds of every step of a machine follows by cases on these rules, without a look at how an
instruction is carried out.

Main definitions:

- `Completed`, what an instruction does that completes;
- `Failed` and `Untouched`, what an instruction does that fails, and what it leaves alone;
- `advance`, the machine after one more instruction.

Main results:

- Theorem `exec_effect`: an instruction of a verified program acts by one of the rules.
- Theorem `runSteps_eq_iterate`: a run carries out instructions one after the other.
- Theorem `advance_effect`: a machine that runs a verified program completes the next
  instruction or fails by one of the rules.
- Theorem `safe_advance`: the machine after it is safe.
-/

namespace StackMachine

/-- Whether the first thing an instruction does is to take the top value. -/
def Opcode.popsFirst : Opcode → Bool
  | pop | output | unary _ | binary _ | branch _ => true
  | _ => false

/-- The number of slots of a frame that an instruction may refer to. -/
def Frame.slotCount (f : Frame) : Opcode → Nat
  | .getArg => f.argCount
  | _ => f.localCount

/-- The place on the value stack of a slot of a frame: arguments lie below the base, the one
pushed last on top, and locals start at it. -/
def Frame.cell (f : Frame) (op : Opcode) (slot : Nat) : Nat :=
  match op with
  | .getArg => f.base - 1 - slot
  | _ => f.base + slot

namespace Machine

/-! ## Rules -/

/-- The frames stay, and the next instruction is the one that follows. -/
structure InLine (m m' : Machine) : Prop where
  frames : m'.frames.toList = m.frames.toList
  ip : m'.ip = m.ip

/-- What an instruction does that completes, from the machine that has read it. -/
inductive Completed (i : Instruction) (m m' : Machine) : Prop where
  | still (hop : i.opcode = .stop ∨ i.opcode = .draw)
      (hvalues : m'.stack.toList = m.stack.toList) (hline : InLine m m')
  | jumped (hop : i.opcode = .jump ∨ i.opcode.isHeader = true)
      (htarget : (i.operand 0).index? = some m'.ip)
      (hvalues : m'.stack.toList = m.stack.toList) (hframes : m'.frames.toList = m.frames.toList)
  | branched (condition : Condition) (hop : i.opcode = .branch condition)
      (hheight : 2 ≤ m.stack.toList.length)
      (htarget : m'.ip = m.ip ∨ (i.operand 0).index? = some m'.ip)
      (hvalues : m'.stack.toList = m.stack.toList) (hframes : m'.frames.toList = m.frames.toList)
  | pushed (v : Double) (hop : i.opcode = .push ∨ i.opcode = .input)
      (hvalues : m'.stack.toList = m.stack.toList ++ [v]) (hline : InLine m m')
  | popped (v : Double) (hop : i.opcode = .pop ∨ i.opcode = .output)
      (hvalues : m.stack.toList = m'.stack.toList ++ [v]) (hline : InLine m m')
  | unary (op : UnaryOp) (vs : List Double) (v : Double) (hop : i.opcode = .unary op)
      (hbefore : m.stack.toList = vs ++ [v]) (hvalues : m'.stack.toList = vs ++ [op.apply v])
      (hline : InLine m m')
  | binary (op : BinaryOp) (vs : List Double) (v w : Double) (hop : i.opcode = .binary op)
      (hbefore : m.stack.toList = vs ++ [v, w]) (hvalues : m'.stack.toList = vs ++ [op.apply v w])
      (hline : InLine m m')
  | got (fs : List Frame) (f : Frame) (s : Nat) (v : Double)
      (hop : i.opcode = .getLocal ∨ i.opcode = .getArg) (htop : m.frames.toList = fs ++ [f])
      (hslot : (i.operand 0).index? = some s) (hlt : s < f.slotCount i.opcode)
      (hcell : m.stack.toList[f.cell i.opcode s]? = some v)
      (hvalues : m'.stack.toList = m.stack.toList ++ [v]) (hline : InLine m m')
  | setLocal (fs : List Frame) (f : Frame) (s : Nat) (vs : List Double) (v : Double)
      (hop : i.opcode = .setLocal) (htop : m.frames.toList = fs ++ [f])
      (hslot : (i.operand 0).index? = some s) (hlt : s < f.localCount)
      (hbefore : m.stack.toList = vs ++ [v]) (hcell : f.base + s < vs.length)
      (hvalues : m'.stack.toList = vs.set (f.base + s) v) (hline : InLine m m')
  | called (header : Placed) (args locals : Nat) (hop : i.opcode = .call)
      (hindex : (i.operand 0).index? = some header.offset)
      (hheader : m.program.decodeAt header.offset = .ok header)
      (hslots : declaredSlots m.current header = .ok (args, locals))
      (hargs : args ≤ m.stack.toList.length)
      (hvalues : m'.stack.toList = m.stack.toList ++ List.replicate locals Double.zero)
      (hframes : m'.frames.toList =
        m.frames.toList ++ [⟨m.ip, m.stack.toList.length, args, locals⟩])
      (hip : m'.ip = header.next)
  | ended (f : Frame) (hop : i.opcode = .endFunc)
      (hframes : m.frames.toList = m'.frames.toList ++ [f])
      (hvalues : m'.stack.toList = m.stack.toList) (hip : m'.ip = f.returnAddress)
  | returned (f : Frame) (vs : List Double) (result : Double) (hop : i.opcode = .ret)
      (hframes : m.frames.toList = m'.frames.toList ++ [f])
      (hbefore : m.stack.toList = vs ++ [result]) (hdepth : f.callerDepth ≤ vs.length)
      (hvalues : m'.stack.toList = vs.take f.callerDepth ++ [result])
      (hip : m'.ip = f.returnAddress)
  | left (f : Frame) (hop : i.opcode = .leave) (hframes : m.frames.toList = m'.frames.toList ++ [f])
      (hdepth : f.callerDepth ≤ m.stack.toList.length)
      (hvalues : m'.stack.toList = m.stack.toList.take f.callerDepth)
      (hip : m'.ip = f.returnAddress)

/-- What every failed instruction leaves alone. -/
structure Untouched (m m' : Machine) : Prop where
  ip : m'.ip = m.ip
  registers : m'.registers = m.registers
  ram : m'.ram = m.ram
  halted : m'.halted = m.halted

/-- The values and the frames stay. -/
structure Same (m m' : Machine) : Prop where
  values : m'.stack.toList = m.stack.toList
  frames : m'.frames.toList = m.frames.toList

/-- Failing for want of a value. -/
def underflow (i : Instruction) (m : Machine) : Error :=
  .run (.stackUnderflow i.opcode.mnemonic m.current)

/-- What an instruction does that fails, and with what error. -/
inductive Failed (i : Instruction) (m : Machine) (e : Error) (m' : Machine) : Prop where
  | noFrame (hop : i.opcode.usesFrame = true) (hframes : m.frames.toList = [])
      (he : e = .run (.noActiveFrame i.opcode.mnemonic m.current)) (hsame : Same m m')
  | noValue (hop : i.opcode.popsFirst = true) (hempty : m.stack.toList = [])
      (he : e = underflow i m) (hsame : Same m m')
  | noSecondValue (v : Double)
      (hop : (∃ op, i.opcode = .binary op) ∨ ∃ condition, i.opcode = .branch condition)
      (hbefore : m.stack.toList = [v]) (he : e = underflow i m) (hvalues : m'.stack.toList = [])
      (hframes : m'.frames.toList = m.frames.toList)
  | fewArguments (header : Placed) (args locals : Nat) (hop : i.opcode = .call)
      (hindex : (i.operand 0).index? = some header.offset)
      (hheader : m.program.decodeAt header.offset = .ok header)
      (hslots : declaredSlots m.current header = .ok (args, locals))
      (hargs : m.stack.toList.length < args) (he : e = underflow i m) (hsame : Same m m')
  | noResult (hop : i.opcode = .ret) (hframes : m.frames.toList ≠ [])
      (hempty : m.stack.toList = []) (he : e = underflow i m) (hsame : Same m m')
  | shortReturn (f : Frame) (result : Double) (hop : i.opcode = .ret)
      (hframes : m.frames.toList = m'.frames.toList ++ [f])
      (hvalues : m.stack.toList = m'.stack.toList ++ [result])
      (hdepth : m'.stack.toList.length < f.callerDepth) (he : e = underflow i m)
  | shortLeave (f : Frame) (hop : i.opcode = .leave)
      (hframes : m.frames.toList = m'.frames.toList ++ [f])
      (hvalues : m'.stack.toList = m.stack.toList)
      (hdepth : m.stack.toList.length < f.callerDepth) (he : e = underflow i m)
  | noSlot (fs : List Frame) (f : Frame)
      (hop : i.opcode = .getLocal ∨ i.opcode = .getArg ∨ i.opcode = .setLocal)
      (htop : m.frames.toList = fs ++ [f])
      (hslot : ∀ s, (i.operand 0).index? = some s → f.slotCount i.opcode ≤ s)
      (he : e = .run (.slotOutOfRange i.opcode.mnemonic m.current (i.operand 0)
        (f.slotCount i.opcode)))
      (hsame : Same m m')
  | noCell (fs : List Frame) (f : Frame) (s available : Nat)
      (hop : i.opcode = .getLocal ∨ i.opcode = .getArg) (htop : m.frames.toList = fs ++ [f])
      (hslot : (i.operand 0).index? = some s) (hlt : s < f.slotCount i.opcode)
      (hcell : m.stack.toList.length ≤ f.cell i.opcode s)
      (he : e = .run (.slotOutOfRange i.opcode.mnemonic m.current (i.operand 0) available))
      (hsame : Same m m')
  | noStoredValue (fs : List Frame) (f : Frame) (s : Nat) (hop : i.opcode = .setLocal)
      (htop : m.frames.toList = fs ++ [f]) (hslot : (i.operand 0).index? = some s)
      (hlt : s < f.localCount) (hempty : m.stack.toList = []) (he : e = underflow i m)
      (hsame : Same m m')
  | noStoringCell (fs : List Frame) (f : Frame) (s available : Nat) (v : Double)
      (hop : i.opcode = .setLocal) (htop : m.frames.toList = fs ++ [f])
      (hslot : (i.operand 0).index? = some s) (hlt : s < f.localCount)
      (hvalues : m.stack.toList = m'.stack.toList ++ [v])
      (hcell : m'.stack.toList.length ≤ f.base + s)
      (he : e = .run (.slotOutOfRange i.opcode.mnemonic m.current (i.operand 0) available))
      (hframes : m'.frames.toList = m.frames.toList)
  | badAddress (address : Double) (hop : i.opcode = .push)
      (he : e = .run (.addressOutOfRange i.opcode.mnemonic m.current address ramSize))
      (hsame : Same m m')
  | badStoreAddress (address v : Double) (hop : i.opcode = .pop)
      (hvalues : m.stack.toList = m'.stack.toList ++ [v])
      (he : e = .run (.addressOutOfRange i.opcode.mnemonic m.current address ramSize))
      (hframes : m'.frames.toList = m.frames.toList)
  | unprinted (cause : HostError) (v : Double) (hop : i.opcode = .output)
      (hvalues : m.stack.toList = m'.stack.toList ++ [v]) (he : e = .host cause)
      (hframes : m'.frames.toList = m.frames.toList)
  | refused (cause : HostError) (hop : i.opcode = .input ∨ i.opcode = .draw)
      (he : e = .host cause) (hsame : Same m m')

/-- What an interrupted instruction leaves: it has failed, and not aborted. -/
def Broken (i : Instruction) (m : Machine) (r : Interrupt) (m' : Machine) : Prop :=
  ∃ e, r = .failure e ∧ Untouched m m' ∧ Failed i m e m'

/-! ## Instructions -/

section Effects

variable {m : Machine} {i : Instruction}

/-- An action that fails in one of the listed ways, and leaves the rest alone, is broken off as it
should. -/
theorem broken {e : Error} {m' : Machine} (hrest : Untouched m m') (hfailed : Failed i m e m') :
    Broken i m (.failure e) m' :=
  ⟨e, rfl, hrest, hfailed⟩

theorem Untouched.refl (m : Machine) : Untouched m m := ⟨rfl, rfl, rfl, rfl⟩

/-- The frame on top is the last one of the list. -/
theorem top?_of_append {fs : List Frame} {f : Frame} (htop : m.frames.toList = fs ++ [f]) :
    m.frames.top? = some f := by
  rw [GuardedStack.top?_eq, htop, List.getLast?_concat]

/-- An instruction that starts with a pop finds no value, or goes on without the top one. -/
theorem popFirst_effect {β : Type} {f : Double → Exec β} {done : β → Machine → Prop}
    (hop : i.opcode.popsFirst = true) (hs : m.stack.Intact)
    (hdone : ∀ (s : GuardedStack Double) (v : Double), s.Intact →
      m.stack.toList = s.toList ++ [v] → Leads (f v) { m with stack := s } done (Broken i m)) :
    Leads (popValue i.opcode >>= f) m done (Broken i m) := by
  rw [leads_bind]
  refine leads_popValue hs (fun hempty => ?_) hdone
  exact broken (.refl m) (.noValue hop hempty rfl ⟨rfl, rfl⟩)

/-- An instruction that takes two values finds them on top, in the order they were pushed. -/
theorem popSecond_effect {β : Type} {f : Double → Exec β} {done : β → Machine → Prop}
    (hop : (∃ op, i.opcode = .binary op) ∨ ∃ condition, i.opcode = .branch condition)
    {s : GuardedStack Double} {w : Double} (hs : s.Intact) (hw : m.stack.toList = s.toList ++ [w])
    (hdone : ∀ (s' : GuardedStack Double) (v : Double), s'.Intact →
      m.stack.toList = s'.toList ++ [v, w] →
        Leads (f v) { m with stack := s' } done (Broken i m)) :
    Leads (popValue i.opcode >>= f) { m with stack := s } done (Broken i m) := by
  rw [leads_bind]
  refine leads_popValue hs (fun hempty => ?_) fun s' v hs' hv => hdone s' v hs' ?_
  · have hbefore : m.stack.toList = [w] := by simpa [show s.toList = [] from hempty] using hw
    exact broken ⟨rfl, rfl, rfl, rfl⟩ (.noSecondValue w hop hbefore rfl hempty rfl)
  · rw [hw, show s.toList = s'.toList ++ [v] from hv, List.append_assoc]
    rfl

/-- An operation on two values replaces them by its result, or there are too few. -/
theorem execBinary_effect {op : BinaryOp} (hop : i.opcode = .binary op) (hs : m.stack.Intact) :
    Leads (execBinary op) m (fun _ => Completed i m) (Broken i m) := by
  rw [execBinary, ← hop]
  refine popFirst_effect (by rw [hop]; rfl) hs
    fun s w hs₁ hw => ?_
  refine popSecond_effect (.inl ⟨op, hop⟩) hs₁ hw fun s₂ v hs₂ hbefore => ?_
  exact leads_pushValue hs₂ fun s₃ _ hvalues =>
    .binary op s₂.toList v w hop hbefore hvalues ⟨rfl, rfl⟩

/-- An operation on one value replaces it by its result, or there is none. -/
theorem execUnary_effect {op : UnaryOp} (hop : i.opcode = .unary op) (hs : m.stack.Intact) :
    Leads (execUnary op) m (fun _ => Completed i m) (Broken i m) := by
  rw [execUnary, ← hop]
  refine popFirst_effect (by rw [hop]; rfl) hs
    fun s v hs₁ hbefore => ?_
  exact leads_pushValue hs₁ fun s₂ _ hvalues =>
    .unary op s.toList v hop hbefore hvalues ⟨rfl, rfl⟩

/-- A number is taken and printed, or there is none, or the host refuses it. -/
theorem execOutput_effect (hop : i.opcode = .output) (hs : m.stack.Intact) :
    Leads execOutput m (fun _ => Completed i m) (Broken i m) := by
  rw [execOutput, ← hop]
  refine popFirst_effect (by rw [hop]; rfl) hs fun s v _ hvalues => ?_
  rw [leads_get_bind]
  simp only [leads_bind, leads_set]
  cases (m.console.printNumber v).1 with
  | ok _ => exact .popped v (.inr hop) hvalues ⟨rfl, rfl⟩
  | error e =>
    exact leads_fail.mpr (broken ⟨rfl, rfl, rfl, rfl⟩ (.unprinted e v hop hvalues rfl rfl))

/-- A value is taken and stored, or there is none, or no cell for it. -/
theorem execPop_effect (hop : i.opcode = .pop) (hs : m.stack.Intact) {mode value : Double}
    {x : Operand} (hdecode : Operand.decode Opcode.pop.mnemonic m.current mode value = .ok x) :
    Leads (execPop mode value) m (fun _ => Completed i m) (Broken i m) := by
  rw [execPop, leads_bind]
  refine leads_operandOf hdecode ?_
  rw [← hop]
  refine popFirst_effect (by rw [hop]; rfl) hs
    fun s v _ hvalues => ?_
  cases x with
  | imm _ => exact .popped v (.inl hop) hvalues ⟨rfl, rfl⟩
  | reg r => exact leads_modify.mpr (.popped v (.inl hop) hvalues ⟨rfl, rfl⟩)
  | mem base displacement =>
    simp only [leads_bind]
    refine leads_addressOf (fun address => ?_) fun a =>
      leads_modify.mpr (.popped v (.inl hop) hvalues ⟨rfl, rfl⟩)
    exact broken ⟨rfl, rfl, rfl, rfl⟩ (.badStoreAddress address v hop hvalues rfl rfl)

/-- A value is pushed, unless it is to come from a memory cell that does not exist. -/
theorem execPush_effect (hop : i.opcode = .push) (hs : m.stack.Intact) {mode value : Double}
    {x : Operand} (hdecode : Operand.decode Opcode.push.mnemonic m.current mode value = .ok x) :
    Leads (execPush mode value) m (fun _ => Completed i m) (Broken i m) := by
  have hpush (v : Double) : Leads (pushValue v) m (fun _ => Completed i m) (Broken i m) :=
    leads_pushValue hs fun s _ hvalues => .pushed v (.inl hop) hvalues ⟨rfl, rfl⟩
  rw [execPush, leads_bind]
  refine leads_operandOf hdecode ?_
  cases x with
  | imm v => exact hpush v
  | reg r => exact leads_get_bind.mpr (hpush _)
  | mem base displacement =>
    simp only [leads_bind, ← hop]
    refine leads_addressOf (fun address => ?_) fun a => leads_get_bind.mpr (hpush _)
    exact broken (.refl m) (.badAddress address hop rfl ⟨rfl, rfl⟩)

/-- A number is read and pushed, or the console reports an error. -/
theorem execInput_effect (hop : i.opcode = .input) (hs : m.stack.Intact) :
    Leads execInput m (fun _ => Completed i m) (Broken i m) := by
  rw [execInput, leads_get_bind]
  simp only [leads_bind, leads_set]
  cases m.console.readNumber.1 with
  | ok v => exact leads_pushValue hs fun s _ hvalues => .pushed v (.inr hop) hvalues ⟨rfl, rfl⟩
  | error e =>
    exact leads_fail.mpr (broken ⟨rfl, rfl, rfl, rfl⟩ (.refused e (.inl hop) rfl ⟨rfl, rfl⟩))

/-- A jump goes on at its target. -/
theorem jump_effect (hop : i.opcode = .jump) {t : Nat} (hindex : (i.operand 0).index? = some t)
    (hlt : t < m.program.size) :
    Leads (do continueAt (← targetOf (i.operand 0))) m (fun _ => Completed i m) (Broken i m) := by
  rw [leads_bind]
  exact leads_targetOf hindex hlt (leads_modify.mpr (.jumped (.inl hop) hindex rfl rfl))

/-- A header that execution runs into goes on at the end of its function. -/
theorem execHeader_effect (hop : i.opcode.isHeader = true) {t : Nat}
    (hindex : (i.operand 0).index? = some t) :
    Leads (execHeader (i.operand 0)) m (fun _ => Completed i m) (Broken i m) := by
  rw [execHeader, hindex]
  exact leads_modify.mpr (.jumped (.inr hop) hindex rfl rfl)

/-- A conditional jump leaves the values as they are, if there are two to compare. -/
theorem execBranch_effect {condition : Condition} (hop : i.opcode = .branch condition)
    (hs : m.stack.Intact) {t : Nat} (hindex : (i.operand 0).index? = some t)
    (hlt : t < m.program.size) :
    Leads (execBranch condition (i.operand 0)) m (fun _ => Completed i m) (Broken i m) := by
  rw [execBranch, ← hop]
  refine popFirst_effect (by rw [hop]; rfl) hs
    fun s w hs₁ hw => ?_
  refine popSecond_effect (.inr ⟨condition, hop⟩) hs₁ hw fun s₂ v hs₂ hbefore => ?_
  rw [leads_bind]
  refine leads_pushValue hs₂ fun s₃ hs₃ hv => ?_
  rw [leads_bind]
  refine leads_pushValue hs₃ fun s₄ _ hw' => ?_
  have hheight : 2 ≤ m.stack.toList.length := by simp [hbefore]
  have hvalues : s₄.toList = m.stack.toList := by
    rw [hw', hv, hbefore, List.append_assoc]
    rfl
  split
  · rw [leads_bind]
    exact leads_targetOf hindex hlt
      (leads_modify.mpr (.branched condition hop hheight (.inr hindex) hvalues rfl))
  · exact .branched condition hop hheight (.inl rfl) hvalues rfl

/-- A picture is drawn, or the canvas reports an error. -/
theorem execDraw_effect (hop : i.opcode = .draw) {width height length : Double} {w h n : Nat}
    (hwidth : width.index? = some w) (hheight : height.index? = some h)
    (hlength : length.index? = some n) (hn : n < ramSize) :
    Leads (execDraw width height length) m (fun _ => Completed i m) (Broken i m) := by
  have hcells : m.ram.first? n = some (m.ram.cells.toList.take n) := if_pos hn.le
  rw [execDraw, leads_get_bind]
  simp only [hwidth, hheight, hlength, Option.bind_some, hcells]
  split
  · simp only [leads_bind, leads_set]
    exact leads_modify.mpr (.still (.inr hop) rfl ⟨rfl, rfl⟩)
  · rename_i e _
    exact leads_fail.mpr (broken (.refl m) (.refused e (.inr hop) rfl ⟨rfl, rfl⟩))

/-- A call pushes a frame and zeros for the locals, if there are enough arguments. -/
theorem execCall_effect (hop : i.opcode = .call) (hs : m.stack.Intact) (hfs : m.frames.Intact)
    {header : Placed} {args locals : Nat} (hindex : (i.operand 0).index? = some header.offset)
    (hheader : m.program.decodeAt header.offset = .ok header)
    (hslots : declaredSlots m.current header = .ok (args, locals)) :
    Leads (execCall (i.operand 0)) m (fun _ => Completed i m) (Broken i m) := by
  have hlt : header.offset < m.program.size := by
    obtain ⟨_, _, _, hfits, _⟩ := Program.decodeAt_eq_ok hheader
    have := header.opcode.size_pos
    omega
  rw [execCall, leads_bind]
  refine leads_targetOf hindex hlt ?_
  rw [leads_get_bind, hheader]
  simp only [hslots, GuardedStack.size_eq]
  split
  · rename_i hargs
    rw [← hop]
    exact leads_failRun.mpr (broken (.refl m)
      (.fewArguments header args locals hop hindex hheader hslots hargs rfl ⟨rfl, rfl⟩))
  · rename_i hargs
    simp only [leads_bind]
    refine leads_pushFrame hfs fun s _ hframes => ?_
    refine leads_pushZeros hs fun s' _ hvalues => ?_
    exact leads_modify.mpr (.called header args locals hop hindex hheader hslots
      (Nat.le_of_not_lt hargs) hvalues hframes rfl)

/-- An instruction that starts with the frame of the current call finds none, or goes on with
it. -/
theorem currentFrame_effect {β : Type} {f : Frame → Exec β} {done : β → Machine → Prop}
    (hop : i.opcode.usesFrame = true)
    (hdone : ∀ (fs : List Frame) (g : Frame), m.frames.toList = fs ++ [g] →
      Leads (f g) m done (Broken i m)) :
    Leads (currentFrame i.opcode >>= f) m done (Broken i m) := by
  rw [leads_bind]
  refine leads_currentFrame (fun hempty => ?_) hdone
  exact broken (.refl m) (.noFrame hop hempty rfl ⟨rfl, rfl⟩)

/-- An instruction that starts by ending the current call finds none, or goes on without its
frame. -/
theorem popFrame_effect {β : Type} {f : Frame → Exec β} {done : β → Machine → Prop}
    (hop : i.opcode.usesFrame = true) (hfs : m.frames.Intact)
    (hdone : ∀ (s : GuardedStack Frame) (g : Frame), m.frames.toList = s.toList ++ [g] →
      Leads (f g) { m with frames := s } done (Broken i m)) :
    Leads (popFrame i.opcode >>= f) m done (Broken i m) := by
  rw [leads_bind]
  refine leads_popFrame hfs (fun hempty => ?_) fun s g _ hlist => hdone s g hlist
  exact broken (.refl m) (.noFrame hop hempty rfl ⟨rfl, rfl⟩)

/-- The end of a function pops its frame and returns, if there is a frame. -/
theorem execEndFunc_effect (hop : i.opcode = .endFunc) (hfs : m.frames.Intact) :
    Leads execEndFunc m (fun _ => Completed i m) (Broken i m) := by
  rw [execEndFunc, ← hop]
  exact popFrame_effect (by rw [hop]; rfl) hfs fun s f hframes =>
    leads_modify.mpr (.ended f hop hframes rfl rfl)

/-- A return without a result leaves the values of the caller, if there are so many. -/
theorem execLeave_effect (hop : i.opcode = .leave) (hs : m.stack.Intact) (hfs : m.frames.Intact) :
    Leads execLeave m (fun _ => Completed i m) (Broken i m) := by
  rw [execLeave, ← hop]
  refine popFrame_effect (by rw [hop]; rfl) hfs fun s f hframes => ?_
  refine leads_unwind hs (fun hdepth => ?_) fun s' _ hdepth hvalues =>
    .left f hop hframes hdepth hvalues rfl
  exact broken ⟨rfl, rfl, rfl, rfl⟩ (.shortLeave f hop hframes rfl hdepth rfl)

/-- A return with a result leaves it on top of the values of the caller, if there are so many. -/
theorem execRet_effect (hop : i.opcode = .ret) (hs : m.stack.Intact) (hfs : m.frames.Intact) :
    Leads execRet m (fun _ => Completed i m) (Broken i m) := by
  rw [execRet, ← hop]
  refine currentFrame_effect (by rw [hop]; rfl) fun fs f htop => ?_
  rw [leads_bind]
  refine leads_popValue hs (fun hempty => ?_) fun s result hs₁ hbefore => ?_
  · exact broken (.refl m) (.noResult hop (by simp [htop]) hempty rfl ⟨rfl, rfl⟩)
  rw [leads_bind, leads_discard]
  -- The frame that is popped is the one found before.
  refine leads_popFrame hfs (fun hempty => ?_) fun s' g _ hframes => ?_
  · simp [show m.frames.toList = [] from hempty] at htop
  have heq : g = f := by
    have hlast := congrArg List.getLast? (htop.symm.trans hframes)
    simpa using hlast.symm
  subst heq
  rw [leads_bind]
  refine leads_unwind hs₁ (fun hdepth => ?_) fun s₂ hs₂ hdepth hkept => ?_
  · exact broken ⟨rfl, rfl, rfl, rfl⟩ (.shortReturn g result hop hframes hbefore hdepth rfl)
  refine leads_pushValue hs₂ fun s₃ _ hvalues => ?_
  exact .returned g s.toList result hop hframes hbefore hdepth
    (hvalues.trans (congrArg (· ++ [result]) hkept)) rfl

/-- An instruction that refers to a slot finds none with its number, or goes on with it. -/
theorem slotOf_effect {β : Type} {g : Nat → Exec β} {done : β → Machine → Prop}
    (hop : i.opcode = .getLocal ∨ i.opcode = .getArg ∨ i.opcode = .setLocal) {fs : List Frame}
    {f : Frame} (htop : m.frames.toList = fs ++ [f])
    (hdone : ∀ s, (i.operand 0).index? = some s → s < f.slotCount i.opcode →
      Leads (g s) m done (Broken i m)) :
    Leads (slotOf i.opcode (i.operand 0) (f.slotCount i.opcode) >>= g) m done (Broken i m) := by
  rw [leads_bind]
  refine leads_slotOf (fun hslot => ?_) hdone
  exact broken (.refl m) (.noSlot fs f hop htop hslot rfl ⟨rfl, rfl⟩)

/-- The value of a slot is pushed, if the stack reaches up to it. -/
theorem pushCell_effect (hop : i.opcode = .getLocal ∨ i.opcode = .getArg) (hs : m.stack.Intact)
    {fs : List Frame} {f : Frame} (htop : m.frames.toList = fs ++ [f]) {s available : Nat}
    (hslot : (i.operand 0).index? = some s) (hlt : s < f.slotCount i.opcode) :
    Leads
      (match m.stack.get? (f.cell i.opcode s) with
        | some v => pushValue v
        | none => failRun
            (.slotOutOfRange i.opcode.mnemonic m.current (i.operand 0) available))
      m (fun _ => Completed i m) (Broken i m) := by
  rw [GuardedStack.get?_eq]
  cases hcell : m.stack.toList[f.cell i.opcode s]? with
  | some v =>
    exact leads_pushValue hs fun s' _ hvalues =>
      .got fs f s v hop htop hslot hlt hcell hvalues ⟨rfl, rfl⟩
  | none =>
    have hle := List.getElem?_eq_none_iff.mp hcell
    exact leads_failRun.mpr
      (broken (.refl m) (.noCell fs f s available hop htop hslot hlt hle rfl ⟨rfl, rfl⟩))

/-- The value of a local is pushed, if there are such a frame, slot and cell. -/
theorem execGetLocal_effect (hop : i.opcode = .getLocal) (hs : m.stack.Intact) :
    Leads (execGetLocal (i.operand 0)) m (fun _ => Completed i m) (Broken i m) := by
  rw [execGetLocal, ← hop]
  refine currentFrame_effect (by rw [hop]; rfl) fun fs f htop => ?_
  have hcount : f.localCount = f.slotCount i.opcode := by rw [hop]; rfl
  rw [hcount]
  refine slotOf_effect (.inl hop) htop fun s hslot hlt => ?_
  have hcell : f.base + s = f.cell i.opcode s := by rw [hop]; rfl
  rw [leads_get_bind, hcell]
  exact pushCell_effect (.inl hop) hs htop hslot hlt

/-- The value of an argument is pushed, if there are such a frame, slot and cell. -/
theorem execGetArg_effect (hop : i.opcode = .getArg) (hs : m.stack.Intact) :
    Leads (execGetArg (i.operand 0)) m (fun _ => Completed i m) (Broken i m) := by
  rw [execGetArg, ← hop]
  refine currentFrame_effect (by rw [hop]; rfl) fun fs f htop => ?_
  have hcount : f.argCount = f.slotCount i.opcode := by rw [hop]; rfl
  rw [hcount]
  refine slotOf_effect (.inr (.inl hop)) htop fun s hslot hlt => ?_
  have hcell : f.base - 1 - s = f.cell i.opcode s := by rw [hop]; rfl
  rw [leads_get_bind, hcell]
  exact pushCell_effect (.inr hop) hs htop hslot hlt

/-- A value is taken and stored in a local, if there are such a frame, slot, value and cell. -/
theorem execSetLocal_effect (hop : i.opcode = .setLocal) (hs : m.stack.Intact) :
    Leads (execSetLocal (i.operand 0)) m (fun _ => Completed i m) (Broken i m) := by
  rw [execSetLocal, ← hop]
  refine currentFrame_effect (by rw [hop]; rfl) fun fs f htop => ?_
  have hcount : f.localCount = f.slotCount i.opcode := by rw [hop]; rfl
  rw [hcount]
  refine slotOf_effect (.inr (.inr hop)) htop fun s hslot hlt => ?_
  rw [← hcount] at hlt
  rw [leads_bind]
  refine leads_popValue hs (fun hempty => ?_) fun s₁ v hs₁ hbefore => ?_
  · exact broken (.refl m) (.noStoredValue fs f s hop htop hslot hlt hempty rfl ⟨rfl, rfl⟩)
  rw [leads_get_bind]
  rcases Nat.lt_or_ge (f.base + s) s₁.toList.length with hcell | hcell
  · obtain ⟨s₂, hset, _, hvalues⟩ := GuardedStack.set_of_lt hs₁ hcell v
    simp only [hset, leads_set]
    exact .setLocal fs f s s₁.toList v hop htop hslot hlt hbefore hcell hvalues ⟨rfl, rfl⟩
  · simp only [GuardedStack.set_of_le hs₁ hcell v, leads_failRun]
    exact broken ⟨rfl, rfl, rfl, rfl⟩
      (.noStoringCell fs f s _ v hop htop hslot hlt hbefore hcell rfl rfl)

end Effects

/-! ## Steps of verified programs -/

section Verified

variable {p : Program} {ds : List Placed} {m : Machine}

/-- An instruction of a verified program acts by one of the rules. -/
theorem exec_effect (hds : p.decode = .ok ds)
    (hadmits : ∀ d ∈ ds, ∀ x ∈ d.opcode.operands.zipIdx, CodeMap.Admits ⟨p.size, ds⟩ d x.1 x.2)
    {d : Placed} (hd : d ∈ ds) (hprogram : m.program = p) (hs : m.stack.Intact)
    (hfs : m.frames.Intact) (hcurrent : m.current = d.offset) :
    Leads (exec d.toInstruction) m (fun _ => Completed d.toInstruction m)
      (Broken d.toInstruction m) := by
  have hoperands := hadmits d hd
  unfold exec
  cases hop : d.opcode with
  | stop => exact leads_modify.mpr (.still (.inl hop) rfl ⟨rfl, rfl⟩)
  | push =>
    rw [hop] at hoperands
    obtain ⟨x, hx⟩ := hoperands (.mode, 0) (by decide)
    rw [hop, ← hcurrent] at hx
    exact execPush_effect hop hs hx
  | pop =>
    rw [hop] at hoperands
    obtain ⟨x, hx⟩ := hoperands (.mode, 0) (by decide)
    rw [hop, ← hcurrent] at hx
    exact execPop_effect hop hs hx
  | binary op => exact execBinary_effect hop hs
  | input => exact execInput_effect hop hs
  | output => exact execOutput_effect hop hs
  | jump =>
    rw [hop] at hoperands
    obtain ⟨t, hindex, _, hlt, _⟩ := hoperands (.target, 0) (by decide)
    exact jump_effect hop hindex (by rwa [hprogram])
  | branch condition =>
    rw [hop] at hoperands
    obtain ⟨t, hindex, _, hlt, _⟩ := hoperands (.target, 0) (List.mem_singleton_self _)
    exact execBranch_effect hop hs hindex (by rwa [hprogram])
  | unary op => exact execUnary_effect hop hs
  | call =>
    rw [hop] at hoperands
    obtain ⟨t, hindex, _, _, ht⟩ := hoperands (.function, 0) (by decide)
    obtain ⟨header, hmem, rfl, hheader⟩ := CodeMap.isHeader_eq_true.mp ht
    obtain ⟨args, locals, hslots, _, _⟩ :=
      declaredSlots_of_admits hheader (hadmits header hmem) m.current
    have hdecode : m.program.decodeAt header.offset = .ok header := by
      rw [hprogram]
      exact Program.decodeAt_of_mem hds hmem
    exact execCall_effect hop hs hfs hindex hdecode hslots
  | func =>
    rw [hop] at hoperands
    obtain ⟨t, hindex, _⟩ := hoperands (.bodyEnd, 0) (by decide)
    exact execHeader_effect (by rw [hop]; rfl) hindex
  | framed =>
    rw [hop] at hoperands
    obtain ⟨t, hindex, _⟩ := hoperands (.bodyEnd, 0) (by decide)
    exact execHeader_effect (by rw [hop]; rfl) hindex
  | endFunc => exact execEndFunc_effect hop hfs
  | ret => exact execRet_effect hop hs hfs
  | leave => exact execLeave_effect hop hs hfs
  | getLocal => exact execGetLocal_effect hop hs
  | setLocal => exact execSetLocal_effect hop hs
  | getArg => exact execGetArg_effect hop hs
  | draw =>
    rw [hop] at hoperands
    obtain ⟨w, hwidth⟩ := hoperands (.count, 0) (by decide)
    obtain ⟨h, hheight⟩ := hoperands (.count, 1) (by decide)
    obtain ⟨n, hlength, hn⟩ := hoperands (.length, 2) (by decide)
    exact execDraw_effect hop hwidth hheight hlength hn

/-- A machine that has read an instruction. -/
def pastReading (m : Machine) (d : Placed) : Machine := { m with current := m.ip, ip := d.next }

/-- The machine after one more instruction, whether it completes or fails.  A machine that has
stopped stays as it is. -/
def advance (m : Machine) : Machine :=
  if m.isRunning then
    match step m with
    | .ok _ m' => m'
    | .error _ m' => m'
  else m

/-- A machine that has stopped stays as it is. -/
theorem advance_of_not_running (hstopped : m.isRunning = false) : advance m = m := by
  simp [advance, hstopped]

/-- After an instruction that completes, the machine is the one it leads to. -/
theorem advance_of_ok {m' : Machine} (hrunning : m.isRunning = true) (hstep : step m = .ok () m') :
    advance m = m' := by
  simp [advance, hrunning, hstep]

/-- A run carries out instructions one after the other. -/
theorem runSteps_eq_iterate (n : Nat) (m : Machine) :
    ∃ k ≤ n, (runSteps n m).2 = advance^[k] m := by
  induction n generalizing m with
  | zero => exact ⟨0, Nat.le_refl 0, rfl⟩
  | succ n ih =>
    rw [runSteps]
    cases hrunning : m.isRunning with
    | false => exact ⟨0, Nat.zero_le _, rfl⟩
    | true =>
      cases hstep : step m with
      | ok _ m' =>
        obtain ⟨k, hk, hrun⟩ := ih m'
        refine ⟨k + 1, Nat.succ_le_succ hk, ?_⟩
        rw [Function.iterate_succ_apply, advance_of_ok hrunning hstep]
        exact hrun
      | error r m' =>
        refine ⟨1, Nat.le_add_left 1 n, ?_⟩
        simp [advance, hrunning, hstep]

/-- A machine that runs a verified program completes the next instruction, or fails to. -/
theorem advance_effect (hp : p.verify = .ok ()) (hm : Safe p m) (hrunning : m.isRunning = true) :
    ∃ d, p.decodeAt m.ip = .ok d ∧
      (step m = .ok () (advance m) ∧ Completed d.toInstruction (m.pastReading d) (advance m) ∨
        ∃ e, step m = .error (.failure e) (advance m) ∧ Untouched (m.pastReading d) (advance m) ∧
          Failed d.toInstruction (m.pastReading d) e (advance m)) := by
  obtain ⟨ds, hds, hadmits⟩ := Program.verify_eq_ok.mp hp
  obtain ⟨d, hd, hoffset, hdecode⟩ := hm.decodeAt_ip hds hrunning
  have heffect := exec_effect (m := m.pastReading d) hds hadmits hd hm.program hm.stack hm.frames
    hoffset.symm
  unfold Leads at heffect
  rw [pastReading, ← step_of_decodeAt hdecode] at heffect
  refine ⟨d, hm.program ▸ hdecode, ?_⟩
  unfold advance
  rw [if_pos hrunning]
  cases hstep : step m with
  | ok _ m' =>
    rw [hstep] at heffect
    exact .inl ⟨rfl, heffect⟩
  | error r m' =>
    rw [hstep] at heffect
    obtain ⟨e, rfl, hrest, hfailed⟩ := heffect
    exact .inr ⟨e, rfl, hrest, hfailed⟩

/-- A step that succeeds completes the instruction at the instruction pointer. -/
theorem completed_of_ok (hp : p.verify = .ok ()) (hm : Safe p m) (hrunning : m.isRunning = true)
    {d : Placed} {m' : Machine} (hdecode : p.decodeAt m.ip = .ok d) (hstep : step m = .ok () m') :
    Completed d.toInstruction (m.pastReading d) m' := by
  obtain ⟨d', hdecode', ⟨_, hcompleted⟩ | ⟨_, herror, _⟩⟩ := advance_effect hp hm hrunning
  · rw [hdecode] at hdecode'
    cases hdecode'
    rwa [advance_of_ok hrunning hstep] at hcompleted
  · rw [hstep] at herror
    cases herror

/-- The machine after one more instruction is safe. -/
theorem safe_advance (hp : p.verify = .ok ()) (hm : Safe p m) : Safe p (advance m) := by
  unfold advance
  split
  · rename_i hrunning
    obtain ⟨_, _, hstep⟩ := step_safe hp hm hrunning
    unfold Leads at hstep
    cases hresult : step m with
    | ok _ m' =>
      rw [hresult] at hstep
      exact hstep
    | error r m' =>
      rw [hresult] at hstep
      exact hstep.2
  · exact hm

end Verified

end Machine

end StackMachine
