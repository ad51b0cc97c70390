import StackMachine.Proofs.Machine.Action
import StackMachine.Proofs.Program.Verified

/-!
# Verified programs run safely

A verified program never leads a machine astray.  The invariant `Safe` says where the
instruction pointer and the return addresses may be, what the frames hold, and that the
stacks are intact; every instruction of a verified program keeps it, whether it completes
or fails, and so do runs of any length, one after the other.

Main results:

- Definition `Error.arisesIn`: the errors that an instruction of a verified program may fail
  with.
- Theorem `declaredSlots_eq_ok_iff`: a call reads the counts that the header declares.
- Theorem `exec_safe`: an instruction of a verified program keeps the invariant, and fails
  only with such an error.
- Theorem `safe_afterRuns`: the invariant holds after any runs of a verified program.
- Theorem `afterRuns_verified`: what a machine does in every state between two
  instructions.
-/

namespace StackMachine

/-- What a frame of a program holds: it returns to an instruction or the end, and its
counts are within their limits and below its base. -/
structure Frame.Sound (p : Program) (f : Frame) : Prop where
  landing : p.Landing f.returnAddress
  argCount_le_base : f.argCount ≤ f.base
  argCount_le : f.argCount ≤ maxFrameSlots
  localCount_le : f.localCount ≤ maxFrameSlots

/-- Whether an instruction takes values from the stack, or expects them there. -/
def Opcode.takesValues : Opcode → Bool
  | pop | binary _ | output | branch _ | unary _ | call | ret | leave | setLocal => true
  | _ => false

/-- Whether an instruction works on the frame of the current call. -/
def Opcode.usesFrame : Opcode → Bool
  | endFunc | ret | leave | getLocal | setLocal | getArg => true
  | _ => false

/-- Whether an instruction of a verified program may fail with the error: for the values and
frames it finds, the addresses it computes, or what the surroundings answer. -/
def Error.arisesIn (op : Opcode) : Error → Bool
  | .run (.stackUnderflow _ _) => op.takesValues
  | .run (.noActiveFrame _ _) => op.usesFrame
  | .run (.slotOutOfRange _ _ _ _) => op == .getLocal || op == .setLocal || op == .getArg
  | .run (.addressOutOfRange _ _ _ _) => op == .push || op == .pop
  | .host (.invalidInput _) => op == .input
  | .host .endOfInput => op == .input
  | .host (.invalidBitmap _) => op == .draw
  | .host (.io _) => op == .input || op == .output || op == .draw
  | _ => false

/-- The numbers of arguments and locals that the header of a function declares: none without a
frame, and the numbers in its second and third operand with one. -/
def Placed.declared? (header : Placed) : Option (Nat × Nat) :=
  match header.opcode with
  | .func => some (0, 0)
  | .framed => do
    let args ← (header.operand 1).index?
    let locals ← (header.operand 2).index?
    return (args, locals)
  | _ => none

namespace Machine

/-! ## The invariant -/

/-- What holds of a machine between two instructions of a program. -/
structure Safe (p : Program) (m : Machine) : Prop where
  program : m.program = p
  landing : p.Landing m.ip
  stack : m.stack.Intact
  frames : m.frames.Intact
  sound : ∀ f ∈ m.frames.toList, f.Sound p

/-- What an interrupted instruction leaves: a failure that may arise in it, in a safe
machine. -/
def Stopped (p : Program) (op : Opcode) (i : Interrupt) (m : Machine) : Prop :=
  (∃ e, i = .failure e ∧ e.arisesIn op = true) ∧ Safe p m

section Safe

variable {p : Program} {m : Machine}

/-- Whether a machine is safe depends on its program, its instruction pointer and its stacks alone.
-/
theorem Safe.of_eq {m' : Machine} (hm : Safe p m) (hprogram : m'.program = m.program)
    (hip : m'.ip = m.ip) (hstack : m'.stack = m.stack) (hframes : m'.frames = m.frames) :
    Safe p m' := by
  refine ⟨hprogram.trans hm.program, ?_, ?_, ?_, ?_⟩
  · rw [hip]
    exact hm.landing
  · rw [hstack]
    exact hm.stack
  · rw [hframes]
    exact hm.frames
  · rw [hframes]
    exact hm.sound

/-- A machine stays safe with another intact stack. -/
theorem Safe.with_stack (hm : Safe p m) {s : GuardedStack Double} (hs : s.Intact) :
    Safe p { m with stack := s } :=
  ⟨hm.program, hm.landing, hs, hm.frames, hm.sound⟩

/-- A machine stays safe at another place where execution may go on. -/
theorem Safe.with_ip (hm : Safe p m) {offset : Nat} (hoffset : p.Landing offset) :
    Safe p { m with ip := offset } :=
  ⟨hm.program, hoffset, hm.stack, hm.frames, hm.sound⟩

/-- Dropping the top frame keeps a machine safe, and the frame was sound. -/
theorem Safe.drop_frame (hm : Safe p m) {s : GuardedStack Frame} {f : Frame} (hs : s.Intact)
    (hlist : m.frames.toList = s.toList ++ [f]) : Safe p { m with frames := s } ∧ f.Sound p := by
  refine ⟨⟨hm.program, hm.landing, hm.stack, hs, fun g hg => hm.sound g ?_⟩, hm.sound f ?_⟩
  · rw [hlist]
    exact List.mem_append_left _ hg
  · rw [hlist]
    exact List.mem_append_right _ (List.mem_singleton_self f)

/-- A safe machine may stop with any error that the instruction may fail with. -/
theorem Safe.stopped (hm : Safe p m) {op : Opcode} {e : Error} (he : e.arisesIn op = true) :
    Stopped p op (.failure e) m :=
  ⟨⟨e, rfl, he⟩, hm⟩

/-! ## Instructions without operands in the stream -/

theorem pushValue_safe (hm : Safe p m) (v : Double) {op : Opcode} :
    Leads (pushValue v) m (fun _ => Safe p) (Stopped p op) :=
  leads_pushValue hm.stack fun _ hs _ => hm.with_stack hs

/-- A pop keeps a machine safe; what follows starts from any safe machine. -/
theorem popValue_safe {op : Opcode} {done : Double → Machine → Prop} (hm : Safe p m)
    (hop : op.takesValues = true)
    (hdone : ∀ v m', Safe p m' → m'.frames = m.frames → done v m') :
    Leads (popValue op) m done (Stopped p op) :=
  leads_popValue hm.stack (fun _ => hm.stopped hop)
    fun _ v hs _ => hdone v _ (hm.with_stack hs) rfl

/-- An operation on two values keeps a machine safe. -/
theorem execBinary_safe (hm : Safe p m) (op : BinaryOp) :
    Leads (execBinary op) m (fun _ => Safe p) (Stopped p (.binary op)) := by
  rw [execBinary, leads_bind]
  refine popValue_safe hm rfl fun a m₁ hm₁ _ => ?_
  rw [leads_bind]
  exact popValue_safe hm₁ rfl fun b m₂ hm₂ _ => pushValue_safe hm₂ _

theorem execUnary_safe (hm : Safe p m) (op : UnaryOp) :
    Leads (execUnary op) m (fun _ => Safe p) (Stopped p (.unary op)) := by
  rw [execUnary, leads_bind]
  exact popValue_safe hm rfl fun v m₁ hm₁ _ => pushValue_safe hm₁ _

/-- What the host may refuse a number with. -/
theorem arisesIn_of_printNumber {c : Console} {v : Double} {e : HostError}
    (he : (c.printNumber v).1 = .error e) : (Error.host e).arisesIn .output = true := by
  unfold Console.printNumber at he
  split at he <;> cases he
  rfl

/-- Printing a number keeps a machine safe. -/
theorem execOutput_safe (hm : Safe p m) : Leads execOutput m (fun _ => Safe p) (Stopped p .output) := by
  rw [execOutput, leads_bind]
  refine popValue_safe hm rfl fun v m₁ hm₁ _ => ?_
  have hm₂ : Safe p { m₁ with console := (m₁.console.printNumber v).2 } :=
    hm₁.of_eq rfl rfl rfl rfl
  rw [leads_get_bind]
  simp only [leads_bind, leads_set]
  cases hresult : (m₁.console.printNumber v).1 with
  | ok _ => exact hm₂
  | error e => exact leads_fail.mpr (hm₂.stopped (arisesIn_of_printNumber hresult))

/-- What the console may refuse a number with. -/
theorem arisesIn_of_readNumber {c : Console} {e : HostError}
    (he : c.readNumber.1 = .error e) : (Error.host e).arisesIn .input = true := by
  have hword (word : String) (h : Console.parseWord word = .error e) :
      (Error.host e).arisesIn .input = true := by
    unfold Console.parseWord at h
    split at h <;> cases h
    rfl
  have hline (input : List UInt8) (h : (Console.nextWord input).1 = .error e) :
      (Error.host e).arisesIn .input = true := by
    fun_induction Console.nextWord input with
    | case1 => cases h; rfl
    | case2 => cases h; rfl
    | case3 _ _ _ _ _ _ ih => exact ih h
    | case4 => cases h
  unfold Console.readNumber at he
  split at he
  · exact hword _ he
  · split at he
    · exact hword _ he
    · rename_i hnext
      cases he
      exact hline _ (by rw [hnext])

/-- Reading a number keeps a machine safe. -/
theorem execInput_safe (hm : Safe p m) : Leads execInput m (fun _ => Safe p) (Stopped p .input) := by
  have hm' : Safe p { m with console := m.console.readNumber.2 } := hm.of_eq rfl rfl rfl rfl
  rw [execInput, leads_get_bind]
  simp only [leads_bind, leads_set]
  cases hresult : m.console.readNumber.1 with
  | ok v => exact pushValue_safe hm' v
  | error e => exact leads_fail.mpr (hm'.stopped (arisesIn_of_readNumber hresult))

/-- The end of a function keeps a machine safe: it returns to where a sound frame says. -/
theorem execEndFunc_safe (hm : Safe p m) : Leads execEndFunc m (fun _ => Safe p) (Stopped p .endFunc) := by
  rw [execEndFunc, leads_bind]
  refine leads_popFrame hm.frames (fun _ => hm.stopped rfl) fun s f hs hlist => ?_
  obtain ⟨hm', hf⟩ := hm.drop_frame hs hlist
  exact leads_modify.mpr (hm'.with_ip hf.landing)

/-- Unwinding a call with a sound frame keeps a machine safe. -/
theorem unwind_safe {op : Opcode} {f : Frame} {done : Unit → Machine → Prop} (hm : Safe p m)
    (hop : op.takesValues = true) (hf : f.Sound p) (hdone : ∀ m', Safe p m' → done () m') :
    Leads (unwind op f) m done (Stopped p op) :=
  leads_unwind hm.stack (fun _ => hm.stopped hop)
    fun _ hs _ _ => hdone _ ((hm.with_stack hs).with_ip hf.landing)

theorem execLeave_safe (hm : Safe p m) : Leads execLeave m (fun _ => Safe p) (Stopped p .leave) := by
  rw [execLeave, leads_bind]
  refine leads_popFrame hm.frames (fun _ => hm.stopped rfl) fun s f hs hlist => ?_
  obtain ⟨hm', hf⟩ := hm.drop_frame hs hlist
  exact unwind_safe hm' rfl hf fun _ h => h

/-- A return with a result keeps a machine safe. -/
theorem execRet_safe (hm : Safe p m) : Leads execRet m (fun _ => Safe p) (Stopped p .ret) := by
  rw [execRet, leads_bind]
  refine leads_currentFrame (fun _ => hm.stopped rfl) fun fs f hlist => ?_
  have hf : f.Sound p := hm.sound f (by rw [hlist]; exact List.mem_append_right _ (by simp))
  rw [leads_bind]
  refine popValue_safe hm rfl fun result m₁ hm₁ _ => ?_
  rw [leads_bind, leads_discard]
  refine leads_popFrame hm₁.frames (fun _ => hm₁.stopped rfl) fun s g hs hlist' => ?_
  rw [leads_bind]
  exact unwind_safe (hm₁.drop_frame hs hlist').1 rfl hf fun m₂ hm₂ => pushValue_safe hm₂ result

/-! ## Instructions with operands -/

/-- Pushing an operand keeps a machine safe. -/
theorem execPush_safe (hm : Safe p m) {mode value : Double} {x : Operand}
    (hdecode : Operand.decode Opcode.push.mnemonic m.current mode value = .ok x) :
    Leads (execPush mode value) m (fun _ => Safe p) (Stopped p .push) := by
  rw [execPush, leads_bind]
  refine leads_operandOf hdecode ?_
  cases x with
  | imm v => exact pushValue_safe hm v
  | reg r => exact leads_get_bind.mpr (pushValue_safe hm _)
  | mem base displacement =>
    simp only [leads_bind]
    exact leads_addressOf (fun _ => hm.stopped rfl) fun a => leads_get_bind.mpr (pushValue_safe hm _)

/-- Storing a value keeps a machine safe. -/
theorem execPop_safe (hm : Safe p m) {mode value : Double} {x : Operand}
    (hdecode : Operand.decode Opcode.pop.mnemonic m.current mode value = .ok x) :
    Leads (execPop mode value) m (fun _ => Safe p) (Stopped p .pop) := by
  rw [execPop, leads_bind]
  refine leads_operandOf hdecode ?_
  rw [leads_bind]
  refine popValue_safe hm rfl fun v m₁ hm₁ _ => ?_
  cases x with
  | imm _ => exact hm₁
  | reg r => exact leads_modify.mpr (hm₁.of_eq rfl rfl rfl rfl)
  | mem base displacement =>
    simp only [leads_bind]
    exact leads_addressOf (fun _ => hm₁.stopped rfl)
      fun a => leads_modify.mpr (hm₁.of_eq rfl rfl rfl rfl)

/-- Continuing at a verified target keeps a machine safe. -/
theorem jump_safe (hm : Safe p m) {op : Opcode} {value : Double} {t : Nat}
    (hindex : value.index? = some t) (hlt : t < p.size) (ht : p.Landing t) :
    Leads (do continueAt (← targetOf value)) m (fun _ => Safe p) (Stopped p op) := by
  rw [leads_bind]
  exact leads_targetOf hindex (by rwa [hm.program]) (leads_modify.mpr (hm.with_ip ht))

/-- A conditional jump to an instruction keeps a machine safe. -/
theorem execBranch_safe (hm : Safe p m) (condition : Condition) {value : Double} {t : Nat}
    (hindex : value.index? = some t) (hlt : t < p.size) (ht : p.Landing t) :
    Leads (execBranch condition value) m (fun _ => Safe p) (Stopped p (.branch condition)) := by
  rw [execBranch, leads_bind]
  refine popValue_safe hm rfl fun a m₁ hm₁ _ => ?_
  rw [leads_bind]
  refine popValue_safe hm₁ rfl fun b m₂ hm₂ _ => ?_
  rw [leads_bind]
  refine (pushValue_safe hm₂ b).mono (fun _ m₃ hm₃ => ?_) fun _ _ h => h
  rw [leads_bind]
  refine (pushValue_safe hm₃ a).mono (fun _ m₄ hm₄ => ?_) fun _ _ h => h
  split
  · exact jump_safe hm₄ hindex hlt ht
  · exact hm₄

/-- A header with its end at an instruction, or at the end of the program, keeps a machine safe. -/
theorem execHeader_safe (hm : Safe p m) {op : Opcode} {value : Double} {t : Nat}
    (hindex : value.index? = some t) (ht : p.Landing t) :
    Leads (execHeader value) m (fun _ => Safe p) (Stopped p op) := by
  rw [execHeader, hindex]
  exact leads_modify.mpr (hm.with_ip ht)

/-- A call keeps a machine safe: the frame it pushes returns to after the call, and its
arguments are on the stack. -/
theorem execCall_safe (hm : Safe p m) {value : Double} {header : Placed} {args locals : Nat}
    (hindex : value.index? = some header.offset) (hheader : p.decodeAt header.offset = .ok header)
    (hslots : declaredSlots m.current header = .ok (args, locals))
    (hargs : args ≤ maxFrameSlots) (hlocals : locals ≤ maxFrameSlots)
    (hnext : p.Landing header.next) :
    Leads (execCall value) m (fun _ => Safe p) (Stopped p .call) := by
  have hlt : header.offset < p.size := by
    obtain ⟨_, _, _, hfits, _⟩ := Program.decodeAt_eq_ok hheader
    have := header.opcode.size_pos
    omega
  rw [execCall, leads_bind]
  refine leads_targetOf hindex (by rwa [hm.program]) ?_
  rw [leads_get_bind, hm.program, hheader]
  simp only [hslots]
  split
  · exact leads_failRun.mpr (hm.stopped rfl)
  · rename_i hsize
    simp only [leads_bind]
    refine leads_pushFrame hm.frames fun s hs hlist => ?_
    have hm' : Safe p { m with frames := s } := by
      refine ⟨hm.program, hm.landing, hm.stack, hs, fun f hf => ?_⟩
      rw [hlist, List.mem_append, List.mem_singleton] at hf
      rcases hf with hold | rfl
      · exact hm.sound f hold
      · exact ⟨hm.landing, Nat.le_of_not_lt hsize, hargs, hlocals⟩
    exact leads_pushZeros hm.stack fun s' hs' _ =>
      leads_modify.mpr ((hm'.with_stack hs').with_ip hnext)

/-- Reading a local keeps a machine safe. -/
theorem execGetLocal_safe (hm : Safe p m) (slot : Double) :
    Leads (execGetLocal slot) m (fun _ => Safe p) (Stopped p .getLocal) := by
  rw [execGetLocal, leads_bind]
  refine leads_currentFrame (fun _ => hm.stopped rfl) fun fs f _ => ?_
  rw [leads_bind]
  refine leads_slotOf (fun _ => hm.stopped rfl) fun s _ _ => ?_
  rw [leads_get_bind]
  split
  · exact pushValue_safe hm _
  · exact leads_failRun.mpr (hm.stopped rfl)

theorem execGetArg_safe (hm : Safe p m) (slot : Double) :
    Leads (execGetArg slot) m (fun _ => Safe p) (Stopped p .getArg) := by
  rw [execGetArg, leads_bind]
  refine leads_currentFrame (fun _ => hm.stopped rfl) fun fs f _ => ?_
  rw [leads_bind]
  refine leads_slotOf (fun _ => hm.stopped rfl) fun s _ _ => ?_
  rw [leads_get_bind]
  split
  · exact pushValue_safe hm _
  · exact leads_failRun.mpr (hm.stopped rfl)

/-- Storing in a local keeps a machine safe. -/
theorem execSetLocal_safe (hm : Safe p m) (slot : Double) :
    Leads (execSetLocal slot) m (fun _ => Safe p) (Stopped p .setLocal) := by
  rw [execSetLocal, leads_bind]
  refine leads_currentFrame (fun _ => hm.stopped rfl) fun fs f _ => ?_
  rw [leads_bind]
  refine leads_slotOf (fun _ => hm.stopped rfl) fun s _ _ => ?_
  rw [leads_bind]
  refine popValue_safe hm rfl fun v m₁ hm₁ _ => ?_
  rw [leads_get_bind]
  rcases Nat.lt_or_ge (f.base + s) m₁.stack.toList.length with hlt | hge
  · obtain ⟨s', hset, hs', _⟩ := GuardedStack.set_of_lt hm₁.stack hlt v
    simp only [hset, leads_set]
    exact hm₁.with_stack hs'
  · simp only [GuardedStack.set_of_le hm₁.stack hge v, leads_failRun]
    exact hm₁.stopped rfl

/-- What a picture may be refused with. -/
theorem arisesIn_of_draw {width height : Nat} {data : List UInt8} {canvas : Canvas}
    {e : HostError} (he : (Bitmap.encode width height data).bind canvas.write = .error e) :
    (Error.host e).arisesIn .draw = true := by
  cases hencode : Bitmap.encode width height data with
  | ok picture =>
    rw [hencode] at he
    simp only [Except.bind, Canvas.write] at he
    split at he <;> cases he
    rfl
  | error e' =>
    rw [hencode] at he
    cases he
    simp only [Bitmap.encode] at hencode
    split_ifs at hencode <;> cases hencode <;> rfl

/-- Drawing keeps a machine safe. -/
theorem execDraw_safe (hm : Safe p m) {width height length : Double} {w h n : Nat}
    (hwidth : width.index? = some w) (hheight : height.index? = some h)
    (hlength : length.index? = some n) (hn : n < ramSize) :
    Leads (execDraw width height length) m (fun _ => Safe p) (Stopped p .draw) := by
  have hcells : m.ram.first? n = some (m.ram.cells.toList.take n) := if_pos hn.le
  rw [execDraw, leads_get_bind]
  simp only [hwidth, hheight, hlength, Option.bind_some, hcells]
  split
  · rename_i canvas _
    simp only [leads_bind, leads_set]
    exact leads_modify.mpr (hm.of_eq rfl rfl rfl rfl)
  · rename_i e he
    exact leads_fail.mpr (hm.stopped (arisesIn_of_draw he))

end Safe

/-! ## Any instruction of a verified program -/

section Verified

variable {p : Program} {ds : List Placed} {m : Machine}

/-- A call reads the counts that the header of the function declares, if they are within their
limits. -/
theorem declaredSlots_eq_ok_iff {current args locals : Nat} {header : Placed} :
    declaredSlots current header = .ok (args, locals) ↔
      header.declared? = some (args, locals) ∧ args ≤ maxFrameSlots ∧ locals ≤ maxFrameSlots := by
  unfold declaredSlots Placed.declared?
  cases header.opcode with
  | func =>
    dsimp only
    rw [Except.ok.injEq, Option.some.injEq, Prod.mk.injEq]
    constructor
    · rintro ⟨rfl, rfl⟩
      exact ⟨⟨rfl, rfl⟩, Nat.zero_le _, Nat.zero_le _⟩
    · exact And.left
  | framed =>
    cases (header.operand 1).index? with
    | none => simp
    | some declaredArgs =>
      cases (header.operand 2).index? with
      | none => simp
      | some declaredLocals =>
        dsimp only
        split <;> simp <;> omega
  | _ => simp

/-- A header of a verified program declares counts within their limits. -/
theorem declaredSlots_of_admits {header : Placed} (hheader : header.opcode.isHeader = true)
    (hadmits : ∀ x ∈ header.opcode.operands.zipIdx, CodeMap.Admits ⟨p.size, ds⟩ header x.1 x.2)
    (current : Nat) :
    ∃ args locals, declaredSlots current header = .ok (args, locals) ∧
      args ≤ maxFrameSlots ∧ locals ≤ maxFrameSlots := by
  unfold declaredSlots
  cases hop : header.opcode with
  | func => exact ⟨0, 0, rfl, Nat.zero_le _, Nat.zero_le _⟩
  | framed =>
    rw [hop] at hadmits
    obtain ⟨args, hargs, hargs'⟩ := hadmits (.frameSize, 1) (by decide)
    obtain ⟨locals, hlocals, hlocals'⟩ := hadmits (.frameSize, 2) (by decide)
    refine ⟨args, locals, ?_, hargs', hlocals'⟩
    simp only [hargs, hlocals, hargs', hlocals', and_self, if_true]
  | _ => simp [hop, Opcode.isHeader] at hheader

/-- An instruction of a verified program keeps the invariant, and fails only with an error
of the running program or of its surroundings. -/
theorem exec_safe (hds : p.decode = .ok ds)
    (hadmits : ∀ d ∈ ds, ∀ x ∈ d.opcode.operands.zipIdx, CodeMap.Admits ⟨p.size, ds⟩ d x.1 x.2)
    {d : Placed} (hd : d ∈ ds) (hm : Safe p m) (hcurrent : m.current = d.offset) :
    Leads (exec d.toInstruction) m (fun _ => Safe p) (Stopped p d.opcode) := by
  have hoperands := hadmits d hd
  have hlanding {t : Nat} (ht : CodeMap.isBoundary ⟨p.size, ds⟩ t = true) : p.Landing t :=
    .inr ((Program.boundary_iff hds).mpr (CodeMap.isBoundary_eq_true.mp ht))
  unfold exec
  cases hop : d.opcode with
  | stop => exact leads_modify.mpr (hm.of_eq rfl rfl rfl rfl)
  | push =>
    rw [hop] at hoperands
    obtain ⟨x, hx⟩ := hoperands (.mode, 0) (by decide)
    rw [hop, ← hcurrent] at hx
    exact execPush_safe hm hx
  | pop =>
    rw [hop] at hoperands
    obtain ⟨x, hx⟩ := hoperands (.mode, 0) (by decide)
    rw [hop, ← hcurrent] at hx
    exact execPop_safe hm hx
  | binary op => exact execBinary_safe hm op
  | input => exact execInput_safe hm
  | output => exact execOutput_safe hm
  | jump =>
    rw [hop] at hoperands
    obtain ⟨t, hindex, _, hlt, hboundary⟩ := hoperands (.target, 0) (by decide)
    exact jump_safe hm hindex hlt (hlanding hboundary)
  | branch condition =>
    rw [hop] at hoperands
    obtain ⟨t, hindex, _, hlt, hboundary⟩ := hoperands (.target, 0) (List.mem_singleton_self _)
    exact execBranch_safe hm condition hindex hlt (hlanding hboundary)
  | unary op => exact execUnary_safe hm op
  | call =>
    rw [hop] at hoperands
    obtain ⟨t, hindex, _, _, ht⟩ := hoperands (.function, 0) (by decide)
    obtain ⟨header, hmem, rfl, hheader⟩ := CodeMap.isHeader_eq_true.mp ht
    obtain ⟨args, locals, hslots, hargs, hlocals⟩ :=
      declaredSlots_of_admits hheader (hadmits header hmem) m.current
    exact execCall_safe hm hindex (Program.decodeAt_of_mem hds hmem) hslots hargs hlocals
      (Program.landing_next hds hmem)
  | func =>
    rw [hop] at hoperands
    obtain ⟨t, hindex, _, _, _, hend⟩ := hoperands (.bodyEnd, 0) (by decide)
    exact execHeader_safe hm hindex (hend.elim .inl hlanding)
  | framed =>
    rw [hop] at hoperands
    obtain ⟨t, hindex, _, _, _, hend⟩ := hoperands (.bodyEnd, 0) (by decide)
    exact execHeader_safe hm hindex (hend.elim .inl hlanding)
  | endFunc => exact execEndFunc_safe hm
  | ret => exact execRet_safe hm
  | leave => exact execLeave_safe hm
  | getLocal => exact execGetLocal_safe hm _
  | setLocal => exact execSetLocal_safe hm _
  | getArg => exact execGetArg_safe hm _
  | draw =>
    rw [hop] at hoperands
    obtain ⟨w, hwidth⟩ := hoperands (.count, 0) (by decide)
    obtain ⟨h, hheight⟩ := hoperands (.count, 1) (by decide)
    obtain ⟨n, hlength, hn⟩ := hoperands (.length, 2) (by decide)
    exact execDraw_safe hm hwidth hheight hlength hn

/-- A safe machine that is running is at an instruction of its program. -/
theorem Safe.decodeAt_ip (hds : p.decode = .ok ds) (hm : Safe p m) (hrunning : m.isRunning = true) :
    ∃ d ∈ ds, d.offset = m.ip ∧ m.program.decodeAt m.ip = .ok d := by
  have hlt : m.ip < p.size := by
    rw [isRunning, Bool.and_eq_true, decide_eq_true_iff, hm.program] at hrunning
    exact hrunning.2
  rcases hm.landing with heq | hboundary
  · exact absurd heq hlt.ne
  · obtain ⟨d, hd, hoffset⟩ := (Program.boundary_iff hds).mp hboundary
    refine ⟨d, hd, hoffset, ?_⟩
    rw [hm.program, ← hoffset]
    exact Program.decodeAt_of_mem hds hd

/-- A step of a verified program keeps the invariant, and fails only as an instruction
may. -/
theorem step_safe (hp : p.verify = .ok ()) (hm : Safe p m) (hrunning : m.isRunning = true) :
    ∃ d, m.program.decodeAt m.ip = .ok d ∧
      Leads step m (fun _ => Safe p) (Stopped p d.opcode) := by
  obtain ⟨ds, hds, hadmits⟩ := Program.verify_eq_ok.mp hp
  obtain ⟨d, hd, hoffset, hdecode⟩ := hm.decodeAt_ip hds hrunning
  refine ⟨d, hdecode, ?_⟩
  unfold Leads
  rw [step_of_decodeAt hdecode]
  refine exec_safe hds hadmits hd ?_ hoffset.symm
  exact ⟨hm.program, Program.landing_next hds hd, hm.stack, hm.frames, hm.sound⟩

/-! ## Runs -/

/-- The machine after some runs, one after the other, each for at most the given number of
steps.  A run that is interrupted leaves the machine the next one goes on from. -/
def afterRuns (budgets : List Nat) (m : Machine) : Machine :=
  budgets.foldl (fun m steps => (run steps m).2) m

/-- Any number of steps keep a machine safe. -/
theorem runSteps_safe (hp : p.verify = .ok ()) (hm : Safe p m) (n : Nat) :
    Safe p (runSteps n m).2 := by
  induction n generalizing m with
  | zero => exact hm
  | succ n ih =>
    rw [runSteps]
    split
    · rename_i hrunning
      obtain ⟨_, _, hstep⟩ := step_safe hp hm hrunning
      unfold Leads at hstep
      cases hresult : step m with
      | ok _ m' =>
        rw [hresult] at hstep
        exact ih hstep
      | error i m' =>
        rw [hresult] at hstep
        exact hstep.2
    · exact hm

/-- A run keeps a machine safe. -/
theorem run_safe (hp : p.verify = .ok ()) (hm : Safe p m) (n : Nat) : Safe p (run n m).2 := by
  have hsteps := runSteps_safe hp (hm.of_eq rfl rfl rfl rfl : Safe p m.noteStart) n
  rw [run]
  dsimp only
  unfold noteEnd
  split
  · exact hsteps.of_eq rfl rfl rfl rfl
  · exact hsteps

/-- A machine with a verified program is safe at its start. -/
theorem safe_start (hp : p.verify = .ok ()) (capacity : Nat) (console : Console)
    (canvas : Canvas) : Safe p (start p capacity console canvas) := by
  obtain ⟨ds, hds, _⟩ := Program.verify_eq_ok.mp hp
  refine ⟨rfl, Program.landing_codeStart hds, GuardedStack.intact_empty _,
    GuardedStack.intact_empty _, fun f hf => ?_⟩
  rw [start, GuardedStack.toList_empty] at hf
  cases hf

/-- The invariant holds after any runs of a verified program. -/
theorem safe_afterRuns (hp : p.verify = .ok ()) (hm : Safe p m) (budgets : List Nat) :
    Safe p (afterRuns budgets m) := by
  induction budgets generalizing m with
  | nil => exact hm
  | cons n budgets ih => exact ih (run_safe hp hm n)

end Verified

/-- A verified program loads, and after any runs the machine is at an instruction or the
end, as are all its return addresses, its frames keep below their bases, its stacks are
intact, and the next step carries out the decoded instruction and fails, if at all, with an
error of the running program or of its surroundings. -/
theorem afterRuns_verified {p : Program} (hp : p.verify = .ok ()) (capacity : Nat)
    (console : Console) (canvas : Canvas) :
    ∃ m₀, load p capacity console canvas = .ok m₀ ∧ ∀ budgets : List Nat,
      let m := afterRuns budgets m₀
      p.Landing m.ip ∧
      (∀ f ∈ m.frames.toList, p.Landing f.returnAddress ∧ f.argCount ≤ f.base ∧
        f.argCount ≤ maxFrameSlots ∧ f.localCount ≤ maxFrameSlots ∧
        f.callerDepth + f.argCount = f.base ∧
        ∀ slot < f.argCount, f.base - 1 - slot + (1 + slot) = f.base) ∧
      m.stack.verify = none ∧ m.frames.verify = none ∧
      (m.isRunning = true → ∃ d, p.decodeAt m.ip = .ok d ∧
        fetch m = .ok d.toInstruction { m with current := m.ip, ip := d.next } ∧
        ∀ i m', step m = .error i m' → ∃ e, i = .failure e ∧ e.arisesIn d.opcode = true) := by
  refine ⟨start p capacity console canvas, by rw [load, hp]; rfl, fun budgets => ?_⟩
  have hm := safe_afterRuns hp (safe_start hp capacity console canvas) budgets
  generalize afterRuns budgets (start p capacity console canvas) = m at hm ⊢
  refine ⟨hm.landing, fun f hf => ?_, GuardedStack.verify_eq_none.mpr hm.stack,
    GuardedStack.verify_eq_none.mpr hm.frames, fun hrunning => ?_⟩
  · obtain ⟨hlanding, hbase, hargs, hlocals⟩ := hm.sound f hf
    refine ⟨hlanding, hbase, hargs, hlocals, Nat.sub_add_cancel hbase, fun slot hslot => ?_⟩
    omega
  · obtain ⟨d, hdecode, hstep⟩ := step_safe hp hm hrunning
    refine ⟨d, hm.program ▸ hdecode, fetch_of_decodeAt hdecode, fun i m' herror => ?_⟩
    rw [Leads, herror] at hstep
    exact hstep.1

/-- A call of a function with a local, and the function. -/
def callExample : Program :=
  .ofCode (List.flatMap Instruction.encode
    [⟨.call, [.ofNat 15]⟩, ⟨.framed, [.ofNat 41, .ofNat 0, .ofNat 1]⟩, ⟨.endFunc, []⟩])

/-- After two runs of the program, which calls a function, execution may go on where the machine is.
-/
theorem afterRuns_callExample :
    callExample.verify = .ok () ∧
      callExample.Landing
        (afterRuns [1, 2] (start callExample 8 (.ofInput []) (.blank "" none))).ip := by
  have hp : callExample.verify = .ok () := by decide +kernel
  obtain ⟨m₀, hm₀, h⟩ := afterRuns_verified hp 8 (.ofInput []) (.blank "" none)
  rw [load, hp] at hm₀
  cases hm₀
  exact ⟨hp, (h [1, 2]).1⟩

end Machine

end StackMachine
